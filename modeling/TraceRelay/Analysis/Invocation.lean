import TraceRelay.Heap.Basic
import TraceRelay.Record.Basic
import TraceRelay.Text.Quoted

/-!
# Invocations

What an analysis sees of a record: the name of the method, and the arguments with replicas
in place of tokens.

## Main definitions

* `Argument`, `Argument.resolve` : an argument, and the argument that a value becomes.
* `Invocation` : one call as an analysis sees it.
* `Invocation.object`, `Invocation.int`, … : an argument of a given kind.
* `HandlerError` : why an analysis refuses an invocation.
-/

namespace TraceRelay

/-- Why an analysis refuses an invocation. -/
inductive HandlerError where
  /-- An argument is missing or of another kind. -/
  | badArgument (index : Nat) (expected : String)
  /-- The analysis took a method that it can not handle. -/
  | unhandledMethod (method : String)
  /-- Any other reason. -/
  | failed (detail : String)
deriving DecidableEq, Repr

/-- The wording of a reason. -/
def HandlerError.message : HandlerError → String
  | badArgument index expected => s!"argument {index} is not {expected}"
  | unhandledMethod method => s!"no handler for method {Text.quote method}"
  | failed detail => detail

/-- An argument as an analysis sees it. -/
inductive Argument where
  /-- A value that names no object. -/
  | plain (v : Value) (names_nothing : v.token? = none)
  /-- A replica, or nothing for the null token. -/
  | object (ref : Option ObjectRef)
deriving DecidableEq

namespace Argument

/-- The argument that a value becomes. A token is resolved in the heap. -/
def resolve (v : Value) : EStateM HeapError Heap Argument := do
  match h : v.token? with
  | none => return .plain v h
  | some t => return .object (← Heap.resolve t)

/-- The arguments that values become, resolved from the first to the last. -/
def resolveAll : List Value → EStateM HeapError Heap (List Argument)
  | [] => return []
  | v :: vs => do
    let arg ← resolve v
    let args ← resolveAll vs
    return arg :: args

end Argument

/-- One call as an analysis sees it. -/
structure Invocation where
  /-- The method, without the scope of the analysis. -/
  method : String
  methodId : MethodId
  /-- The stream that the record came on. -/
  ordering : UInt64
  args : List Argument
deriving DecidableEq

namespace Invocation

/-- The argument at an index. -/
def arg? (i : Invocation) (index : Nat) : Option Argument := i.args[index]?

/-- The object at an index, which is nothing for the null token. -/
def object (i : Invocation) (index : Nat) : Except HandlerError (Option ObjectRef) :=
  match i.arg? index with
  | some (.object ref) => .ok ref
  | _ => .error (.badArgument index "an object")

/-- The four-byte integer at an index. -/
def int (i : Invocation) (index : Nat) : Except HandlerError Int32 :=
  match i.arg? index with
  | some (.plain (.int v) _) => .ok v
  | _ => .error (.badArgument index "an int")

/-- The eight-byte integer at an index. -/
def long (i : Invocation) (index : Nat) : Except HandlerError Int64 :=
  match i.arg? index with
  | some (.plain (.long v) _) => .ok v
  | _ => .error (.badArgument index "a long")

/-- The string at an index. -/
def text (i : Invocation) (index : Nat) : Except HandlerError String :=
  match i.arg? index with
  | some (.plain (.text v) _) => .ok v
  | _ => .error (.badArgument index "a string")

end Invocation

end TraceRelay
