import TraceRelay.Method.Error
import TraceRelay.Text.Split

/-!
# Method names

A full method name is a scope, a dot and a method. The scope may hold dots, the method holds none.

## Main definitions

* `MethodName` : a scope and a method.
* `MethodName.ofText` : the parts of a full name.
-/

namespace TraceRelay

/-- The parts of a full method name. -/
structure MethodName where
  /-- What stands before the last dot. -/
  scope : String
  /-- What stands after the last dot. -/
  method : String
deriving DecidableEq, Repr, Inhabited

namespace MethodName

/-- The full name. -/
def text (n : MethodName) : String := n.scope ++ "." ++ n.method

/-- The parts of a full name, of which neither may be empty. -/
def ofText (name : String) : Except MethodError MethodName :=
  match Text.splitLast '.' name.toList with
  | some (scope, method) =>
    if scope.isEmpty || method.isEmpty then .error (.malformedName name)
    else .ok ⟨String.ofList scope, String.ofList method⟩
  | none => .error (.malformedName name)

end MethodName

end TraceRelay
