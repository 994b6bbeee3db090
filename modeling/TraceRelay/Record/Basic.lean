import TraceRelay.Value.Basic

/-!
# Records

A record is one observed call: which method it was, and the arguments that were noted.

## Main definitions

* `MethodId` : the number under which a method was announced.
* `Record` : a method id and arguments.
-/

namespace TraceRelay

/-- The number under which a method was announced. Zero is never given out. -/
abbrev MethodId := UInt16

namespace MethodId

/-- The first number that is given out. -/
def first : MethodId := 1

/-- A method id as it is written in messages. -/
def text (id : MethodId) : String := s!"method#{id.toNat}"

end MethodId

/-- One observed call. -/
structure Record where
  /-- The method that was called. -/
  method : MethodId
  /-- The noted arguments, in order. -/
  args : List Value
deriving DecidableEq, Inhabited

/-- The most arguments that one record can have. -/
def Record.maxArgs : Nat := 255

/-- The number of arguments. -/
def Record.argCount (r : Record) : Nat := r.args.length

end TraceRelay
