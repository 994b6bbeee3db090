import TraceRelay.Bytes
import TraceRelay.Token

/-!
# Values

The arguments of a record. Two of the forms name objects of the observed process, all others are
carried as they are.

## Main definitions

* `Value` : one argument.
* `Value.token?` : the object that a value names.
-/

namespace TraceRelay

/-- One argument of a record. Floating-point numbers are kept as their bits, so that every pattern
survives. -/
inductive Value where
  | bool (v : Bool)
  | byte (v : Int8)
  /-- A UTF-16 code unit. -/
  | char (v : UInt16)
  | short (v : Int16)
  | int (v : Int32)
  | long (v : Int64)
  | float (bits : UInt32)
  | double (bits : UInt64)
  | text (v : String)
  | bytes (v : Bytes)
  /-- An object that the receiver keeps track of. -/
  | object (t : Token)
  /-- An object whose describing data travels in a message of its own. -/
  | objectWithData (t : Token)
deriving DecidableEq, Inhabited

/-- The object that a value names, if it names one. -/
def Value.token? : Value → Option Token
  | .object t | .objectWithData t => some t
  | _ => none

end TraceRelay
