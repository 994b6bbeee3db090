import TraceRelay.Record.Basic
import TraceRelay.Value.Decode
import TraceRelay.WireError

/-!
# Reading records

A record carries no length: it ends where the last of its arguments ends.

## Main definitions

* `Read.whole` : a reader that has to use up its input.
* `Record.read` : the next record.
* `Record.decode` : the record that a byte string is.
-/

namespace TraceRelay

namespace Read

/-- A reader of values as a part of a reader of the stream. -/
def ofValues {α : Type} (r : Read CodecError α) : Read WireError α :=
  EStateM.adaptExcept WireError.ofCodec r

/-- What a reader makes of a byte string, of which nothing may be left. -/
def whole {α : Type} (r : Read WireError α) (bs : Bytes) : Except WireError α :=
  match r bs with
  | .ok a [] => .ok a
  | .ok _ rest => .error (.trailingBytes rest.length)
  | .error e _ => .error e

end Read

namespace Record

/-- The next record. -/
def read : Read WireError Record := do
  let method ← Read.ofValues Read.uint16
  let count ← Read.ofValues Read.uint8
  let args ← Read.ofValues (Read.times count.toNat Value.read)
  return ⟨method, args⟩

/-- The record that a byte string is. -/
def decode (bs : Bytes) : Except WireError Record := Read.whole read bs

end Record

end TraceRelay
