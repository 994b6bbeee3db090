import TraceRelay.Record.Basic
import TraceRelay.Value.Encode
import TraceRelay.WireError

/-!
# Writing records

A record is written as its method id, the number of its arguments and the arguments. A record can
also be put together argument by argument, its head being written last.

## Main definitions

* `Record.write` : a whole record.
* `RecordBuilder` : a record that is being put together.
* `RecordBuilder.push`, `RecordBuilder.finish` : one more argument, and the finished record.
-/

namespace TraceRelay

/-- Writes values one after the other. -/
def Value.writeAll : List Value → Write CodecError Unit
  | [] => return
  | v :: vs => do
    v.write
    writeAll vs

namespace Record

/-- The method id and the number of arguments. -/
def head (method : MethodId) (count : Nat) : Bytes :=
  Bytes.ofUInt16 method ++ [UInt8.ofNat count]

/-- Writes a record, or nothing if it has too many arguments or one of them is refused. -/
def write (r : Record) : Write WireError Unit :=
  let count := r.argCount
  if count > maxArgs then throw (.tooManyArgs count)
  else Write.allOrNothing do
    Write.append (head r.method count)
    EStateM.adaptExcept WireError.ofCodec (Value.writeAll r.args)

end Record

/-- A record that is being put together. Nothing of it is visible elsewhere until it is finished. -/
structure RecordBuilder where
  /-- The method that was called. -/
  method : MethodId
  /-- The number of arguments so far. -/
  count : Nat
  /-- The written arguments. -/
  body : Buffer
deriving Inhabited

namespace RecordBuilder

/-- A record without arguments yet. -/
def start (method : MethodId) : RecordBuilder := ⟨method, 0, {}⟩

/-- Adds an argument. One that is refused leaves no trace. -/
def push (v : Value) : EStateM WireError RecordBuilder Unit := fun ⟨method, count, body⟩ =>
  match v.write body with
  | .ok _ body => .ok () ⟨method, count + 1, body⟩
  | .error e body => .error (.ofCodec e) ⟨method, count, body⟩

/-- The size of the finished record. -/
def encodedSize (r : RecordBuilder) : Nat := 3 + r.body.size

/-- Writes the finished record, or nothing if it has too many arguments. -/
def finish (r : RecordBuilder) : Write WireError Unit :=
  if r.count > Record.maxArgs then throw (.tooManyArgs r.count)
  else Write.appendWith (Record.head r.method r.count) r.body

end RecordBuilder

end TraceRelay
