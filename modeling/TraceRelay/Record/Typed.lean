import TraceRelay.Record.Encode

/-!
# Arguments by their types

A caller that knows the type of an argument adds it to a record without making a value of it first.
Most types are written in a few bytes that always fit; a string or a byte string may be too long.

## Main definitions

* `RecordBuilder.add` : an argument that is never refused.
* `RecordBuilder.addWith` : an argument that may be refused.
* `RecordBuilder.pushTyped` : an argument of each type.
-/

namespace TraceRelay

namespace RecordBuilder

/-- Adds an argument that is never refused: its tag and its content. -/
def add (tag : Tag) (content : Bytes) : EStateM WireError RecordBuilder Unit :=
  modify fun b =>
    { b with count := b.count + 1, body := (b.body.append [tag.byteOf]).append content }

/-- Adds what a writer writes as an argument. One that is refused leaves no trace. -/
def addWith (w : Write CodecError Unit) : EStateM WireError RecordBuilder Unit :=
  fun ⟨method, count, body⟩ =>
    match w body with
    | .ok _ body => .ok () ⟨method, count + 1, body⟩
    | .error e body => .error (.ofCodec e) ⟨method, count, body⟩

/-- Adds an argument in the way of its type. -/
def pushTyped : Value → EStateM WireError RecordBuilder Unit
  | .bool v => add (if v then .boolTrue else .boolFalse) []
  | .byte v => add .byte [v.toUInt8]
  | .char v => add .char (Bytes.ofUInt16 v)
  | .short v => add .short (Bytes.ofUInt16 v.toUInt16)
  | .int v => add .int (Bytes.ofUInt32 v.toUInt32)
  | .long v => add .long (Bytes.ofUInt64 v.toUInt64)
  | .float bits => add .float (Bytes.ofUInt32 bits)
  | .double bits => add .double (Bytes.ofUInt64 bits)
  | .text v => addWith (.blob .string (Bytes.ofText v))
  | .bytes v => addWith (.blob .bytes v)
  | .object t => add .object (Bytes.ofUInt64 t.word)
  | .objectWithData t => add .objectData (Bytes.ofUInt64 t.word)

end RecordBuilder

end TraceRelay
