import TraceRelay.Message.Basic
import TraceRelay.Record.Encode

/-!
# Writing messages

A frame is the byte of its kind, the length of its body and the body. The length is filled in when
the body has been written.

## Main definitions

* `Write.count` : a number as a four-byte field.
* `Message.writeBody`, `Message.write` : the body, and the whole frame.
* `Message.toBytes` : the frame of a message.
-/

namespace TraceRelay

namespace Write

/-- A writer of values as a part of a writer of the stream. -/
def ofValues {α : Type} (w : Write CodecError α) : Write WireError α :=
  EStateM.adaptExcept WireError.ofCodec w

/-- A number as a four-byte field, unless it is too large. -/
def count (n : Nat) : Write WireError UInt32 :=
  if n > maxUInt32 then throw .batchTooLarge else return UInt32.ofNat n

/-- Writes a token without a tag. -/
def token {ε : Type} (t : Token) : Write ε Unit := append (Bytes.ofUInt64 t.word)

/-- Writes a text as a tagged value. -/
def text (s : String) : Write WireError Unit := ofValues (blob .string (Bytes.ofText s))

end Write

/-- Writes records one after the other. -/
def Record.writeAll : List Record → Write WireError Unit
  | [] => return
  | r :: rs => do
    r.write
    writeAll rs

/-- Writes tokens one after the other. -/
def Token.writeAll : List Token → Write WireError Unit
  | [] => return
  | t :: ts => do
    Write.token t
    writeAll ts

namespace Message

/-- Writes the body of a frame. -/
def writeBody : Message → Write WireError Unit
  | close => return
  | analyze ordering records => do
    Write.append (Bytes.ofUInt64 ordering)
    Write.append (Bytes.ofUInt32 (← Write.count records.length))
    Record.writeAll records
  | objectFree tokens => do
    Write.append (Bytes.ofUInt32 (← Write.count tokens.length))
    Token.writeAll tokens
  | registerMethod id name => do
    Write.append (Bytes.ofUInt16 id)
    Write.text name
  | classInfo info => do
    Write.token info.subject
    Write.text info.signature
    Write.text info.generic
    Write.token info.loader
    Write.token info.parent
  | stringInfo subject text => do
    Write.token subject
    Write.text text
  | threadInfo info => do
    Write.token info.subject
    Write.text info.name
    Write.ofValues (Value.bool info.daemon).write
  | threadEnd ordering => Write.append (Bytes.ofUInt64 ordering)

/-- Writes the frame of a message, or nothing if a part of it is refused. -/
def write (m : Message) : Write WireError Unit := Write.allOrNothing do
  Write.append [m.kind.byteOf]
  let length ← Write.reserve
  let start ← Write.size
  m.writeBody
  let stop ← Write.size
  let bodySize ← Write.count (stop - start)
  Write.ofValues (Write.patch length bodySize)

/-- The frame of a message. -/
def toBytes (m : Message) : Except WireError Bytes :=
  match m.write {} with
  | .ok _ b => .ok b.toList
  | .error e _ => .error e

end Message

end TraceRelay
