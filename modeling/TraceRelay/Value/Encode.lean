import TraceRelay.Buffer
import TraceRelay.Value.Basic

/-!
# Writing values

A value is written as its tag and then its content: integers in little-endian order, strings and
byte strings behind a four-byte length.

## Main definitions

* `Write.blob` : a tag, a length and bytes.
* `Value.write` : one value.
-/

namespace TraceRelay

/-- The largest number that a four-byte count or length can say. -/
def maxUInt32 : Nat := 0xFFFFFFFF

/-- Writes a tag, the length of the bytes and the bytes. Nothing is written if the length does not
fit. -/
def Write.blob (tag : Tag) (bs : Bytes) : Write CodecError Unit :=
  let length := bs.length
  if length > maxUInt32 then throw (.blobTooLarge length)
  else Write.append (tag.byteOf :: Bytes.littleEndian 4 length ++ bs)

/-- Writes a value. Only a string or byte string that is too long is refused. -/
def Value.write : Value → Write CodecError Unit
  | .bool v => .append [(if v then Tag.boolTrue else Tag.boolFalse).byteOf]
  | .byte v => .append [Tag.byte.byteOf, v.toUInt8]
  | .char v => .append (Tag.char.byteOf :: Bytes.ofUInt16 v)
  | .short v => .append (Tag.short.byteOf :: Bytes.ofUInt16 v.toUInt16)
  | .int v => .append (Tag.int.byteOf :: Bytes.ofUInt32 v.toUInt32)
  | .long v => .append (Tag.long.byteOf :: Bytes.ofUInt64 v.toUInt64)
  | .float bits => .append (Tag.float.byteOf :: Bytes.ofUInt32 bits)
  | .double bits => .append (Tag.double.byteOf :: Bytes.ofUInt64 bits)
  | .text v => .blob .string (Bytes.ofText v)
  | .bytes v => .blob .bytes v
  | .object t => .append (Tag.object.byteOf :: Bytes.ofUInt64 t.word)
  | .objectWithData t => .append (Tag.objectData.byteOf :: Bytes.ofUInt64 t.word)

end TraceRelay
