import TraceRelay.Text.Hex
import TraceRelay.Value.Tag

/-!
# Faults of single values

What can go wrong while one value is written or read.

## Main definitions

* `CodecError` : the causes.
* `CodecError.message` : their wording.
-/

namespace TraceRelay

/-- Why a value could not be written or read. -/
inductive CodecError where
  /-- Fewer bytes are left than a width or a length asks for. -/
  | truncated (needed available : Nat)
  /-- The byte is no tag. -/
  | unknownTag (byte : UInt8)
  /-- The next value is of another type than the one asked for. -/
  | unexpectedTag (expected found : Tag)
  /-- The bytes of a string are not UTF-8. -/
  | invalidUtf8
  /-- A string or byte string is longer than its length field can say. -/
  | blobTooLarge (length : Nat)
  /-- A reserved slot no longer lies inside the buffer. -/
  | patchOutOfBounds (position : Nat)
deriving DecidableEq, Repr

namespace CodecError

/-- The wording of a fault. -/
def message : CodecError → String
  | truncated needed available => s!"Truncated: needed {needed} bytes, {available} available"
  | unknownTag byte => s!"Unknown tag byte: {Text.Hex.literal 2 byte.toNat}"
  | unexpectedTag expected found => s!"Unexpected tag: expected {expected.name}, found {found.name}"
  | invalidUtf8 => "InvalidUtf8"
  | blobTooLarge length => s!"BlobTooLarge({length})"
  | patchOutOfBounds position => s!"PatchOutOfBounds({position})"

end CodecError

end TraceRelay
