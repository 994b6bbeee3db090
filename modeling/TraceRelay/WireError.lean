import TraceRelay.Value.Error

/-!
# Faults of a byte stream

What can go wrong while records and frames are written or read. After any of these a stream can
not be picked up again.

## Main definitions

* `WireError` : the causes.
* `WireError.ofCodec` : a fault of a single value as a fault of the stream.
* `WireError.message` : their wording.
-/

namespace TraceRelay

/-- Why bytes are no stream of frames, or content can not be made into one. -/
inductive WireError where
  /-- Fewer bytes are left than a width or a length asks for. -/
  | truncated (needed available : Nat)
  /-- The byte is no value tag. -/
  | unknownTag (byte : UInt8)
  /-- The next value is of another type than the one asked for. -/
  | unexpectedTag (expected found : Tag)
  /-- The byte is no kind of frame. -/
  | unknownMessage (byte : UInt8)
  /-- The bytes of a string are not UTF-8. -/
  | invalidUtf8
  /-- A record has more arguments than its one-byte count can say. -/
  | tooManyArgs (count : Nat)
  /-- Bytes are left after the declared content. -/
  | trailingBytes (count : Nat)
  /-- A frame announces a longer body than is accepted. -/
  | frameTooLarge (length max : Nat)
  /-- A count or a length outgrew its four-byte field. -/
  | batchTooLarge
  /-- A value could not be written for a reason that is not listed above. -/
  | serialization (cause : CodecError)
deriving DecidableEq, Repr

namespace WireError

/-- A fault of a single value as a fault of the stream. -/
def ofCodec : CodecError → WireError
  | .truncated needed available => truncated needed available
  | .unknownTag byte => unknownTag byte
  | .unexpectedTag expected found => unexpectedTag expected found
  | .invalidUtf8 => invalidUtf8
  | cause@(.blobTooLarge _) => serialization cause
  | cause@(.patchOutOfBounds _) => serialization cause

/-- The wording of a fault. -/
def message : WireError → String
  | truncated needed available =>
    s!"truncated payload: needed {needed} bytes, {available} available"
  | unknownTag byte => s!"unknown value tag {Text.Hex.literal 2 byte.toNat}"
  | unexpectedTag expected found =>
    s!"unexpected value tag: expected {expected.name}, found {found.name}"
  | unknownMessage byte => s!"unknown message kind {Text.Hex.literal 2 byte.toNat}"
  | invalidUtf8 => "string is not valid utf-8"
  | tooManyArgs count => s!"{count} arguments do not fit in one record (max 255)"
  | trailingBytes count => s!"{count} unexpected trailing bytes"
  | frameTooLarge length max => s!"frame body of {length} bytes exceeds limit of {max}"
  | batchTooLarge => "batch exceeds u32 limits"
  | serialization cause => s!"serialization failed: {cause.message}"

end WireError

end TraceRelay
