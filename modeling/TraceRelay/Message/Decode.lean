import TraceRelay.Message.Basic
import TraceRelay.Record.Decode

/-!
# Reading messages

The body of a frame is read as its kind demands, and all of it has to be used up.

## Main definitions

* `Message.readBody` : the message at the front of a byte string.
* `Message.decode` : the message that a body is.
-/

namespace TraceRelay

/-- A token without a tag. -/
def Token.read : Read WireError Token := return ⟨← Read.ofValues Read.uint64⟩

namespace Message

/-- The message of the given kind at the front of a byte string. -/
def readBody : MessageKind → Read WireError Message
  | .close => return close
  | .analyze => do
    let ordering ← Read.ofValues Read.uint64
    let count ← Read.ofValues Read.uint32
    return analyze ordering (← Read.times count.toNat Record.read)
  | .objectFree => do
    let count ← Read.ofValues Read.uint32
    return objectFree (← Read.times count.toNat Token.read)
  | .registerMethod => do
    let id ← Read.ofValues Read.uint16
    return registerMethod id (← Read.ofValues Read.text)
  | .classInfo => do
    let subject ← Token.read
    let signature ← Read.ofValues Read.text
    let generic ← Read.ofValues Read.text
    let loader ← Token.read
    let parent ← Token.read
    return classInfo { subject, signature, generic, loader, parent }
  | .stringInfo => do
    let subject ← Token.read
    return stringInfo subject (← Read.ofValues Read.text)
  | .threadInfo => do
    let subject ← Token.read
    let name ← Read.ofValues Read.text
    let daemon ← Read.ofValues Read.bool
    return threadInfo { subject, name, daemon }
  | .threadEnd => return threadEnd (← Read.ofValues Read.uint64)

/-- The message of the given kind that a body is. -/
def decode (kind : MessageKind) (body : Bytes) : Except WireError Message :=
  Read.whole (readBody kind) body

end Message

end TraceRelay
