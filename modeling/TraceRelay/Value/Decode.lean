import TraceRelay.Cursor
import TraceRelay.Value.Basic

/-!
# Reading values

Each form of value has a reader of its own, which leaves the input alone if the tag is another
one. `Value.read` reads whatever comes next.

## Main definitions

* `Read.bool`, `Read.byte`, … : the value of one form.
* `Value.read` : the next value.
-/

namespace TraceRelay

namespace Read

/-- A truth value. -/
def bool : Read CodecError Bool := do
  match ← peekTag with
  | .boolTrue =>
    let _ ← take 1
    return true
  | .boolFalse =>
    let _ ← take 1
    return false
  | found => throw (.unexpectedTag .boolTrue found)

/-- A signed integer of one byte. -/
def byte : Read CodecError Int8 := do
  expect .byte
  return (← uint8).toInt8

/-- A UTF-16 code unit. -/
def char : Read CodecError UInt16 := do
  expect .char
  uint16

/-- A signed integer of two bytes. -/
def short : Read CodecError Int16 := do
  expect .short
  return (← uint16).toInt16

/-- A signed integer of four bytes. -/
def int : Read CodecError Int32 := do
  expect .int
  return (← uint32).toInt32

/-- A signed integer of eight bytes. -/
def long : Read CodecError Int64 := do
  expect .long
  return (← uint64).toInt64

/-- The bits of a single-precision number. -/
def float : Read CodecError UInt32 := do
  expect .float
  uint32

/-- The bits of a double-precision number. -/
def double : Read CodecError UInt64 := do
  expect .double
  uint64

/-- A string. One whose bytes are not UTF-8 is taken from the input before it is refused. -/
def text : Read CodecError String := do
  expect .string
  match Bytes.text? (← blob) with
  | some s => return s
  | none => throw .invalidUtf8

/-- A byte string. -/
def bytes : Read CodecError Bytes := do
  expect .bytes
  blob

/-- An object, with or without describing data. -/
def object : Read CodecError Token := do
  match ← peekTag with
  | .object | .objectData =>
    let _ ← take 1
    return ⟨← uint64⟩
  | found => throw (.unexpectedTag .object found)

end Read

/-- The next value, whatever its form. -/
def Value.read : Read CodecError Value := do
  match ← Read.peekTag with
  | .boolTrue | .boolFalse => return .bool (← Read.bool)
  | .byte => return .byte (← Read.byte)
  | .char => return .char (← Read.char)
  | .short => return .short (← Read.short)
  | .int => return .int (← Read.int)
  | .long => return .long (← Read.long)
  | .float => return .float (← Read.float)
  | .double => return .double (← Read.double)
  | .string => return .text (← Read.text)
  | .bytes => return .bytes (← Read.bytes)
  | .object => return .object (← Read.object)
  | .objectData => return .objectWithData (← Read.object)

end TraceRelay
