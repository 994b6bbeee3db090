/-!
# Value tags

Every value of a record starts with a byte that says of what type it is.

## Main definitions

* `Tag` : the types of written values.
* `Tag.byteOf`, `Tag.ofByte?` : a tag as a byte, and back.
* `Tag.width` : how many bytes follow, if the tag alone decides it.

## Main results

* `Tag.ofByte?_eq_some_iff` : a byte is a tag exactly when it is the byte of that tag.
-/

namespace TraceRelay

/-- The type of a written value. The two truth values have a tag each. -/
inductive Tag where
  | boolTrue
  | boolFalse
  | byte
  | char
  | short
  | int
  | long
  | float
  | double
  | string
  | bytes
  | object
  | objectData
deriving DecidableEq, Repr

namespace Tag

/-- The byte that stands for a tag. -/
def byteOf : Tag → UInt8
  | boolTrue => 0x01
  | boolFalse => 0x02
  | byte => 0x03
  | char => 0x04
  | short => 0x05
  | int => 0x06
  | long => 0x07
  | float => 0x08
  | double => 0x09
  | string => 0x10
  | bytes => 0x11
  | object => 0x20
  | objectData => 0x21

/-- The tag that a byte stands for, if it stands for one. -/
def ofByte? (b : UInt8) : Option Tag :=
  match b.toNat with
  | 0x01 => some boolTrue
  | 0x02 => some boolFalse
  | 0x03 => some byte
  | 0x04 => some char
  | 0x05 => some short
  | 0x06 => some int
  | 0x07 => some long
  | 0x08 => some float
  | 0x09 => some double
  | 0x10 => some string
  | 0x11 => some bytes
  | 0x20 => some object
  | 0x21 => some objectData
  | _ => none

theorem ofByte?_byteOf (t : Tag) : ofByte? t.byteOf = some t := by cases t <;> rfl

theorem ofByte?_eq_some_iff {b : UInt8} {t : Tag} : ofByte? b = some t ↔ b = t.byteOf := by
  constructor
  · intro h
    unfold ofByte? at h
    apply UInt8.toNat_inj.1
    split at h <;> simp_all <;> subst h <;> simp_all [byteOf]
  · rintro rfl
    exact ofByte?_byteOf t

/-- How many bytes follow the tag, or nothing if a length is written after it. -/
def width : Tag → Option Nat
  | boolTrue | boolFalse => some 0
  | byte => some 1
  | char | short => some 2
  | int | float => some 4
  | long | double | object | objectData => some 8
  | string | bytes => none

/-- The name of a tag in messages. -/
def name : Tag → String
  | boolTrue => "BoolTrue"
  | boolFalse => "BoolFalse"
  | byte => "Byte"
  | char => "Char"
  | short => "Short"
  | int => "Int"
  | long => "Long"
  | float => "Float"
  | double => "Double"
  | string => "String"
  | bytes => "Bytes"
  | object => "Object"
  | objectData => "ObjectData"

end Tag

end TraceRelay
