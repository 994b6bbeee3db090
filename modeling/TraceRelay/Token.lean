import TraceRelay.Text.Hex

/-!
# Object tokens

A token is a 64-bit word that names an object of the observed process without showing its
address. From the lowest bit it holds forty bits of object id, twenty-two bits of class id, one bit
that says whether the object is itself a class, and one bit that is set once data that describes
the object has been sent.

## Main definitions

* `Token.ofFields` : the token of an object id, a class id and the class bit.
* `Token.objectId`, `Token.classId`, `Token.isClass`, `Token.hasData` : the four fields.
* `Token.withData` : the renewed token, its data bit set.
-/

namespace TraceRelay

/-- The identity that an object is given when it is allocated. -/
abbrev ObjectId := UInt64

/-- An object id as it is written in messages. -/
def ObjectId.text (id : ObjectId) : String := s!"obj-{id.toNat}"

/-- A word that names an object of the observed process. -/
structure Token where
  /-- All sixty-four bits. -/
  word : UInt64
deriving DecidableEq, Repr, Inhabited

namespace Token

/-- The token that names no object. -/
def null : Token := ⟨0⟩

/-- The largest object id that a token can hold. -/
def maxObjectId : UInt64 := 0xFFFFFFFFFF

/-- The largest class id that a token can hold. -/
def maxClassId : UInt32 := 0x3FFFFF

/-- Folds the fields into a word. Bits that do not fit a field are left out. -/
def ofFields (objectId : ObjectId) (classId : UInt32) (isClass : Bool) : Token :=
  ⟨(objectId &&& maxObjectId) ||| ((classId &&& maxClassId).toUInt64 <<< 40) |||
    (isClass.toUInt64 <<< 62)⟩

/-- A token is null if no bit is set. A word with object id zero need not be null. -/
def isNull (t : Token) : Bool := t.word == 0

/-- The low forty bits. -/
def objectId (t : Token) : ObjectId := t.word &&& maxObjectId

/-- The twenty-two bits above the object id. -/
def classId (t : Token) : UInt32 := (t.word >>> 40).toUInt32 &&& maxClassId

/-- Whether the object is itself a class. -/
def isClass (t : Token) : Bool := (t.word >>> 62) &&& 1 == 1

/-- Whether data that describes the object has been sent. -/
def hasData (t : Token) : Bool := (t.word >>> 63) &&& 1 == 1

/-- The renewed token, its data bit set. -/
def withData (t : Token) : Token := ⟨t.word ||| ((1 : UInt64) <<< 63)⟩

/-- All sixteen hexadecimal digits of the word. -/
def text (t : Token) : String := Text.Hex.literal 16 t.word.toNat

end Token

end TraceRelay
