import TraceRelay.Record.Basic
import TraceRelay.WireError

/-!
# Messages

A stream is a sequence of messages, each in a frame of its own. The first byte of a frame says of
which kind its message is.

## Main definitions

* `MessageKind`, `MessageKind.byteOf`, `MessageKind.ofByte` : the kinds, the byte of each, and back.
* `ClassInfo`, `ThreadInfo` : what is told about a class or a thread.
* `Message` : a message.

## Main results

* `MessageKind.ofByte_eq_ok_iff` : a byte is a kind exactly when it is the byte of that kind.
-/

namespace TraceRelay

/-- The kinds of messages. -/
inductive MessageKind where
  | close
  | analyze
  | objectFree
  | registerMethod
  | classInfo
  | stringInfo
  | threadInfo
  | threadEnd
deriving DecidableEq, Repr

namespace MessageKind

/-- The byte of a kind. -/
def byteOf : MessageKind → UInt8
  | close => 0
  | analyze => 1
  | objectFree => 2
  | registerMethod => 3
  | classInfo => 4
  | stringInfo => 5
  | threadInfo => 6
  | threadEnd => 7

/-- The kind of a byte. -/
def ofByte (b : UInt8) : Except WireError MessageKind :=
  match b.toNat with
  | 0 => .ok close
  | 1 => .ok analyze
  | 2 => .ok objectFree
  | 3 => .ok registerMethod
  | 4 => .ok classInfo
  | 5 => .ok stringInfo
  | 6 => .ok threadInfo
  | 7 => .ok threadEnd
  | _ => .error (.unknownMessage b)

theorem ofByte_byteOf (k : MessageKind) : ofByte k.byteOf = .ok k := by cases k <;> rfl

theorem ofByte_eq_ok_iff {b : UInt8} {k : MessageKind} : ofByte b = .ok k ↔ b = k.byteOf := by
  constructor
  · intro h
    unfold ofByte at h
    apply UInt8.toNat_inj.1
    split at h <;> simp_all <;> subst h <;> simp_all [byteOf]
  · rintro rfl
    exact ofByte_byteOf k

/-- The name of a kind. -/
def name : MessageKind → String
  | close => "Close"
  | analyze => "Analyze"
  | objectFree => "ObjectFree"
  | registerMethod => "RegisterMethod"
  | classInfo => "ClassInfo"
  | stringInfo => "StringInfo"
  | threadInfo => "ThreadInfo"
  | threadEnd => "ThreadEnd"

end MessageKind

/-- The description of a class. -/
structure ClassInfo where
  /-- The class itself. -/
  subject : Token
  signature : String
  generic : String
  /-- The loader that defined the class. -/
  loader : Token
  /-- The class that it extends. -/
  parent : Token
deriving DecidableEq, Inhabited

/-- The description of a thread. -/
structure ThreadInfo where
  /-- The thread itself. -/
  subject : Token
  name : String
  daemon : Bool
deriving DecidableEq, Inhabited

/-- A message. -/
inductive Message where
  /-- The session ends here. -/
  | close
  /-- Records that share an ordering id, in the order in which they were made. -/
  | analyze (ordering : UInt64) (records : List Record)
  /-- Objects that are gone from the observed process. -/
  | objectFree (tokens : List Token)
  /-- From now on the id stands for the named method. -/
  | registerMethod (id : MethodId) (name : String)
  | classInfo (info : ClassInfo)
  /-- The text of a string object. -/
  | stringInfo (subject : Token) (text : String)
  | threadInfo (info : ThreadInfo)
  /-- No more records come under the ordering id. -/
  | threadEnd (ordering : UInt64)
deriving DecidableEq, Inhabited

namespace Message

/-- The kind of a message. -/
def kind : Message → MessageKind
  | close => .close
  | analyze .. => .analyze
  | objectFree _ => .objectFree
  | registerMethod .. => .registerMethod
  | classInfo _ => .classInfo
  | stringInfo .. => .stringInfo
  | threadInfo _ => .threadInfo
  | threadEnd _ => .threadEnd

/-- The number of bytes in front of the body of a frame: the kind and the length. -/
def headSize : Nat := 5

/-- Ordering ids below this one belong to the streams that threads share. -/
def sharedOrderings : Nat := 256

end Message

end TraceRelay
