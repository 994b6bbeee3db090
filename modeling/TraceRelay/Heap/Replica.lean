import TraceRelay.Message.Basic

/-!
# Replicas

The receiving side stands in for each object of the observed process with a replica. It
holds what was told about the object and nothing else.

## Main definitions

* `Handle` : where a replica lives, and in which generation of that place.
* `ObjectInfo` : data that describes an object.
* `Replica` : what is known of an object.
-/

namespace TraceRelay

/-- The place of a replica. A place is used again in a later generation. -/
structure Handle where
  index : UInt32
  generation : UInt32
deriving DecidableEq, Repr, Inhabited

namespace Handle

/-- The handle of all objects that have no place. -/
def detached : Handle := ⟨0xFFFFFFFF, 0xFFFFFFFF⟩

/-- A handle as it is written in messages. -/
def text (h : Handle) : String := s!"#{h.index.toNat}v{h.generation.toNat}"

end Handle

/-- Data that describes an object. -/
inductive ObjectInfo where
  | text (value : String)
  | ofClass (info : ClassInfo)
  | ofThread (info : ThreadInfo)
deriving DecidableEq, Inhabited

/-- What is known of an object of the observed process. -/
structure Replica where
  handle : Handle
  id : ObjectId
  /-- The last token that named the object. -/
  token : Token
  /-- When the object was last named, on the clock of the heap. -/
  lastSeen : UInt64
  info : Option ObjectInfo := none
deriving DecidableEq, Inhabited

namespace Replica

/-- An object that is named for the first time. -/
def first (handle : Handle) (t : Token) (seen : UInt64) : Replica :=
  { handle, id := t.objectId, token := t, lastSeen := seen }

/-- Whether the object was named after it had been reported as gone. -/
def isDetached (o : Replica) : Bool := o.handle == Handle.detached

/-- The text of a string object whose text was sent. -/
def text? (o : Replica) : Option String :=
  match o.info with
  | some (.text value) => some value
  | _ => none

/-- Notes that the object was named again. -/
def touch (t : Token) (seen : UInt64) (o : Replica) : Replica :=
  { o with token := t, lastSeen := max o.lastSeen seen }

/-- An object as it is written in messages. -/
def label (o : Replica) : String :=
  if o.isDetached then s!"{o.id.text} (detached)" else s!"{o.id.text} {o.handle.text}"

end Replica

end TraceRelay
