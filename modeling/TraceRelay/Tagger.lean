import TraceRelay.Token

/-!
# Giving out tokens

The observed process numbers its objects and its classes from one on. The two counters keep
running after the last number that fits a token has been given out.

## Main definitions

* `Tagger` : the next numbers.
* `Tagger.tagObject`, `Tagger.tagClass` : the token of a new object, and of a new class.
* `Tagger.objectsTagged` : how many object ids were given out.
-/

namespace TraceRelay

/-- Why no token could be given out. -/
inductive TaggerError where
  | objectIdsExhausted
  | classIdsExhausted
deriving DecidableEq, Repr

/-- The wording of a cause. -/
def TaggerError.message : TaggerError → String
  | objectIdsExhausted => "object id space exhausted"
  | classIdsExhausted => "class id space exhausted"

/-- The next numbers. -/
structure Tagger where
  nextObject : UInt64 := 1
  nextClass : UInt32 := 1
deriving DecidableEq, Repr, Inhabited

namespace Tagger

/-- Takes the next object id. The counter moves on whether or not the id fits a token. -/
@[inline] def takeObjectId : EStateM TaggerError Tagger ObjectId := fun t =>
  let id := t.nextObject
  let t := { t with nextObject := id + 1 }
  if id > Token.maxObjectId then .error .objectIdsExhausted t else .ok id t

/-- Takes the next class id. The counter moves on whether or not the id fits a token. -/
@[inline] def takeClassId : EStateM TaggerError Tagger UInt32 := fun t =>
  let id := t.nextClass
  let t := { t with nextClass := id + 1 }
  if id > Token.maxClassId then .error .classIdsExhausted t else .ok id t

/-- The token of a new object of a class. -/
@[inline] def tagObject (ofClass : Token) : EStateM TaggerError Tagger Token := do
  let id ← takeObjectId
  return .ofFields id ofClass.classId false

/-- The token of a new class. Its object id is taken even if no class id is left. -/
@[inline] def tagClass : EStateM TaggerError Tagger Token := do
  let objectId ← takeObjectId
  let classId ← takeClassId
  return .ofFields objectId classId true

/-- How many object ids were given out. -/
def objectsTagged (t : Tagger) : UInt64 := min (t.nextObject - 1) Token.maxObjectId

end Tagger

end TraceRelay
