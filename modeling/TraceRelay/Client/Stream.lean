import TraceRelay.Client.Error
import TraceRelay.Message.Batch
import TraceRelay.Settings.Client

/-!
# Streams of records and of frees

Each thread has a stream of its own for its records, and there are streams that threads share. A
stream holds back its records until they leave together in one frame. Frees are held back likewise.

## Main definitions

* `RecordStream` : the records of one ordering id that are held back.
* `RecordStream.append`, `RecordStream.take` : one more record, and the frame of all of them.
* `FreeStream` : the freed tokens that are held back.
-/

namespace TraceRelay

/-- The records of one ordering id that are held back. -/
structure RecordStream where
  ordering : UInt64
  batch : Option AnalyzeBatch := none
  /-- Whether the stream has ended. -/
  closed : Bool := false
  /-- Whether the thread that the stream belongs to is gone. -/
  orphaned : Bool := false
deriving Inhabited

namespace RecordStream

/-- Adds a finished record, unless the stream has ended. -/
def append (record : RecordBuilder) : EStateM ClientError RecordStream Unit :=
  fun ⟨ordering, batch, closed, orphaned⟩ =>
    if closed then .error .sessionClosed ⟨ordering, batch, closed, orphaned⟩
    else
      match AnalyzeBatch.pushWith record.finish (batch.getD (.start ordering)) with
      | .ok _ batch => .ok () ⟨ordering, some batch, closed, orphaned⟩
      | .error e batch => .error (.wire e) ⟨ordering, some batch, closed, orphaned⟩

/-- Whether the records fill a frame. -/
def isFull (settings : ClientSettings) (s : RecordStream) : Bool :=
  match s.batch with
  | some batch => batch.count ≥ settings.batchRecords || batch.size ≥ settings.batchBytes
  | none => false

/-- The frame of all records, if there are any, and the stream without them. -/
def take (s : RecordStream) : Except WireError (Option Bytes) × RecordStream :=
  let s' := { s with batch := none }
  match s.batch with
  | none => (.ok none, s')
  | some batch => (if batch.isEmpty then .ok none else some <$> batch.finish, s')

end RecordStream

/-- The freed tokens that are held back. -/
structure FreeStream where
  batch : FreeBatch := .empty
  /-- Whether the stream has ended. -/
  closed : Bool := false
deriving Inhabited

namespace FreeStream

/-- Adds a token, unless the stream has ended. -/
def append (t : Token) : EStateM ClientError FreeStream Unit := fun ⟨batch, closed⟩ =>
  if closed then .error .sessionClosed ⟨batch, closed⟩
  else
    match FreeBatch.push t batch with
    | .ok _ batch => .ok () ⟨batch, closed⟩
    | .error e batch => .error (.wire e) ⟨batch, closed⟩

/-- Whether the tokens fill a frame. -/
def isFull (settings : ClientSettings) (s : FreeStream) : Bool :=
  s.batch.count ≥ settings.freeBatch

/-- The frame of all tokens, if there are any, and the stream without them. -/
def take (s : FreeStream) : Except WireError (Option Bytes) × FreeStream :=
  if s.batch.isEmpty then (.ok none, s)
  else (some <$> s.batch.finish, { s with batch := .empty })

end FreeStream

end TraceRelay
