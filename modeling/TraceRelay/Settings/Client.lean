import TraceRelay.Settings.Error

/-!
# Settings of the sending side

## Main definitions

* `ClientSettings` : when batches are sent, and how long the end may take.
* `ClientSettings.validate` : refuses limits under which nothing could be sent.
-/

namespace TraceRelay

/-- When batches are sent, and how long the end may take. -/
structure ClientSettings where
  /-- A batch is sent when it has this many records. -/
  batchRecords : UInt32 := 16384
  /-- A batch is sent when its frame has this many bytes. -/
  batchBytes : Nat := 1024 * 1024
  /-- The most tokens in one frame of frees. -/
  freeBatch : UInt32 := 4096
  /-- How many frames may wait for the transport. -/
  queueDepth : Nat := 32
  /-- How long the end of a session may take. -/
  drainMillis : Nat := 5000
deriving DecidableEq, Repr, Inhabited

/-- Refuses the first limit that is zero. -/
def ClientSettings.validate (s : ClientSettings) : Except SettingsError Unit :=
  if s.batchRecords = 0 then .error (.zeroLimit "batch_records")
  else if s.batchBytes = 0 then .error (.zeroLimit "batch_bytes")
  else if s.freeBatch = 0 then .error (.zeroLimit "free_batch")
  else if s.queueDepth = 0 then .error (.zeroLimit "queue_depth")
  else .ok ()

end TraceRelay
