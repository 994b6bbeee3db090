import TraceRelay.FrameStream
import TraceRelay.Settings.Error

/-!
# Settings of the receiving side

## Main definitions

* `ServerSettings` : where to listen, and the limits of a session.
* `ServerSettings.validate` : refuses limits under which nothing could be received.
-/

namespace TraceRelay

/-- How many freed ids are remembered unless another limit is set. -/
def defaultMaxTombstones : Nat := 65536

/-- How many bytes are read at once unless another size is set. -/
def defaultReadChunk : Nat := 65536

/-- Where to listen, and the limits of a session. -/
structure ServerSettings where
  /-- The address to listen on. -/
  listen : String := "127.0.0.1:11218"
  /-- The largest body of a frame. -/
  maxFrame : Nat := FrameStream.defaultMaxFrame
  /-- How many bytes are read at once. -/
  readChunk : Nat := defaultReadChunk
  /-- How many freed ids are remembered. With zero a freed id is forgotten at once. -/
  maxTombstones : Nat := defaultMaxTombstones
deriving DecidableEq, Repr, Inhabited

/-- Refuses the first limit that is zero. -/
def ServerSettings.validate (s : ServerSettings) : Except SettingsError Unit :=
  if s.maxFrame = 0 then .error (.zeroLimit "max_frame")
  else if s.readChunk = 0 then .error (.zeroLimit "read_chunk")
  else .ok ()

end TraceRelay
