import TraceRelay.FrameStream
import TraceRelay.Session.Host
import TraceRelay.Transport.Error

/-!
# Sessions

The receiving side of a session takes chunks from a transport, puts frames together and acts on
each message in turn. A frame has no effect before all of it has arrived. The session ends with a
message that closes it, or at the end of the stream; a transport that fails counts as the end of the
stream.

## Main definitions

* `Summary` : what was counted.
* `Session` : a session under way.
* `Session.handle` : the effect of a message.
* `Session.run` : a whole session.
-/

namespace TraceRelay

/-- What was counted in a session. The counts have no bound. Counters of 64 bits would show the same
until one of them reaches `2 ^ 64`. -/
structure Summary where
  /-- Records that were given to analyses. -/
  events : Nat := 0
  /-- Objects of which the analyses were told that they went. -/
  frees : Nat := 0
  registrations : Nat := 0
  threadEnds : Nat := 0
  /-- Bytes of the frames that were acted on. -/
  bytes : Nat := 0
  /-- Whether a message closed the session. -/
  closedCleanly : Bool := false
deriving DecidableEq, Repr, Inhabited

/-- A session under way. -/
structure Session (σ : Type) where
  host : Host σ
  stream : FrameStream
  summary : Summary := {}

namespace Session

variable {σ : Type}

/-- A session before its first byte. -/
def start (registry : Registry σ) (state : σ) (maxFrame maxFreed : Nat) : Session σ :=
  { host := .start registry state maxFreed, stream := { maxFrame } }

/-- A step of the host as a step of the session. -/
def onHost {α : Type} (step : EStateM SessionError (Host σ) α) :
    EStateM SessionError (Session σ) α := fun ⟨host, stream, summary⟩ =>
  match step host with
  | .ok a host => .ok a ⟨host, stream, summary⟩
  | .error e host => .error e ⟨host, stream, summary⟩

/-- Changes what was counted. -/
def tally (f : Summary → Summary) : EStateM SessionError (Session σ) Unit :=
  modify fun s => { s with summary := f s.summary }

/-- Delivers records in order, until one is refused. -/
def deliverAll (ordering : UInt64) : List Record → EStateM SessionError (Session σ) Unit
  | [] => return
  | r :: rs => do
    onHost (Host.deliver ordering r)
    tally fun n => { n with events := n.events + 1 }
    deliverAll ordering rs

/-- The effect of a message. Tells whether the message closes the session. -/
def handle : Message → EStateM SessionError (Session σ) Bool
  | .close => return true
  | .analyze ordering records => do
    deliverAll ordering records
    return false
  | .objectFree tokens => do
    modify fun s => { s with host := tokens.foldl (fun host t => (host.notifyFree t).2) s.host }
    return false
  | .registerMethod id name => do
    onHost (Host.bind id name)
    tally fun n => { n with registrations := n.registrations + 1 }
    return false
  | .classInfo info => do
    onHost (Host.attach info.subject (.ofClass info))
    return false
  | .stringInfo subject text => do
    onHost (Host.attach subject (.text text))
    return false
  | .threadInfo info => do
    onHost (Host.attach info.subject (.ofThread info))
    return false
  | .threadEnd _ => do
    tally fun n => { n with threadEnds := n.threadEnds + 1 }
    return false

/-- Acts on frames in order, until one closes the session. Tells whether one did. -/
def handleAll : List Frame → EStateM SessionError (Session σ) Bool
  | [] => return false
  | frame :: frames => do
    tally fun n => { n with bytes := n.bytes + frame.wireSize }
    if ← handle frame.message then
      tally fun n => { n with closedCleanly := true }
      return true
    else handleAll frames

/-- Acts on all frames that have arrived. Tells whether one of them closed the session. A fault of
the stream counts only when the frames before it have been acted on. -/
def handleArrived : EStateM SessionError (Session σ) Bool := do
  let (frames, fault, stream) := (← get).stream.drain
  modify ({ · with stream })
  if ← handleAll frames then return true
  match fault with
  | some e => throw (.wire e)
  | none => return false

/-- Takes what a transport delivers, until the session is closed or there is no more. -/
def receive : List (Except TransportError Bytes) → EStateM SessionError (Session σ) Unit
  | .ok chunk :: rest => do
    if ← handleArrived then return
    modify fun s => { s with stream := s.stream.push chunk }
    receive rest
  | _ => do
    if ← handleArrived then return
    match (← get).stream.finish with
    | .ok _ => return
    | .error e => throw (.wire e)

/-- Runs a session to its end. The analyses are told of the end only if nothing failed. -/
def run (s : Session σ) (arrivals : List (Except TransportError Bytes)) :
    Except SessionError Summary × Session σ :=
  match receive arrivals s with
  | .error e s => (.error e, s)
  | .ok _ s =>
    let host := s.host.notifyExit.2
    let s := { s with host, summary := { s.summary with frees := host.frees } }
    (.ok s.summary, s)

end Session

end TraceRelay
