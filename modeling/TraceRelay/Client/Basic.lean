import Std.Data.TreeMap.Basic
import TraceRelay.Client.Outbox
import TraceRelay.Client.Stream
import TraceRelay.Method.Table

/-!
# The sending side

The threads of the observed process share one client. Each step below is one that no other thread
can interrupt; the calls of the client are made of such steps.

## Main definitions

* `Client` : the streams of all threads, the shared streams, the frees and the outbox.
* `StreamRef` : the name of a stream.
* `Client.enqueue` : a finished frame for the outbox.
* `Client.onStream` : a step of one stream as a step of the client.
* `Client.sealStream`, `Client.closeStream`, `Client.appendTo` : the steps on one stream.
* `Client.detach` : the stream of a thread is given up.
* `Client.sealFrees` : the frees that are held back.
-/

namespace TraceRelay

/-- A thread of the observed process. A number is never used for a second thread. -/
abbrev ThreadId := Nat

/-- The name of a stream. -/
inductive StreamRef where
  /-- A stream that threads share. -/
  | shared (ordering : UInt8)
  /-- A stream of one thread, by its position among all of them. -/
  | own (position : Nat)
deriving DecidableEq, Repr

/-- The sending side of a session. -/
structure Client where
  settings : ClientSettings
  /-- Whether calls are refused. -/
  closed : Bool := false
  /-- Whether the session was asked to end. -/
  ending : Bool := false
  methods : MethodTable := {}
  /-- The streams that threads share, by ordering id. -/
  shared : Array RecordStream :=
    (Array.range Message.sharedOrderings).map fun ordering => { ordering := .ofNat ordering }
  /-- All streams that threads ever had, those that have ended included. -/
  own : Array RecordStream := #[]
  /-- The stream that each thread has now. -/
  streamOf : Std.TreeMap ThreadId Nat := ∅
  frees : FreeStream := {}
  outbox : Outbox := {}

namespace Client

/-! ### Frames -/

/-- Refuses calls once the session has been closed. -/
def ensureOpen : EStateM ClientError Client Unit := do
  if (← get).closed then throw .sessionClosed

/-- Puts a finished frame into the outbox. -/
def enqueue (frame : Bytes) : EStateM ClientError Client Unit := fun c =>
  match c.outbox.push frame with
  | some outbox => .ok () { c with outbox }
  | none => .error .sessionClosed c

/-- Puts the frame of a message into the outbox. -/
def enqueueMessage (m : Message) : EStateM ClientError Client Unit :=
  match m.toBytes with
  | .ok frame => enqueue frame
  | .error e => throw (.wire e)

/-- Puts a frame into the outbox if there is one. -/
def enqueueTaken : Except WireError (Option Bytes) → EStateM ClientError Client Unit
  | .ok none => return
  | .ok (some frame) => enqueue frame
  | .error e => throw (.wire e)

/-! ### Steps on one stream -/

/-- A stream. -/
def stream (c : Client) : StreamRef → RecordStream
  | .shared ordering => c.shared[ordering.toNat]?.getD { ordering := ordering.toUInt64 }
  | .own position => c.own[position]?.getD { ordering := 0 }

/-- Replaces a stream. -/
def setStream (ref : StreamRef) (s : RecordStream) (c : Client) : Client :=
  match ref with
  | .shared ordering => { c with shared := c.shared.setIfInBounds ordering.toNat s }
  | .own position => { c with own := c.own.setIfInBounds position s }

/-- Sends the records of a stream. -/
def sealStream (ref : StreamRef) : EStateM ClientError Client Unit := do
  let (frame, s) := ((← get).stream ref).take
  modify (·.setStream ref s)
  enqueueTaken frame

/-- Ends a stream and sends its records. -/
def closeStream (ref : StreamRef) : EStateM ClientError Client Unit := do
  modify fun c => c.setStream ref { c.stream ref with closed := true }
  sealStream ref

/-- A step of a stream as a step of the client. -/
def onStream {α : Type} (ref : StreamRef) (step : EStateM ClientError RecordStream α) :
    EStateM ClientError Client α := fun c =>
  let s := c.stream ref
  -- The place is emptied meanwhile, so that the step owns all of the stream.
  let c := c.setStream ref default
  match step s with
  | .ok a s => .ok a (c.setStream ref s)
  | .error e s => .error e (c.setStream ref s)

/-- Adds a record to a stream, and sends all of its records if they fill a frame. -/
def appendTo (ref : StreamRef) (record : RecordBuilder) : EStateM ClientError Client Unit := do
  onStream ref (RecordStream.append record)
  let c ← get
  if (c.stream ref).isFull c.settings then sealStream ref

/-! ### Streams of threads -/

/-- The stream that a thread has now. -/
def streamOf? (c : Client) (thread : ThreadId) : Option StreamRef :=
  c.streamOf[thread]?.map .own

/-- The stream of a thread, which gets one if it has none. -/
def obtain (thread : ThreadId) : EStateM ClientError Client StreamRef := fun c =>
  match c.streamOf? thread with
  | some ref => .ok ref c
  | none =>
    let position := c.own.size
    let s := { ordering := .ofNat (Message.sharedOrderings + position) }
    .ok (.own position) { c with
      own := c.own.push s
      streamOf := c.streamOf.insert thread position }

/-- Takes the stream of a thread away from it. -/
def detach (thread : ThreadId) : EStateM ClientError Client (Option StreamRef) := fun c =>
  match c.streamOf? thread with
  | some ref => .ok (some ref) { c with streamOf := c.streamOf.erase thread }
  | none => .ok none c

/-- Ends the stream of a thread: its records are sent, and then its end. -/
def endStream (thread : ThreadId) : EStateM ClientError Client Unit := do
  let some ref ← detach thread | return
  closeStream ref
  enqueueMessage (.threadEnd ((← get).stream ref).ordering)

/-- The thread is gone. Its stream stays until the next time that all streams are sent. -/
def threadGone (thread : ThreadId) (c : Client) : Client :=
  match c.streamOf? thread with
  | some ref => c.setStream ref { c.stream ref with orphaned := true }
  | none => c

/-! ### All streams -/

/-- The shared streams. -/
def sharedRefs : List StreamRef := (List.range Message.sharedOrderings).map (.shared <| .ofNat ·)

/-- The streams that threads have now, each with its thread, in the order of the threads. A table
that is visited in another order sends the frames of different threads in another order. -/
def ownRefs (c : Client) : List (ThreadId × StreamRef) :=
  c.streamOf.toList.map fun (thread, position) => (thread, .own position)

/-- Sends the records of a thread, or ends its stream if the thread is gone. -/
def visit (thread : ThreadId) (ref : StreamRef) : EStateM ClientError Client Unit := do
  if ((← get).stream ref).orphaned then endStream thread else sealStream ref

/-- Sends the records of all streams: those of the threads and then the shared ones. -/
def sealEvents : EStateM ClientError Client Unit := do
  (← get).ownRefs.forM fun (thread, ref) => visit thread ref
  sharedRefs.forM sealStream

/-- A step of the frees as a step of the client. -/
def onFrees {α : Type} (step : EStateM ClientError FreeStream α) :
    EStateM ClientError Client α := fun c =>
  let frees := c.frees
  let c := { c with frees := default }
  match step frees with
  | .ok a frees => .ok a { c with frees }
  | .error e frees => .error e { c with frees }

/-- Sends the frees that are held back. -/
def sealFrees : EStateM ClientError Client Unit := do
  let (frame, frees) := (← get).frees.take
  modify ({ · with frees })
  enqueueTaken frame

/-- Ends all streams, sends what they hold, and announces the end of the session. -/
def closeAll : EStateM ClientError Client Unit := do
  (← get).ownRefs.forM fun (_, ref) => closeStream ref
  sharedRefs.forM closeStream
  modify fun c => { c with frees := { c.frees with closed := true } }
  sealFrees
  enqueueMessage .close

end Client

end TraceRelay
