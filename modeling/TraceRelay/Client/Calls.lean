import TraceRelay.Client.Basic

/-!
# Calls of the sending side

What the observed process can do: announce methods, send records, tell of objects and threads, and
end the session.

## Main definitions

* `Client.start` : a session before its first call.
* `Client.register` : the number of a method.
* `EventWriter` : a record under way; `Client.beginEvent`, `EventWriter.send`, `Client.finishEvent`.
* `Client.dispatch` : a whole record.
* `Client.objectFreed`, `Client.flush`, `Client.threadEnd` : frees, and what sends things early.
* `Client.runSender` : the sender, between the calls.
* `Client.shutdown`, `Client.abandon` : the end of the session, in order and without notice.
-/

namespace TraceRelay

/-- A record that is being sent. Nothing of it is in a stream before it is finished. -/
structure EventWriter where
  record : RecordBuilder
  /-- The shared stream that the record goes to, or none for the stream of the thread. -/
  ordering : Option UInt8
  /-- Why an argument was refused, if one was. -/
  fault : Option WireError := none

namespace EventWriter

/-- Adds an argument. The first one that is refused decides how the record ends. -/
def send (v : Value) : EventWriter → EventWriter := fun ⟨record, ordering, fault⟩ =>
  match RecordBuilder.push v record with
  | .ok _ record => ⟨record, ordering, fault⟩
  | .error e record => ⟨record, ordering, fault.or (some e)⟩

end EventWriter

namespace Client

/-- A session before its first call. The settings are checked first; then something must be there
that runs the sender. -/
def start (settings : ClientSettings) (canRunSender : Bool) : Except ClientError Client :=
  match settings.validate with
  | .error e => .error (.settings e)
  | .ok _ => if canRunSender then .ok { settings } else .error .noRuntime

/-- The number of a method, which is announced if it is new. -/
def register (name : String) : EStateM ClientError Client MethodId := do
  ensureOpen
  let announce := fun id => enqueueMessage (.registerMethod id name)
  let (id, methods) ← (← get).methods.register .registration announce name
  modify ({ · with methods })
  return id

/-- Begins a record, for a shared stream or for the stream of the thread. -/
def beginEvent (id : MethodId) (ordering : Option UInt8) :
    EStateM ClientError Client EventWriter := do
  ensureOpen
  unless (← get).methods.contains id do
    throw (.unknownMethod id)
  return { record := .start id, ordering }

/-- Adds a record to the stream of a thread. -/
def appendLocal (thread : ThreadId) (record : RecordBuilder) :
    EStateM ClientError Client Unit := do
  appendTo (← obtain thread) record

/-- Adds a record to a shared stream. The records on the stream of the thread are sent first, so
that they are not overtaken. -/
def appendShared (thread : ThreadId) (ordering : UInt8) (record : RecordBuilder) :
    EStateM ClientError Client Unit := do
  if let some ref := (← get).streamOf? thread then
    sealStream ref
  appendTo (.shared ordering) record

/-- Adds a finished record to its stream. If an argument was refused, nothing is added. -/
def finishEvent (thread : ThreadId) (w : EventWriter) : EStateM ClientError Client Unit :=
  match w.fault, w.ordering with
  | some e, _ => throw (.wire e)
  | none, none => appendLocal thread w.record
  | none, some ordering => appendShared thread ordering w.record

/-- Sends a whole record on the stream of the thread. -/
def dispatch (thread : ThreadId) (id : MethodId) (args : List Value) :
    EStateM ClientError Client Unit := do
  let w ← beginEvent id none
  finishEvent thread (args.foldl (fun w v => w.send v) w)

/-- Tells that an object is gone. Frees that fill a frame are sent after all records that are held
back, so that no record arrives after the free of an object that it names. -/
def objectFreed (t : Token) : EStateM ClientError Client Unit := do
  ensureOpen
  onFrees (FreeStream.append t)
  let c ← get
  if c.frees.isFull c.settings then
    sealEvents
    sealFrees

/-- Sends a message that is not held back. -/
def tell (m : Message) : EStateM ClientError Client Unit := do
  ensureOpen
  enqueueMessage m

/-- Sends all records that are held back, and then all frees. -/
def flush : EStateM ClientError Client Unit := do
  ensureOpen
  sealEvents
  sealFrees

/-- Ends the stream of a thread. -/
def threadEnd (thread : ThreadId) : EStateM ClientError Client Unit := do
  ensureOpen
  endStream thread

/-- Runs the sender until it has nothing left to do, and gives the frames that it sends. A failure
closes the session. -/
def runSender (deliver : Nat → Delivery) (c : Client) : List Bytes × Client :=
  let (out, outbox) := c.outbox.pump deliver
  (out, { c with outbox, closed := c.closed || outbox.failure.isSome })

/-- Ends the session: all streams end, what they hold is sent, and the sender runs until nothing
waits any more. The failure of the transport is told before any other. Ending a session again does
nothing. -/
def shutdown (deliver : Nat → Delivery) (c : Client) :
    Except ClientError Unit × List Bytes × Client :=
  if c.ending then (.ok (), [], c)
  else
    let (drained, c) : Except ClientError Unit × Client :=
      match closeAll { c with ending := true, closed := true } with
      | .ok _ c => (.ok (), c)
      | .error e c => (.error e, c)
    let (out, c) := runSender deliver { c with outbox := c.outbox.close }
    match c.outbox.failure with
    | some e => (.error (.transport e), out, c)
    | none =>
      if c.outbox.waiting.isEmpty then (drained, out, c)
      else (.error .drainTimeout, out, { c with outbox := c.outbox.abort })

/-- Gives the session up. Records and frees that are held back are lost; frames that wait are still
sent. -/
def abandon (c : Client) : Client := { c with outbox := c.outbox.close }

end Client

end TraceRelay
