import TraceRelay.Bytes
import TraceRelay.Fifo
import TraceRelay.Transport.Error

/-!
# The outbox

Finished frames wait in the outbox for the sender, which hands them to the transport one by one and
in order. A transport that fails ends the sending: what still waits is lost, and nothing more is
accepted.

## Main definitions

* `Outbox` : the waiting frames.
* `Delivery` : what becomes of a frame that is handed to the transport.
* `Outbox.pump` : the sender, run until it has nothing left to do.
-/

namespace TraceRelay

/-- What becomes of a frame that is handed to the transport. -/
inductive Delivery where
  | sent
  | failed (cause : TransportError)
  /-- The transport never answers. -/
  | stalled
deriving DecidableEq, Repr

/-- The frames on their way to the transport. Any number of them may wait: a queue that is full only
makes the calling thread wait, and which frames are sent does not depend on when. -/
structure Outbox where
  /-- The frames that wait. -/
  waiting : Fifo Bytes := .empty
  /-- Whether more frames are accepted. -/
  accepting : Bool := true
  /-- How many frames were sent. Nothing but the choice of what becomes of the next one reads it. -/
  sentCount : Nat := 0
  /-- The failure that ended the sending. -/
  failure : Option TransportError := none
  /-- Whether the sender was stopped before it was done. -/
  aborted : Bool := false

namespace Outbox

/-- Adds a frame. Tells whether it was accepted. -/
def push (o : Outbox) (frame : Bytes) : Option Outbox :=
  if o.accepting then some { o with waiting := o.waiting.push frame } else none

/-- Accepts no more frames. Those that wait are still sent. -/
def close (o : Outbox) : Outbox := { o with accepting := false }

/-- Stops the sender. Frames that wait are lost. -/
def abort (o : Outbox) : Outbox := { o with waiting := .empty, accepting := false, aborted := true }

/-- Whether the sender came to its end, so that it closed the transport. -/
def isDone (o : Outbox) : Bool :=
  !o.accepting && o.waiting.isEmpty && o.failure.isNone && !o.aborted

/-- Hands frames to the transport, of which a number was sent before: the frames that are sent,
those that still wait, and the failure. -/
def sendAll (deliver : Nat → Delivery) (sent : Nat) :
    List Bytes → List Bytes × List Bytes × Option TransportError
  | [] => ([], [], none)
  | frame :: frames =>
    match deliver sent with
    | .sent =>
      let (out, left, failure) := sendAll deliver (sent + 1) frames
      (frame :: out, left, failure)
    | .failed cause => ([], [], some cause)
    | .stalled => ([], frame :: frames, none)

/-- Runs the sender until it has nothing left to do: the frames that it sends, and the outbox
afterwards. `deliver n` is what becomes of a frame before which `n` frames were sent. -/
def pump (deliver : Nat → Delivery) (o : Outbox) : List Bytes × Outbox :=
  let (out, left, failure) := sendAll deliver o.sentCount o.waiting.toList
  let o := { o with waiting := .ofList left, sentCount := o.sentCount + out.length }
  match failure with
  | some cause => (out, { o with accepting := false, failure := o.failure.or (some cause) })
  | none => (out, o)

end Outbox

end TraceRelay
