import TraceRelay.Bytes
import TraceRelay.Fifo
import TraceRelay.Transport.Error

/-!
# In-memory pipes

A pipe has two ends. What is sent at one end arrives at the other, chunk by chunk. Each end can be
closed, after which it sends no more but still receives, or dropped altogether.

## Main definitions

* `Pipe` : the state of both ends.
* `Pipe.send`, `Pipe.recv` : one chunk in at an end, and one out.
* `Pipe.close`, `Pipe.drop` : an end that sends no more, and one that is gone.
-/

namespace TraceRelay

/-- One of the two ends of a pipe. -/
inductive Side where
  | left
  | right
deriving DecidableEq, Repr

/-- The other end. -/
def Side.other : Side → Side
  | left => right
  | right => left

/-- The state of one end. -/
structure PipeEnd where
  /-- Chunks that have arrived and wait to be received. -/
  inbox : Fifo Bytes := .empty
  /-- Whether the end can still send. -/
  sending : Bool := true
  /-- Whether the end still exists. -/
  alive : Bool := true
  /-- How many bytes were sent. The number has no bound. A counter of 64 bits would show the same
  below `2 ^ 64`. -/
  sent : Nat := 0

/-- The state of both ends. -/
structure Pipe where
  left : PipeEnd := {}
  right : PipeEnd := {}

/-- What an attempt to receive gives. -/
inductive Received where
  | chunk (bs : Bytes)
  /-- No more chunks will come. -/
  | ended
  /-- No chunk is there yet. -/
  | pending
deriving DecidableEq, Repr

namespace Pipe

/-- The state of an end. -/
def endAt (p : Pipe) : Side → PipeEnd
  | .left => p.left
  | .right => p.right

/-- Replaces the state of an end. -/
def setEnd (p : Pipe) (side : Side) (e : PipeEnd) : Pipe :=
  match side with
  | .left => { p with left := e }
  | .right => { p with right := e }

/-- Sends a chunk, unless this end was closed or the other one is gone. -/
def send (side : Side) (chunk : Bytes) : EStateM TransportError Pipe Unit := fun p =>
  let own := p.endAt side
  let peer := p.endAt side.other
  if !own.sending then .error .closed p
  else if !peer.alive then .error (.connectionLost "peer dropped") p
  else
    let p := p.setEnd side { own with sent := own.sent + chunk.length }
    .ok () (p.setEnd side.other { peer with inbox := peer.inbox.push chunk })

/-- Receives the oldest chunk. When there is none, the other end decides whether one can come. -/
def recv (side : Side) (p : Pipe) : Received × Pipe :=
  let own := p.endAt side
  match own.inbox.pop? with
  | some (chunk, inbox) => (.chunk chunk, p.setEnd side { own with inbox })
  | none => (if (p.endAt side.other).sending then .pending else .ended, p)

/-- Ends the sending of an end. -/
def close (side : Side) (p : Pipe) : Pipe :=
  p.setEnd side { p.endAt side with sending := false }

/-- Removes an end. What had arrived at it is lost. -/
def drop (side : Side) (p : Pipe) : Pipe :=
  p.setEnd side { p.endAt side with inbox := .empty, sending := false, alive := false }

end Pipe

end TraceRelay
