import TraceRelay.Message.Decode

/-!
# Frames out of a stream

A transport delivers bytes in chunks that say nothing about frames. A frame stream collects them and
gives out whole frames in order. The kind and the length of a frame are checked as soon as they have
arrived.

## Main definitions

* `FrameStream` : the bytes received, of which the first ones have been given out already.
* `FrameStream.pending` : the bytes that were not given out yet.
* `FrameStream.push` : one more chunk.
* `FrameStream.next` : the next whole frame, if it has arrived.
* `FrameStream.drain` : all whole frames that have arrived.
* `FrameStream.finish` : the end of the stream, which must not fall inside a frame.

## Main results

* `FrameStream.pending_push` : a chunk is added to the pending bytes, whatever room is made for it.
* `FrameStream.drain_eq` : all frames are the next one and then all others.
-/

namespace TraceRelay

/-- A frame that was received: its message, and its size in the stream. -/
structure Frame where
  message : Message
  wireSize : Nat
deriving DecidableEq, Inhabited

/-- The bytes received so far. -/
structure FrameStream where
  /-- The largest body that is accepted. -/
  maxFrame : Nat
  /-- Received bytes. -/
  buffer : Array UInt8 := #[]
  /-- How many of them have been given out as parts of frames. -/
  start : Nat := 0
deriving Inhabited

namespace FrameStream

/-- The largest body that is accepted unless another limit is set. -/
def defaultMaxFrame : Nat := 64 * 1024 * 1024

/-- The bytes that were not given out yet. -/
def pending (s : FrameStream) : Bytes := s.buffer.toList.drop s.start

/-- The number of bytes that were not given out yet. -/
def pendingSize (s : FrameStream) : Nat := s.buffer.size - s.start

/-- Adds a chunk. Bytes that were given out are dropped first if they are half of the buffer or
more. -/
def push (s : FrameStream) (chunk : Bytes) : FrameStream :=
  if s.start > 0 ∧ s.start ≥ s.buffer.size / 2 then
    { s with buffer := s.buffer.extract s.start s.buffer.size ++ chunk, start := 0 }
  else
    { s with buffer := s.buffer ++ chunk }

/-- The kind and the length of the body at the front of the pending bytes. There is none until all
five bytes are there, but the kind is checked at once. -/
def head (s : FrameStream) : Except WireError (Option (MessageKind × Nat)) :=
  match s.buffer[s.start]? with
  | none => .ok none
  | some b => do
    let kind ← MessageKind.ofByte b
    let lengthField := (s.buffer.extract (s.start + 1) (s.start + Message.headSize)).toList
    if lengthField.length < 4 then return none
    let length := Bytes.value lengthField
    if length > s.maxFrame then throw (.frameTooLarge length s.maxFrame)
    return some (kind, length)

/-- The next frame, or nothing until all of its bytes are there. Neither nothing nor a fault changes
the stream. -/
def next : EStateM WireError FrameStream (Option Frame) := fun s =>
  match s.head with
  | .error e => .error e s
  | .ok none => .ok none s
  | .ok (some (kind, length)) =>
    let size := Message.headSize + length
    if s.pendingSize < size then .ok none s
    else
      let body := (s.buffer.extract (s.start + Message.headSize) (s.start + size)).toList
      match Message.decode kind body with
      | .error e => .error e s
      | .ok message => .ok (some ⟨message, size⟩) { s with start := s.start + size }

/-- Accepts the end of the stream unless a part of a frame is pending. -/
def finish (s : FrameStream) : Except WireError Unit :=
  if s.pendingSize = 0 then .ok ()
  else
    match s.head with
    | .error e => .error e
    | .ok none => .error (.truncated Message.headSize s.pendingSize)
    | .ok (some (_, length)) => .error (.truncated (Message.headSize + length) s.pendingSize)

/-- Takes frames until there is none or a fault, at most as many as there is fuel. -/
private def drainWith : (fuel : Nat) → FrameStream → List Frame × Option WireError × FrameStream
  | 0, s => ([], none, s)
  | fuel + 1, s =>
    match s.next with
    | .ok none s => ([], none, s)
    | .error e s => ([], some e, s)
    | .ok (some frame) s =>
      let (frames, fault, s) := drainWith fuel s
      (frame :: frames, fault, s)

/-- All whole frames that have arrived, the fault that ends them if there is one, and the stream
without them. -/
def drain (s : FrameStream) : List Frame × Option WireError × FrameStream :=
  drainWith (s.pendingSize + 1) s

/-! ### Laws -/

theorem pending_push (s : FrameStream) (chunk : Bytes) (h : s.start ≤ s.buffer.size) :
    (s.push chunk).pending = s.pending ++ chunk := by
  unfold push pending
  split
  · simp only [Array.toList_appendList, Array.toList_extract, List.extract_eq_take_drop,
      List.drop_zero]
    rw [List.take_of_length_le (by simp)]
  · simp only [Array.toList_appendList]
    rw [List.drop_append_of_le_length (by simpa using h)]

theorem pendingSize_lt_of_next {s t : FrameStream} {frame : Frame}
    (h : s.next = .ok (some frame) t) : t.pendingSize < s.pendingSize := by
  unfold next at h
  split at h
  · cases h
  · cases h
  · rename_i kind length _
    simp only at h
    split at h
    · cases h
    · rename_i hsize
      split at h
      · cases h
      · cases h
        simp only [pendingSize, Message.headSize] at hsize ⊢
        omega

private theorem drainWith_of_lt {fuel : Nat} {s : FrameStream} (h : s.pendingSize < fuel) :
    drainWith fuel s = drainWith (s.pendingSize + 1) s := by
  induction fuel using Nat.strongRecOn generalizing s with
  | _ fuel ih =>
    cases fuel with
    | zero => omega
    | succ fuel =>
      simp only [drainWith]
      cases hn : s.next with
      | error e t => rfl
      | ok frame? t =>
        cases frame? with
        | none => rfl
        | some frame =>
          have hlt := pendingSize_lt_of_next hn
          simp only
          rw [ih fuel (by omega) (s := t) (by omega)]
          by_cases hfuel : s.pendingSize < fuel
          · rw [ih s.pendingSize (by omega) (s := t) hlt]
          · have heq : s.pendingSize = fuel := by omega
            rw [heq, ih fuel (by omega) (s := t) (by omega)]

/-- One frame after the other, without a bound. -/
theorem drain_eq (s : FrameStream) :
    s.drain = match s.next with
      | .ok none t => ([], none, t)
      | .error e t => ([], some e, t)
      | .ok (some frame) t => (frame :: t.drain.1, t.drain.2.1, t.drain.2.2) := by
  unfold drain
  rw [drainWith]
  cases hn : s.next with
  | error e t => rfl
  | ok frame? t =>
    cases frame? with
    | none => rfl
    | some frame =>
      have hlt := pendingSize_lt_of_next hn
      simp only
      rw [drainWith_of_lt hlt]

end FrameStream

end TraceRelay
