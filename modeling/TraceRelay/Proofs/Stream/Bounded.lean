import Mathlib.Data.List.Induction
import TraceRelay.Proofs.Stream.Frames

/-!
# What a stream keeps of what it is sent

The peer chooses the bytes that a frame stream receives and how they are cut. Taking a frame removes
exactly the frame, and where there is none yet, or a fault, nothing changes. The length of a frame
is checked before its body is waited for, so a stream without a whole frame is short, and a receiver
that takes all frames before each chunk holds no more than that and the chunk.

## Main definitions

* `FrameStream.Access`, `FrameStream.after` : chunks and frames, in any order.
* `FrameStream.Drained` : chunks come only where no frame is left.

## Main results

* `FrameStream.next_cases` : what taking a frame does.
* `FrameStream.wellFormed_after` : the bytes given out are always among those received.
* `FrameStream.after_bounded` : frames are taken whole or not at all, and the pending bytes are
  bounded.
-/

namespace TraceRelay

/-- A byte string without a whole frame at its front, but without a fault, is shorter than the
largest frame. -/
theorem Frame.length_le_of_first_none {maxFrame : Nat} {bs : Bytes}
    (h : first maxFrame bs = .ok none) : bs.length ≤ maxFrame + 4 := by
  cases hhead : head maxFrame bs with
  | error e =>
    simp only [first, hhead] at h
    cases h
  | ok found =>
    rcases found with _ | ⟨kind, length⟩
    -- The head has not arrived: its kind and at most three of the bytes of the length are there.
    · cases bs with
      | nil => exact Nat.zero_le _
      | cons b bs =>
        simp only [head] at hhead
        split at hhead
        · cases hhead
        · split_ifs at hhead with hshort
          · rw [List.length_cons]
            omega
          · cases hhead
    · obtain ⟨-, hmax, -⟩ := head_eq_some_iff.1 hhead
      simp only [first, hhead] at h
      split_ifs at h with hshort
      · simp only [Message.headSize] at hshort
        omega
      · split at h <;> cases h

namespace FrameStream

/-! ### One step -/

/-- Taking a frame removes its bytes, and otherwise changes nothing. -/
theorem next_cases {s : FrameStream} (h : s.WellFormed) :
    (∃ frame t, s.next = .ok (some frame) t ∧ t.WellFormed ∧ t.maxFrame = s.maxFrame ∧
        t.pending = s.pending.drop frame.wireSize ∧
        s.pendingSize = frame.wireSize + t.pendingSize) ∨
      (s.next = .ok none s ∧ s.pendingSize ≤ s.maxFrame + 4) ∨
      ∃ e, s.next = .error e s := by
  have hnext := s.next_eq
  cases hfirst : Frame.first s.maxFrame s.pending with
  | error e =>
    rw [hfirst] at hnext
    exact .inr (.inr ⟨e, hnext⟩)
  | ok found =>
    rw [hfirst] at hnext
    rcases found with _ | ⟨frame, rest⟩
    · refine .inr (.inl ⟨hnext, ?_⟩)
      rw [pendingSize_eq]
      exact Frame.length_le_of_first_none hfirst
    · obtain ⟨hwell, hrest, hsize⟩ := advance_of_first h hfirst
      refine .inl ⟨frame, _, hnext, hwell, rfl, ?_, ?_⟩
      · rw [pending, pending, List.drop_drop]
      · rw [pendingSize_eq { s with start := s.start + frame.wireSize }, hrest, hsize]

/-- No frame is given before a whole one is pending. -/
theorem next_of_first {s : FrameStream} (h : Frame.first s.maxFrame s.pending = .ok none) :
    s.next = .ok none s := by
  rw [next_eq, h]

/-- A chunk is pending until it is given out. -/
theorem pendingSize_push {s : FrameStream} (h : s.WellFormed) (chunk : Bytes) :
    (s.push chunk).pendingSize = s.pendingSize + chunk.length := by
  rw [pendingSize_eq, pending_push s chunk h, List.length_append, ← pendingSize_eq]

/-! ### Chunks and frames in any order -/

/-- What is done with a stream: a chunk is added, or the next frame is asked for. -/
inductive Access where
  | push (chunk : Bytes)
  | next

/-- The stream after one access, whatever it gives. -/
def access (s : FrameStream) : Access → FrameStream
  | .push chunk => s.push chunk
  | .next => match s.next with
    | .ok _ t => t
    | .error _ t => t

/-- The stream after a number of accesses, from the start. -/
def after (maxFrame : Nat) (accesses : List Access) : FrameStream :=
  accesses.foldl access { maxFrame }

/-- The size of the last chunk. -/
def lastChunk (accesses : List Access) : Nat :=
  accesses.foldl (fun size access => match access with
    | .push chunk => chunk.length
    | .next => size) 0

/-- Each chunk is added where there is no further frame. -/
inductive Drained (maxFrame : Nat) : List Access → Prop
  | nil : Drained maxFrame []
  | next {accesses} : Drained maxFrame accesses → Drained maxFrame (accesses ++ [.next])
  | push {accesses} (chunk : Bytes) : Drained maxFrame accesses →
      (after maxFrame accesses).next = .ok none (after maxFrame accesses) →
      Drained maxFrame (accesses ++ [.push chunk])

theorem after_concat (maxFrame : Nat) (accesses : List Access) (last : Access) :
    after maxFrame (accesses ++ [last]) = (after maxFrame accesses).access last := by
  rw [after, List.foldl_append]
  rfl

theorem wellFormed_access {s : FrameStream} (h : s.WellFormed) (a : Access) :
    (s.access a).WellFormed ∧ (s.access a).maxFrame = s.maxFrame := by
  cases a with
  | push chunk => exact ⟨wellFormed_push h chunk, maxFrame_push s chunk⟩
  | next =>
    unfold access
    obtain ⟨frame, t, hnext, hwell, hmax, -⟩ | ⟨hnext, -⟩ | ⟨e, hnext⟩ := next_cases h
    · rw [hnext]
      exact ⟨hwell, hmax⟩
    all_goals
      rw [hnext]
      exact ⟨h, rfl⟩

/-- However a stream is used, the bytes given out are among those received, and the limit stays. -/
theorem wellFormed_after (maxFrame : Nat) (accesses : List Access) :
    (after maxFrame accesses).WellFormed ∧ (after maxFrame accesses).maxFrame = maxFrame := by
  induction accesses using List.reverseRecOn with
  | nil => exact ⟨Nat.le_refl 0, rfl⟩
  | append_singleton accesses last ih =>
    obtain ⟨hwell, hmax⟩ := wellFormed_access ih.1 last
    rw [after_concat]
    exact ⟨hwell, hmax.trans ih.2⟩

/-- Asking for a frame adds nothing to the pending bytes. -/
theorem pendingSize_access_next_le {s : FrameStream} (h : s.WellFormed) :
    (s.access .next).pendingSize ≤ s.pendingSize := by
  unfold access
  obtain ⟨frame, t, hnext, -, -, -, hsize⟩ | ⟨hnext, -⟩ | ⟨e, hnext⟩ := next_cases h
  · rw [hnext]
    exact hsize ▸ Nat.le_add_left _ _
  all_goals
    rw [hnext]

/-- The bound for a receiver that takes all frames before each chunk. -/
theorem pendingSize_le_of_drained {maxFrame : Nat} {accesses : List Access}
    (h : Drained maxFrame accesses) :
    (after maxFrame accesses).pendingSize ≤ maxFrame + 4 + lastChunk accesses := by
  induction h with
  | nil => exact Nat.zero_le _
  | @next accesses _ ih =>
    have hlast : lastChunk (accesses ++ [.next]) = lastChunk accesses := by
      rw [lastChunk, List.foldl_append]
      rfl
    rw [after_concat, hlast]
    exact Nat.le_trans (pendingSize_access_next_le (wellFormed_after maxFrame accesses).1) ih
  | @push accesses chunk _ hnone _ =>
    have hlast : lastChunk (accesses ++ [.push chunk]) = chunk.length := by
      rw [lastChunk, List.foldl_append]
      rfl
    obtain ⟨hwell, hmax⟩ := wellFormed_after maxFrame accesses
    have hbefore : (after maxFrame accesses).pendingSize ≤ maxFrame + 4 := by
      rcases next_cases hwell with ⟨frame, t, hnext, -⟩ | ⟨-, hsize⟩ | ⟨e, hnext⟩
      · rw [hnone] at hnext
        cases hnext
      · rwa [hmax] at hsize
      · rw [hnone] at hnext
        cases hnext
    rw [after_concat, hlast]
    change ((after maxFrame accesses).push chunk).pendingSize ≤ _
    rw [pendingSize_push hwell]
    exact Nat.add_le_add_right hbefore _

/-- **A stream keeps little of what it is sent.** Whatever was pushed and taken before, asking for a
frame either gives a frame and removes exactly its bytes, or changes nothing, so that a fault is
found again. Where no frame is given, at most the largest frame less one byte is pending; when all
frames are taken before each chunk, the last chunk comes on top of that. -/
theorem after_bounded (maxFrame : Nat) (accesses : List Access) :
    let s := after maxFrame accesses
    s.start ≤ s.buffer.size ∧
      (∀ frame t, s.next = .ok (some frame) t →
        t.pending = s.pending.drop frame.wireSize ∧
          s.pendingSize = frame.wireSize + t.pendingSize) ∧
      (∀ t, s.next = .ok none t → t = s ∧ s.pendingSize ≤ maxFrame + 4) ∧
      (∀ e t, s.next = .error e t → t = s ∧ t.next = .error e t) ∧
      (Drained maxFrame accesses → s.pendingSize ≤ maxFrame + 4 + lastChunk accesses) := by
  intro s
  obtain ⟨hwell, hmax⟩ := wellFormed_after maxFrame accesses
  refine ⟨hwell, fun frame t hnext => ?_, fun t hnext => ?_, fun e t hnext => ?_,
    pendingSize_le_of_drained⟩
  all_goals
    obtain ⟨frame, t, hnext', -, -, hpending, hsize⟩ | ⟨hnext', hsize⟩ | ⟨e, hnext'⟩ :=
      next_cases hwell
    all_goals cases hnext'.symm.trans hnext
  · exact ⟨hpending, hsize⟩
  · exact ⟨rfl, hmax ▸ hsize⟩
  · exact ⟨rfl, hnext⟩

/-- A peer that sends a frame in two chunks and then a length that is not allowed. -/
theorem after_bounded_twoChunks :
    let accesses : List Access := [.push [3, 8, 0], .next,
      .push [0, 0, 1, 0, 0x10, 1, 0, 0, 0, 0x61, 0], .next, .next, .push [1, 0, 0, 0, 0xFF], .next]
    Drained 8 accesses ∧ (after 8 accesses).start ≤ (after 8 accesses).buffer.size ∧
      (after 8 accesses).pendingSize = 6 ∧ (after 8 accesses).pendingSize ≤ 8 + 4 + 5 := by
  intro accesses
  have hfront : Drained 8 [.push [3, 8, 0], .next] :=
    .next (.push _ .nil (next_of_first (by decide +kernel)))
  have hframe : Drained 8 [.push [3, 8, 0], .next, .push [0, 0, 1, 0, 0x10, 1, 0, 0, 0, 0x61, 0],
      .next, .next] :=
    .next (.next (.push _ hfront (next_of_first (by decide +kernel))))
  have hdrained : Drained 8 accesses :=
    .next (.push _ hframe (next_of_first (by decide +kernel)))
  obtain ⟨hstart, -, -, -, hbound⟩ := after_bounded 8 accesses
  exact ⟨hdrained, hstart, rfl, hbound hdrained⟩

end FrameStream

end TraceRelay
