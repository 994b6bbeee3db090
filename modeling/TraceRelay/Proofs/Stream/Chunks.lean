import TraceRelay.Proofs.Stream.Frames

/-!
# Chunks say nothing about frames

A receiver adds the chunks of a stream one after the other and takes all frames that have arrived
after each of them. What it takes, the fault that stops it, and whether the end of the stream falls
inside a frame are those of the bytes of the stream, however they were cut.

## Main definitions

* `FrameStream.feed` : chunks, one after the other, and the frames taken out between them.

## Main results

* `FrameStream.feed_spec` : a receiver takes the frames of the bytes it was given.
* `FrameStream.bytes_of_feed` : the frames taken and the pending bytes are the bytes given.
* `FrameStream.feed_eq_of_cut` : a stream in chunks and the same stream in one piece.
-/

namespace TraceRelay

namespace FrameStream

/-- Adds chunks one after the other and takes all frames after each of them, until there is a
fault. -/
def feed (s : FrameStream) : List Bytes → List Frame × Option WireError × FrameStream
  | [] => ([], none, s)
  | chunk :: chunks =>
    match (s.push chunk).drain with
    | (frames, some e, t) => (frames, some e, t)
    | (frames, none, t) =>
      let (more, fault, u) := t.feed chunks
      (frames ++ more, fault, u)

/-- What happens at the first chunk: the frames of the pending bytes and the chunk are taken. -/
private theorem drain_push {s : FrameStream} (h : s.WellFormed) (chunk : Bytes) :
    (s.push chunk).drain.1 = (Frame.all s.maxFrame (s.pending ++ chunk)).1 ∧
      (s.push chunk).drain.2.1 = (Frame.all s.maxFrame (s.pending ++ chunk)).2.1 ∧
      (s.push chunk).drain.2.2.pending = (Frame.all s.maxFrame (s.pending ++ chunk)).2.2 ∧
      (s.push chunk).drain.2.2.maxFrame = s.maxFrame ∧ (s.push chunk).drain.2.2.WellFormed := by
  have hdrain := drain_spec (wellFormed_push h chunk)
  rwa [maxFrame_push, pending_push s chunk h] at hdrain

private theorem feed_cons_of_fault {s t : FrameStream} {chunk : Bytes} {frames : List Frame}
    {e : WireError} (h : (s.push chunk).drain = (frames, some e, t)) (chunks : List Bytes) :
    s.feed (chunk :: chunks) = (frames, some e, t) := by
  rw [feed, h]

private theorem feed_cons_of_none {s t : FrameStream} {chunk : Bytes} {frames : List Frame}
    (h : (s.push chunk).drain = (frames, none, t)) (chunks : List Bytes) :
    s.feed (chunk :: chunks) =
      (frames ++ (t.feed chunks).1, (t.feed chunks).2.1, (t.feed chunks).2.2) := by
  rw [feed, h]

/-- A receiver that has taken all frames so far takes those of its pending bytes and the bytes it is
given, up to the same fault. -/
theorem feed_spec {s : FrameStream} (h : s.WellFormed)
    (htaken : Frame.first s.maxFrame s.pending = .ok none) (chunks : List Bytes) :
    (s.feed chunks).1 = (Frame.all s.maxFrame (s.pending ++ chunks.flatten)).1 ∧
      (s.feed chunks).2.1 = (Frame.all s.maxFrame (s.pending ++ chunks.flatten)).2.1 ∧
      ((s.feed chunks).2.1 = none →
        (s.feed chunks).2.2.pending = (Frame.all s.maxFrame (s.pending ++ chunks.flatten)).2.2 ∧
          (s.feed chunks).2.2.maxFrame = s.maxFrame) := by
  induction chunks generalizing s with
  | nil =>
    rw [List.flatten_nil, List.append_nil, Frame.all_of_none htaken]
    exact ⟨rfl, rfl, fun _ => ⟨rfl, rfl⟩⟩
  | cons chunk chunks ih =>
    obtain ⟨hframes, hfault, hpending, hmax, hwell⟩ := drain_push h chunk
    rcases hdrain : (s.push chunk).drain with ⟨frames, fault, t⟩
    rw [hdrain] at hframes hfault hpending hmax hwell
    simp only at hframes hfault hpending hmax hwell
    rw [List.flatten_cons, ← List.append_assoc]
    cases fault with
    | some e =>
      obtain ⟨hsame, he⟩ := Frame.all_append_of_fault chunks.flatten hfault.symm
      rw [feed_cons_of_fault hdrain, hsame, he]
      exact ⟨hframes, rfl, nofun⟩
    | none =>
      have hfirst := Frame.first_of_all hfault.symm
      rw [← hpending, ← hmax] at hfirst
      obtain ⟨hmore, hend, hrest⟩ := ih hwell hfirst
      rw [hpending, hmax] at hmore hend hrest
      rw [feed_cons_of_none hdrain, Frame.all_append_of_none chunks.flatten hfault.symm]
      exact ⟨by rw [hframes, hmore], hend, hrest⟩

/-- No byte is lost, repeated or moved: what is written for the frames that were taken, and the
pending bytes behind it, are the bytes that were pending and those that were added. -/
theorem bytes_of_feed {s : FrameStream} (h : s.WellFormed) (chunks : List Bytes) :
    ∃ (added left es : List Bytes), chunks = added ++ left ∧
      ((s.feed chunks).2.1 = none → left = []) ∧
      List.Forall₂ (fun frame e => frame.message.toBytes = .ok e ∧ e.length = frame.wireSize)
        (s.feed chunks).1 es ∧
      s.pending ++ added.flatten = es.flatten ++ (s.feed chunks).2.2.pending := by
  induction chunks generalizing s with
  | nil => exact ⟨[], [], [], rfl, fun _ => rfl, .nil, by simp [feed]⟩
  | cons chunk chunks ih =>
    obtain ⟨hframes, hfault, hpending, hmax, hwell⟩ := drain_push h chunk
    obtain ⟨es, hes, hbytes⟩ := Frame.bytes_of_all s.maxFrame (s.pending ++ chunk)
    rw [← hframes] at hes
    rw [← hpending] at hbytes
    rcases hdrain : (s.push chunk).drain with ⟨frames, fault, t⟩
    rw [hdrain] at hes hbytes hwell
    cases fault with
    | some e =>
      rw [feed_cons_of_fault hdrain]
      exact ⟨[chunk], chunks, es, rfl, nofun, hes, by rw [List.flatten_singleton, hbytes]⟩
    | none =>
      obtain ⟨added, left, es', hcut, hleft, hes', hmore⟩ := ih hwell
      rw [feed_cons_of_none hdrain]
      refine ⟨chunk :: added, left, es ++ es', by rw [hcut]; rfl, hleft,
        List.rel_append hes hes', ?_⟩
      rw [List.flatten_cons, ← List.append_assoc, hbytes, List.append_assoc, hmore,
        List.flatten_append, List.append_assoc]

/-- **Chunks say nothing about frames.** A stream that arrives in chunks gives the frames, and the
fault if there is one, that it gives in one piece; without a fault its end is judged alike. Between
the frames that were taken and the bytes that are pending no byte is lost, repeated or moved. -/
theorem feed_eq_of_cut (maxFrame : Nat) (chunks : List Bytes) :
    let parts := feed { maxFrame } chunks
    let whole := feed { maxFrame } [chunks.flatten]
    parts.1 = whole.1 ∧ parts.2.1 = whole.2.1 ∧
      (parts.2.1 = none → parts.2.2.finish = whole.2.2.finish) ∧
      ∃ (added left es : List Bytes), chunks = added ++ left ∧ (parts.2.1 = none → left = []) ∧
        List.Forall₂ (fun frame e => frame.message.toBytes = .ok e ∧ e.length = frame.wireSize)
          parts.1 es ∧
        added.flatten = es.flatten ++ parts.2.2.pending := by
  intro parts whole
  have hwell : WellFormed { maxFrame } := Nat.le_refl 0
  have hparts := feed_spec hwell rfl chunks
  have hwhole := feed_spec hwell rfl [chunks.flatten]
  rw [List.flatten_singleton] at hwhole
  have hfault : parts.2.1 = whole.2.1 := hparts.2.1.trans hwhole.2.1.symm
  refine ⟨hparts.1.trans hwhole.1.symm, hfault, fun hnone => ?_, ?_⟩
  · obtain ⟨hpending, hmax⟩ := hparts.2.2 hnone
    obtain ⟨hpending', hmax'⟩ := hwhole.2.2 (hfault ▸ hnone)
    exact finish_congr (hmax.trans hmax'.symm) (hpending.trans hpending'.symm)
  · exact bytes_of_feed hwell chunks

end FrameStream

end TraceRelay
