import TraceRelay.Proofs.Codec.Cut
import TraceRelay.Proofs.Stream.Chunks

/-!
# Streams that are cut

A stream that ends inside a frame gives out the frames in front of it and nothing more. Its end is
refused with the number of bytes that have arrived of the last frame, and the number that it needs:
the whole frame, or its head as long as that has not arrived.

## Main results

* `Frame.head_of_cut`, `Frame.first_of_cut` : the front of a frame is no frame.
* `Frame.all_append_of_toBytes` : the frames that were written, and those of the bytes behind them.
* `FrameStream.feed_of_cut` : a stream that is cut inside a frame, however it arrives.
* `Message.exact_ends` : bodies and streams that are too short or too long.
-/

namespace TraceRelay

namespace Frame

variable {maxFrame : Nat}

section

variable {kind : MessageKind} {body part : Bytes}
  (hpart : part <+: kind.byteOf :: Bytes.littleEndian 4 body.length ++ body)
  (hlength : body.length ≤ maxUInt32) (hmax : body.length ≤ maxFrame)

include hpart hlength hmax

/-- The front of a frame has a head once all bytes of it are there. -/
theorem head_of_cut (hsome : part ≠ []) :
    head maxFrame part =
      .ok (if part.length < Message.headSize then none else some (kind, body.length)) := by
  by_cases hshort : part.length < Message.headSize
  · rw [if_pos hshort]
    cases part with
    | nil => exact absurd rfl hsome
    | cons b bs =>
      obtain ⟨rfl, -⟩ := List.cons_prefix_cons.mp hpart
      have hbs : bs.length < 4 := Nat.lt_of_succ_lt_succ hshort
      rw [head, MessageKind.ofByte_byteOf]
      exact if_pos hbs
  -- The fields of the head are part of what has arrived.
  · rw [if_neg hshort]
    have hfield : (kind.byteOf :: Bytes.littleEndian 4 body.length).length = Message.headSize := by
      rw [List.length_cons, Bytes.length_littleEndian, Message.headSize]
    obtain ⟨rest, rfl⟩ : kind.byteOf :: Bytes.littleEndian 4 body.length <+: part :=
      List.prefix_of_prefix_length_le (List.prefix_append _ body) hpart
        (Nat.le_trans (Nat.le_of_eq hfield) (Nat.le_of_not_lt hshort))
    exact head_eq_some_iff.2 ⟨hlength, hmax, rest, rfl⟩

/-- The front of a frame is no frame. -/
theorem first_of_cut (hsome : part ≠ []) (hcut : part.length < Message.headSize + body.length) :
    first maxFrame part = .ok none := by
  rw [first, head_of_cut hpart hlength hmax hsome]
  by_cases hshort : part.length < Message.headSize
  · rw [if_pos hshort]
  · rw [if_neg hshort]
    exact if_pos hcut

end

/-- What is written for messages that are not too large are frames of these messages, followed by
the frames of the bytes behind them. -/
theorem all_append_of_toBytes {ms : List Message} {es : List Bytes}
    (h : List.Forall₂ (fun m e => m.toBytes = .ok e) ms es)
    (hmax : ∀ e ∈ es, e.length ≤ Message.headSize + maxFrame) (behind : Bytes) :
    all maxFrame (es.flatten ++ behind) =
      (List.zipWith (fun m e => ⟨m, e.length⟩) ms es ++ (all maxFrame behind).1,
        (all maxFrame behind).2) := by
  induction h with
  | nil => rfl
  | @cons m e ms es hm _ ih =>
    have hfirst : first maxFrame (e ++ (es.flatten ++ behind)) =
        .ok (some (⟨m, e.length⟩, es.flatten ++ behind)) :=
      first_eq_some_iff.2 ⟨e, hm, rfl, hmax e List.mem_cons_self, rfl⟩
    rw [List.flatten_cons, List.append_assoc, all_of_some hfirst,
      ih fun e' he' => hmax e' (List.mem_cons_of_mem e he')]
    rfl

end Frame

namespace FrameStream

/-- **A stream that is cut inside a frame.** However it arrives, the frames in front of the cut are
given out, nothing more, and its end is refused. -/
theorem feed_of_cut {maxFrame : Nat} {ms : List Message} {es chunks : List Bytes}
    {kind : MessageKind} {body part : Bytes}
    (hes : List.Forall₂ (fun m e => m.toBytes = .ok e) ms es)
    (hmaxes : ∀ e ∈ es, e.length ≤ Message.headSize + maxFrame)
    (hlength : body.length ≤ maxUInt32) (hmax : body.length ≤ maxFrame)
    (hpart : part <+: kind.byteOf :: Bytes.littleEndian 4 body.length ++ body)
    (hsome : part ≠ []) (hcut : part.length < Message.headSize + body.length)
    (hchunks : chunks.flatten = es.flatten ++ part) :
    ∃ s, feed { maxFrame } chunks = (List.zipWith (fun m e => ⟨m, e.length⟩) ms es, none, s) ∧
      s.next = .ok none s ∧
      s.finish = .error (.truncated
        (if part.length < Message.headSize then Message.headSize
          else Message.headSize + body.length) part.length) := by
  have hwell : WellFormed { maxFrame } := Nat.le_refl 0
  have hfirst := Frame.first_of_cut hpart hlength hmax hsome hcut
  have hall : Frame.all maxFrame chunks.flatten =
      (List.zipWith (fun m e => ⟨m, e.length⟩) ms es, none, part) := by
    rw [hchunks, Frame.all_append_of_toBytes hes hmaxes, Frame.all_of_none hfirst,
      List.append_nil]
  obtain ⟨hframes, hfault, hrest⟩ := feed_spec hwell rfl chunks
  change (feed { maxFrame } chunks).1 = (Frame.all maxFrame chunks.flatten).1 at hframes
  change (feed { maxFrame } chunks).2.1 = (Frame.all maxFrame chunks.flatten).2.1 at hfault
  rw [hall] at hframes hfault
  obtain ⟨hpending, hlimit⟩ := hrest hfault
  change (feed { maxFrame } chunks).2.2.pending = (Frame.all maxFrame chunks.flatten).2.2
    at hpending
  rw [hall] at hpending
  refine ⟨(feed { maxFrame } chunks).2.2, Prod.ext hframes (Prod.ext hfault rfl), ?_, ?_⟩
  · rw [next_eq, hlimit, hpending, hfirst]
  · have hsize : (feed { maxFrame } chunks).2.2.pendingSize = part.length := by
      rw [pendingSize_eq, hpending]
    rw [finish, hsize, if_neg (mt List.length_eq_zero_iff.mp hsome), head_eq, hlimit, hpending,
      Frame.head_of_cut hpart hlength hmax hsome]
    by_cases hshort : part.length < Message.headSize
    · rw [if_pos hshort, if_pos hshort]
    · rw [if_neg hshort, if_neg hshort]

end FrameStream

namespace Message

/-- **Exact ends.** Every frame is a kind, the length of a body and the body. A body that is cut
anywhere lacks bytes, bytes behind it are refused, and so is the end of a stream inside the frame:
however the stream arrives, the whole frames in front of it are given out, and nothing more. -/
theorem exact_ends {m : Message} {frame : Bytes} (h : m.toBytes = .ok frame) :
    ∃ body : Bytes, frame = m.kind.byteOf :: Bytes.littleEndian 4 body.length ++ body ∧
      (∀ part, part <+: body → part ≠ body → ∃ needed available, available < needed ∧
        decode m.kind part = .error (.truncated needed available)) ∧
      (∀ extra, extra ≠ [] →
        decode m.kind (body ++ extra) = .error (.trailingBytes extra.length)) ∧
      ∀ part, part <+: frame → part ≠ [] → part ≠ frame →
        ∀ (maxFrame : Nat) (ms : List Message) (es chunks : List Bytes),
          List.Forall₂ (fun m e => m.toBytes = .ok e) ms es →
          (∀ e ∈ frame :: es, e.length ≤ headSize + maxFrame) →
          chunks.flatten = es.flatten ++ part →
          ∃ s, FrameStream.feed { maxFrame } chunks =
              (List.zipWith (fun m e => ⟨m, e.length⟩) ms es, none, s) ∧
            s.next = .ok none s ∧
            s.finish = .error (.truncated
              (if part.length < headSize then headSize else frame.length) part.length) := by
  obtain ⟨body, hlength, rfl, hdecode⟩ := decode_of_toBytes h
  have hsize : (m.kind.byteOf :: Bytes.littleEndian 4 body.length ++ body).length =
      headSize + body.length := by
    rw [List.length_append, List.length_cons, Bytes.length_littleEndian, headSize]
  refine ⟨body, rfl, fun part hpart hcut => decode_of_cut hdecode hpart hcut,
    fun extra hextra => decode_append hdecode hextra, ?_⟩
  intro part hpart hsome hcut maxFrame ms es chunks hes hmax hchunks
  have hlimits := List.forall_mem_cons.mp hmax
  rw [hsize] at hlimits ⊢
  have hshorter : part.length < headSize + body.length := by
    refine Nat.lt_of_le_of_ne (hsize ▸ hpart.length_le) fun heq => hcut ?_
    exact hpart.eq_of_length (heq.trans hsize.symm)
  exact FrameStream.feed_of_cut hes hlimits.2 hlength (Nat.le_of_add_le_add_left hlimits.1) hpart
    hsome hshorter hchunks

/-- An announcement of which the body, or the frame behind the close, is cut inside a text. -/
theorem exact_ends_registerMethod :
    let frame : Bytes := [3, 8, 0, 0, 0, 1, 0, 0x10, 1, 0, 0, 0, 0x61]
    (registerMethod 1 "a").toBytes = .ok frame ∧
      (∃ needed available, available < needed ∧
        decode .registerMethod [1, 0, 0x10, 1, 0] = .error (.truncated needed available)) ∧
      decode .registerMethod [1, 0, 0x10, 1, 0, 0, 0, 0x61, 0xFF] = .error (.trailingBytes 1) ∧
      ∃ s, FrameStream.feed { maxFrame := 8 } [[0, 0, 0], [0, 0, 3, 8, 0, 0, 0, 1, 0, 0x10]] =
          ([⟨close, 5⟩], none, s) ∧
        s.next = .ok none s ∧ s.finish = .error (.truncated 13 8) := by
  intro frame
  have hbytes : (registerMethod 1 "a").toBytes = .ok frame := by decide +kernel
  obtain ⟨body, hframe, hcut, hextra, hstream⟩ := exact_ends hbytes
  have hbody : frame.drop headSize = body := by
    rw [hframe]
    exact List.drop_left' rfl
  subst hbody
  have hclose : List.Forall₂ (fun m e => toBytes m = .ok e) [close] [[0, 0, 0, 0, 0]] :=
    .cons (by decide +kernel) .nil
  exact ⟨hbytes, hcut [1, 0, 0x10, 1, 0] (by decide) (by decide), hextra [0xFF] (by decide),
    hstream [3, 8, 0, 0, 0, 1, 0, 0x10] (by decide) (by decide) (by decide) 8 [close] _
      [[0, 0, 0], [0, 0, 3, 8, 0, 0, 0, 1, 0, 0x10]] hclose (by decide) rfl⟩

end Message

end TraceRelay
