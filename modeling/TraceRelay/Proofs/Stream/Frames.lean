import Mathlib.Algebra.Ring.Nat
import Mathlib.Data.List.Forall2
import TraceRelay.FrameStream
import TraceRelay.Proofs.Codec.Exact

/-!
# Frames at the front of a byte string

What a frame stream gives out depends on its pending bytes alone, however they lie in its buffer. So
the stream is described by functions of a byte string: its first frame, and all of its frames. A
frame at the front stays there when more bytes arrive, and so does a fault.

## Main definitions

* `Frame.head`, `Frame.first` : the head of the first frame, and the whole of it.
* `Frame.all` : the frames of a byte string, the fault that ends them, and the bytes behind them.
* `FrameStream.WellFormed` : no more bytes were given out than were received.

## Main results

* `Frame.first_append_of_some`, `Frame.first_append_of_error` : the first frame, or the fault, is
  the same with more bytes behind it.
* `Frame.all_append_of_none`, `Frame.all_append_of_fault` : the frames of two byte strings, one
  behind the other.
* `Frame.bytes_of_all` : the frames and the bytes behind them are the byte string.
* `Frame.all_of_toBytes` : frames that were written are those that are found.
* `FrameStream.drain_spec` : a stream gives out the frames of its pending bytes.
-/

namespace TraceRelay

namespace Frame

variable {maxFrame : Nat}

/-- The kind and the length of the body in the head of a byte string. There is none until the head
is whole, but the kind is checked at once. -/
def head (maxFrame : Nat) : Bytes → Except WireError (Option (MessageKind × Nat))
  | [] => .ok none
  | b :: bs =>
    match MessageKind.ofByte b with
    | .error e => .error e
    | .ok kind =>
      if bs.length < 4 then .ok none
      else if Bytes.value (bs.take 4) > maxFrame then
        .error (.frameTooLarge (Bytes.value (bs.take 4)) maxFrame)
      else .ok (some (kind, Bytes.value (bs.take 4)))

/-- The first frame of a byte string, and the bytes behind it. -/
def first (maxFrame : Nat) (bs : Bytes) : Except WireError (Option (Frame × Bytes)) :=
  match head maxFrame bs with
  | .error e => .error e
  | .ok none => .ok none
  | .ok (some (kind, length)) =>
    if bs.length < Message.headSize + length then .ok none
    else
      match Message.decode kind ((bs.drop Message.headSize).take length) with
      | .error e => .error e
      | .ok message =>
        .ok (some (⟨message, Message.headSize + length⟩, bs.drop (Message.headSize + length)))

/-! ### The first frame -/

/-- A byte string has a head exactly when it starts with a kind and a length that is allowed. -/
theorem head_eq_some_iff {bs : Bytes} {kind : MessageKind} {length : Nat} :
    head maxFrame bs = .ok (some (kind, length)) ↔ length ≤ maxUInt32 ∧ length ≤ maxFrame ∧
      ∃ rest, bs = kind.byteOf :: Bytes.littleEndian 4 length ++ rest := by
  constructor
  · intro h
    cases bs with
    | nil => cases h
    | cons b bs =>
      simp only [head] at h
      cases hkind : MessageKind.ofByte b with
      | error e =>
        rw [hkind] at h
        cases h
      | ok k =>
        simp only [hkind] at h
        by_cases hlen : bs.length < 4
        · rw [if_pos hlen] at h
          cases h
        rw [if_neg hlen] at h
        by_cases hmax : Bytes.value (bs.take 4) > maxFrame
        · rw [if_pos hmax] at h
          cases h
        rw [if_neg hmax] at h
        cases h
        have htake : (bs.take 4).length = 4 := by
          rw [List.length_take]
          omega
        have hvalue := Bytes.value_lt (bs.take 4)
        have hfield := Bytes.littleEndian_value (bs.take 4)
        rw [htake] at hvalue hfield
        refine ⟨Nat.le_of_lt_succ hvalue, by omega, bs.drop 4, ?_⟩
        rw [MessageKind.ofByte_eq_ok_iff.1 hkind, hfield, List.cons_append, List.take_append_drop]
  · rintro ⟨hlength, hmax, rest, rfl⟩
    have hvalue : Bytes.value (Bytes.littleEndian 4 length) = length := by
      rw [Bytes.value_littleEndian]
      exact Nat.mod_eq_of_lt (Nat.lt_succ_of_le hlength)
    have htake : (Bytes.littleEndian 4 length ++ rest).take 4 = Bytes.littleEndian 4 length :=
      List.take_left' (Bytes.length_littleEndian 4 length)
    have hlen : ¬ (Bytes.littleEndian 4 length ++ rest).length < 4 := by
      rw [List.length_append, Bytes.length_littleEndian]
      omega
    simp only [List.cons_append, head, MessageKind.ofByte_byteOf, htake, hvalue, if_neg hlen,
      if_neg (Nat.not_lt.2 hmax)]

/-- The first frame behind a head that is allowed. -/
private theorem first_of_head {kind : MessageKind} {length : Nat} (hlength : length ≤ maxUInt32)
    (hmax : length ≤ maxFrame) (behind : Bytes) :
    first maxFrame (kind.byteOf :: Bytes.littleEndian 4 length ++ behind) =
      if behind.length < length then .ok none
      else match Message.decode kind (behind.take length) with
        | .error e => .error e
        | .ok message => .ok (some (⟨message, Message.headSize + length⟩, behind.drop length)) := by
  have hhead : head maxFrame (kind.byteOf :: Bytes.littleEndian 4 length ++ behind) =
      .ok (some (kind, length)) := head_eq_some_iff.2 ⟨hlength, hmax, behind, rfl⟩
  have hdrop : (kind.byteOf :: Bytes.littleEndian 4 length ++ behind).drop Message.headSize =
      behind := List.drop_left' (by simp [Message.headSize])
  have hsize : (kind.byteOf :: Bytes.littleEndian 4 length ++ behind).length <
      Message.headSize + length ↔ behind.length < length := by
    simp only [Message.headSize, List.length_append, List.length_cons, Bytes.length_littleEndian]
    omega
  simp only [first, hhead, hsize, ← List.drop_drop, hdrop]

/-- A byte string starts with a frame exactly when it starts with what is written for the message
of the frame, the body of which must not be too long. -/
theorem first_eq_some_iff {bs rest : Bytes} {frame : Frame} :
    first maxFrame bs = .ok (some (frame, rest)) ↔
      ∃ e, frame.message.toBytes = .ok e ∧ e.length = frame.wireSize ∧
        e.length ≤ Message.headSize + maxFrame ∧ bs = e ++ rest := by
  constructor
  · intro h
    cases hhead : head maxFrame bs with
    | error e =>
      simp only [first, hhead] at h
      cases h
    | ok found =>
      rcases found with _ | ⟨kind, length⟩
      · simp only [first, hhead] at h
        cases h
      obtain ⟨hlength, hmax, behind, rfl⟩ := head_eq_some_iff.1 hhead
      rw [first_of_head hlength hmax] at h
      by_cases hsize : behind.length < length
      · rw [if_pos hsize] at h
        cases h
      rw [if_neg hsize] at h
      have hbody : (behind.take length).length = length := by
        rw [List.length_take]
        omega
      cases hm : Message.decode kind (behind.take length) with
      | error e =>
        rw [hm] at h
        cases h
      | ok message =>
        rw [hm] at h
        cases h
        obtain ⟨-, hbytes⟩ := (Message.decode_eq_ok_iff_toBytes (by omega)).1 hm
        rw [hbody] at hbytes
        have hwire : (kind.byteOf :: Bytes.littleEndian 4 length ++
            behind.take length).length = Message.headSize + length := by
          simp only [Message.headSize, List.length_append, List.length_cons,
            Bytes.length_littleEndian, hbody]
        refine ⟨_, hbytes, hwire, by omega, ?_⟩
        rw [List.append_assoc, List.take_append_drop]
  · rintro ⟨e, hbytes, hwire, hmax, rfl⟩
    obtain ⟨body, hbody, rfl, hm⟩ := Message.decode_of_toBytes hbytes
    rcases frame with ⟨message, size⟩
    simp only [Message.headSize, List.length_append, List.length_cons,
      Bytes.length_littleEndian] at hwire hmax
    have hsize : Message.headSize + body.length = size := by
      simp only [Message.headSize]
      omega
    rw [List.append_assoc, first_of_head hbody (by omega), if_neg (by simp), List.take_left,
      List.drop_left, hm]
    simp only [hsize]

private theorem head_append_of_error {bs : Bytes} {e : WireError} (more : Bytes)
    (h : head maxFrame bs = .error e) : head maxFrame (bs ++ more) = .error e := by
  cases bs with
  | nil => cases h
  | cons b bs =>
    simp only [List.cons_append, head] at h ⊢
    cases hkind : MessageKind.ofByte b with
    | error e => simpa only [hkind] using h
    | ok kind =>
      simp only [hkind] at h ⊢
      by_cases hlen : bs.length < 4
      · rw [if_pos hlen] at h
        cases h
      · have htake : (bs ++ more).take 4 = bs.take 4 := List.take_append_of_le_length (by omega)
        have hmore : ¬ (bs ++ more).length < 4 := by
          rw [List.length_append]
          omega
        rw [htake, if_neg hmore]
        rwa [if_neg hlen] at h

/-- A fault at the front of a byte string does not change when more bytes come behind it. -/
theorem first_append_of_error {bs : Bytes} {e : WireError} (more : Bytes)
    (h : first maxFrame bs = .error e) : first maxFrame (bs ++ more) = .error e := by
  cases hhead : head maxFrame bs with
  | error e' =>
    simp only [first, hhead, head_append_of_error more hhead] at h ⊢
    exact h
  | ok found =>
    rcases found with _ | ⟨kind, length⟩
    · simp only [first, hhead] at h
      cases h
    obtain ⟨hlength, hmax, behind, rfl⟩ := head_eq_some_iff.1 hhead
    rw [first_of_head hlength hmax] at h
    by_cases hsize : behind.length < length
    · rw [if_pos hsize] at h
      cases h
    have hmore : ¬ (behind ++ more).length < length := by
      rw [List.length_append]
      omega
    rw [List.append_assoc, first_of_head hlength hmax, if_neg hmore,
      List.take_append_of_le_length (by omega)]
    rw [if_neg hsize] at h
    cases hm : Message.decode kind (behind.take length) with
    | error e' => simpa only [hm] using h
    | ok message =>
      rw [hm] at h
      cases h

/-- A frame at the front of a byte string does not change when more bytes come behind it. -/
theorem first_append_of_some {bs rest : Bytes} {frame : Frame} (more : Bytes)
    (h : first maxFrame bs = .ok (some (frame, rest))) :
    first maxFrame (bs ++ more) = .ok (some (frame, rest ++ more)) := by
  obtain ⟨e, hbytes, hwire, hmax, rfl⟩ := first_eq_some_iff.1 h
  exact first_eq_some_iff.2 ⟨e, hbytes, hwire, hmax, List.append_assoc e rest more⟩

theorem headSize_le_toBytes {m : Message} {e : Bytes} (h : m.toBytes = .ok e) :
    Message.headSize ≤ e.length := by
  obtain ⟨body, -, rfl, -⟩ := Message.decode_of_toBytes h
  simp only [Message.headSize, List.length_append, List.length_cons, Bytes.length_littleEndian]
  omega

theorem length_lt_of_first {bs rest : Bytes} {frame : Frame}
    (h : first maxFrame bs = .ok (some (frame, rest))) : rest.length < bs.length := by
  obtain ⟨e, hbytes, -, -, rfl⟩ := first_eq_some_iff.1 h
  have hsize := headSize_le_toBytes hbytes
  simp only [Message.headSize] at hsize
  rw [List.length_append]
  omega

/-! ### All frames -/

/-- The frames of a byte string, the fault that ends them if there is one, and the bytes that belong
to none of them. -/
def all (maxFrame : Nat) (bs : Bytes) : List Frame × Option WireError × Bytes :=
  match _h : first maxFrame bs with
  | .error e => ([], some e, bs)
  | .ok none => ([], none, bs)
  | .ok (some (frame, rest)) =>
    let (frames, fault, behind) := all maxFrame rest
    (frame :: frames, fault, behind)
termination_by bs.length
decreasing_by exact length_lt_of_first _h

theorem all_of_error {bs : Bytes} {e : WireError} (h : first maxFrame bs = .error e) :
    all maxFrame bs = ([], some e, bs) := by
  rw [all]
  split <;> rename_i h' <;> rw [h] at h' <;> cases h'
  rfl

theorem all_of_none {bs : Bytes} (h : first maxFrame bs = .ok none) :
    all maxFrame bs = ([], none, bs) := by
  rw [all]
  split <;> rename_i h' <;> rw [h] at h' <;> cases h'

theorem all_of_some {bs rest : Bytes} {frame : Frame}
    (h : first maxFrame bs = .ok (some (frame, rest))) :
    all maxFrame bs =
      (frame :: (all maxFrame rest).1, (all maxFrame rest).2.1, (all maxFrame rest).2.2) := by
  rw [all]
  split <;> rename_i h' <;> rw [h] at h' <;> cases h'
  rfl

/-- Frames are found one after the other: a property of byte strings holds if it holds where no
frame is in front, and behind a frame whenever it holds of the bytes after it. -/
theorem all_induction (maxFrame : Nat) {motive : Bytes → Prop} (bs : Bytes)
    (hfault : ∀ bs e, first maxFrame bs = .error e → motive bs)
    (hend : ∀ bs, first maxFrame bs = .ok none → motive bs)
    (hframe : ∀ bs frame rest, first maxFrame bs = .ok (some (frame, rest)) → motive rest →
      motive bs) : motive bs := by
  induction h : bs.length using Nat.strongRecOn generalizing bs with
  | _ n ih =>
    subst h
    cases hfirst : first maxFrame bs with
    | error e => exact hfault bs e hfirst
    | ok found =>
      rcases found with _ | ⟨frame, rest⟩
      · exact hend bs hfirst
      · exact hframe bs frame rest hfirst (ih _ (length_lt_of_first hfirst) rest rfl)

/-- A fault among the frames of a byte string is there whatever bytes come behind it, and so are the
frames in front of it. -/
theorem all_append_of_fault {bs : Bytes} {e : WireError} (more : Bytes)
    (h : (all maxFrame bs).2.1 = some e) :
    (all maxFrame (bs ++ more)).1 = (all maxFrame bs).1 ∧
      (all maxFrame (bs ++ more)).2.1 = some e := by
  induction bs using all_induction maxFrame with
  | hfault bs e' hfirst =>
    rw [all_of_error hfirst] at h ⊢
    rw [all_of_error (first_append_of_error more hfirst)]
    exact ⟨rfl, h⟩
  | hend bs hfirst =>
    rw [all_of_none hfirst] at h
    cases h
  | hframe bs frame rest hfirst ih =>
    rw [all_of_some hfirst] at h ⊢
    rw [all_of_some (first_append_of_some more hfirst)]
    exact ⟨congrArg (frame :: ·) (ih h).1, (ih h).2⟩

/-- Without a fault, the bytes behind the last frame of a byte string and the bytes that come later
hold the frames that follow. -/
theorem all_append_of_none {bs : Bytes} (more : Bytes) (h : (all maxFrame bs).2.1 = none) :
    all maxFrame (bs ++ more) =
      ((all maxFrame bs).1 ++ (all maxFrame ((all maxFrame bs).2.2 ++ more)).1,
        (all maxFrame ((all maxFrame bs).2.2 ++ more)).2) := by
  induction bs using all_induction maxFrame with
  | hfault bs e hfirst =>
    rw [all_of_error hfirst] at h
    cases h
  | hend bs hfirst =>
    rw [all_of_none hfirst]
    rfl
  | hframe bs frame rest hfirst ih =>
    rw [all_of_some hfirst] at h ⊢
    rw [all_of_some (first_append_of_some more hfirst), ih h]
    rfl

/-- No frame is in front of the bytes behind the last one. -/
theorem first_of_all {bs : Bytes} (h : (all maxFrame bs).2.1 = none) :
    first maxFrame (all maxFrame bs).2.2 = .ok none := by
  induction bs using all_induction maxFrame with
  | hfault bs e hfirst =>
    rw [all_of_error hfirst] at h
    cases h
  | hend bs hfirst => rwa [all_of_none hfirst]
  | hframe bs frame rest hfirst ih =>
    rw [all_of_some hfirst] at h ⊢
    exact ih h

/-- What is written for the frames of a byte string, and then the bytes behind them, are the byte
string. -/
theorem bytes_of_all (maxFrame : Nat) (bs : Bytes) :
    ∃ es : List Bytes,
      List.Forall₂ (fun frame e => frame.message.toBytes = .ok e ∧ e.length = frame.wireSize)
        (all maxFrame bs).1 es ∧
      bs = es.flatten ++ (all maxFrame bs).2.2 := by
  induction bs using all_induction maxFrame with
  | hfault bs e hfirst =>
    rw [all_of_error hfirst]
    exact ⟨[], .nil, rfl⟩
  | hend bs hfirst =>
    rw [all_of_none hfirst]
    exact ⟨[], .nil, rfl⟩
  | hframe bs frame rest hfirst ih =>
    obtain ⟨e, hbytes, hwire, -, rfl⟩ := first_eq_some_iff.1 hfirst
    obtain ⟨es, hes, hrest⟩ := ih
    rw [all_of_some hfirst]
    refine ⟨e :: es, .cons ⟨hbytes, hwire⟩ hes, ?_⟩
    rw [List.flatten_cons, List.append_assoc, ← hrest]

/-- What is written for messages that are not too large are frames of these messages and nothing
else. -/
theorem all_of_toBytes {ms : List Message} {es : List Bytes}
    (h : List.Forall₂ (fun m e => m.toBytes = .ok e) ms es)
    (hmax : ∀ e ∈ es, e.length ≤ Message.headSize + maxFrame) :
    ∃ frames : List Frame, all maxFrame es.flatten = (frames, none, []) ∧
      frames.map (·.message) = ms ∧ (frames.map (·.wireSize)).sum = es.flatten.length := by
  induction h with
  | nil => exact ⟨[], all_of_none rfl, rfl, rfl⟩
  | @cons m e ms es hm _ ih =>
    obtain ⟨frames, hall, hmessages, hsizes⟩ :=
      ih fun e' he' => hmax e' (List.mem_cons_of_mem e he')
    have hfirst : first maxFrame (e ++ es.flatten) = .ok (some (⟨m, e.length⟩, es.flatten)) :=
      first_eq_some_iff.2 ⟨e, hm, rfl, hmax e List.mem_cons_self, rfl⟩
    refine ⟨⟨m, e.length⟩ :: frames, ?_, congrArg (m :: ·) hmessages, ?_⟩
    · rw [List.flatten_cons, all_of_some hfirst, hall]
    · rw [List.map_cons, List.sum_cons, hsizes, List.flatten_cons, List.length_append]

end Frame

namespace FrameStream

/-! ### Frame streams -/

/-- No more bytes were given out than were received. -/
def WellFormed (s : FrameStream) : Prop := s.start ≤ s.buffer.size

theorem wellFormed_push {s : FrameStream} (h : s.WellFormed) (chunk : Bytes) :
    (s.push chunk).WellFormed := by
  unfold WellFormed push at *
  split
  · exact Nat.zero_le _
  · change s.start ≤ (s.buffer ++ chunk).size
    rw [← Array.length_toList, Array.toList_appendList, List.length_append, Array.length_toList]
    omega

@[simp] theorem maxFrame_push (s : FrameStream) (chunk : Bytes) :
    (s.push chunk).maxFrame = s.maxFrame := by
  unfold push
  split <;> rfl

theorem pendingSize_eq (s : FrameStream) : s.pendingSize = s.pending.length := by
  simp [pendingSize, pending]

private theorem toList_extract (s : FrameStream) (i n : Nat) :
    (s.buffer.extract (s.start + i) (s.start + (i + n))).toList = (s.pending.drop i).take n := by
  have hsize : s.start + (i + n) - (s.start + i) = n := by omega
  rw [Array.toList_extract, List.extract_eq_take_drop, hsize, pending, List.drop_drop]

/-- The head of a stream is that of its pending bytes. -/
theorem head_eq (s : FrameStream) : s.head = Frame.head s.maxFrame s.pending := by
  have hfirst : s.buffer[s.start]? = s.pending.head? := by
    rw [pending, List.head?_drop, Array.getElem?_toList]
  have hfield : (s.buffer.extract (s.start + 1) (s.start + Message.headSize)).toList =
      (s.pending.drop 1).take 4 := toList_extract s 1 4
  rw [head, hfirst, hfield]
  rcases s.pending with _ | ⟨b, bs⟩
  · rfl
  · have hlen : (bs.take 4).length < 4 ↔ bs.length < 4 := by
      rw [List.length_take]
      omega
    simp only [List.head?_cons, Frame.head, List.drop_one, List.tail_cons, hlen]
    cases MessageKind.ofByte b with
    | error e => rfl
    | ok kind =>
      by_cases hfour : bs.length < 4
      · simp only [if_pos hfour]
        rfl
      · by_cases hmax : Bytes.value (bs.take 4) > s.maxFrame
        · simp only [if_neg hfour, if_pos hmax]
          rfl
        · simp only [if_neg hfour, if_neg hmax]
          rfl

/-- The next frame of a stream is the first one of its pending bytes. -/
theorem next_eq (s : FrameStream) : s.next = match Frame.first s.maxFrame s.pending with
    | .error e => .error e s
    | .ok none => .ok none s
    | .ok (some (frame, _)) => .ok (some frame) { s with start := s.start + frame.wireSize } := by
  unfold next Frame.first
  rw [head_eq]
  rcases Frame.head s.maxFrame s.pending with e | _ | ⟨kind, length⟩
  · rfl
  · rfl
  · simp only [pendingSize_eq, toList_extract]
    by_cases hlen : s.pending.length < Message.headSize + length
    · simp only [if_pos hlen]
    · simp only [if_neg hlen]
      cases Message.decode kind ((s.pending.drop Message.headSize).take length) <;> rfl

/-- The end of a stream is accepted or not by its pending bytes. -/
theorem finish_congr {s t : FrameStream} (hmax : s.maxFrame = t.maxFrame)
    (hpending : s.pending = t.pending) : s.finish = t.finish := by
  unfold finish
  rw [head_eq, head_eq, pendingSize_eq, pendingSize_eq, hmax, hpending]

/-- What a stream keeps when it gives out its first frame: the bytes behind it. -/
theorem advance_of_first {s : FrameStream} {frame : Frame} {rest : Bytes} (h : s.WellFormed)
    (hfirst : Frame.first s.maxFrame s.pending = .ok (some (frame, rest))) :
    WellFormed { s with start := s.start + frame.wireSize } ∧
      pending { s with start := s.start + frame.wireSize } = rest ∧
      s.pendingSize = frame.wireSize + rest.length := by
  obtain ⟨e, -, hwire, -, hbytes⟩ := Frame.first_eq_some_iff.1 hfirst
  have hsize : s.pendingSize = frame.wireSize + rest.length := by
    rw [← hwire, ← List.length_append, ← hbytes, pendingSize_eq]
  refine ⟨?_, ?_, hsize⟩
  · unfold WellFormed pendingSize at *
    change s.start + frame.wireSize ≤ s.buffer.size
    omega
  · change s.buffer.toList.drop (s.start + frame.wireSize) = rest
    rw [← List.drop_drop]
    change s.pending.drop frame.wireSize = rest
    rw [hbytes, ← hwire, List.drop_left]

/-- **A stream gives out the frames of its pending bytes.** What it keeps are the bytes behind
them. -/
theorem drain_spec {s : FrameStream} (h : s.WellFormed) :
    s.drain.1 = (Frame.all s.maxFrame s.pending).1 ∧
      s.drain.2.1 = (Frame.all s.maxFrame s.pending).2.1 ∧
      s.drain.2.2.pending = (Frame.all s.maxFrame s.pending).2.2 ∧
      s.drain.2.2.maxFrame = s.maxFrame ∧ s.drain.2.2.WellFormed := by
  generalize hmax : s.maxFrame = maxFrame
  generalize hbs : s.pending = bs
  induction bs using Frame.all_induction maxFrame generalizing s with
  | hfault bs e hfirst =>
    have hnext : s.next = .error e s := by rw [next_eq, hmax, hbs, hfirst]
    rw [drain_eq, hnext, Frame.all_of_error hfirst]
    exact ⟨rfl, rfl, hbs, hmax, h⟩
  | hend bs hfirst =>
    have hnext : s.next = .ok none s := by rw [next_eq, hmax, hbs, hfirst]
    rw [drain_eq, hnext, Frame.all_of_none hfirst]
    exact ⟨rfl, rfl, hbs, hmax, h⟩
  | hframe bs frame rest hfirst ih =>
    have hnext : s.next = .ok (some frame) { s with start := s.start + frame.wireSize } := by
      rw [next_eq, hmax, hbs, hfirst]
    obtain ⟨hwell, hrest, -⟩ := advance_of_first h (hmax ▸ hbs ▸ hfirst)
    obtain ⟨hframes, hfault, hbehind, hlimit, hwf⟩ := ih hwell hmax hrest
    rw [drain_eq, hnext, Frame.all_of_some hfirst]
    exact ⟨congrArg (frame :: ·) hframes, hfault, hbehind, hlimit, hwf⟩

end FrameStream

end TraceRelay
