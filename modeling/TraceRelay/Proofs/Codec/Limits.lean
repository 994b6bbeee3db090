import Mathlib.Algebra.Ring.Nat
import TraceRelay.Proofs.Codec.Growing
import TraceRelay.Proofs.Messages

/-!
# The limits of what can be written

Whether something can be written depends on its size alone: on the number of arguments of a record,
on the lengths of texts and byte strings, on the number of items of a message and on the length of
its body. Below these limits exactly its bytes are added, above them nothing is.

## Main definitions

* `Write.Takes` : when a writer succeeds, and how many bytes it adds then.
* `Value.wireSize`, `Record.wireSize`, `Message.bodySize` : the numbers of bytes.
* `Value.TooLarge`, `Record.TooLarge`, `Message.TooLarge` : what is beyond the limits.

## Main results

* `Write.Takes.seq`, `Write.Takes.all` : writers, one after the other.
* `Value.takes_write`, `Record.takes_write`, `Message.takes_write` : the limits of each.
* `Write.all_or_nothing_at_limits` : records and messages are added whole, or not at all.
-/

namespace TraceRelay

/-! ### Writers with limits -/

namespace Write

variable {ε α : Type}

/-- When a writer succeeds, and how many bytes it adds then. -/
structure Takes (w : Write ε Unit) (fits : Prop) (size : Nat) : Prop where
  isLocal : w.Local
  succeeds : (∃ bs, w.result = .ok bs) ↔ fits
  length : ∀ bs, w.result = .ok bs → bs.length = size

variable {w v : Write ε Unit} {p q : Prop} {m n : Nat}

theorem takes_append (bs : Bytes) : (append bs : Write ε Unit).Takes True bs.length where
  isLocal := (atomic_append bs).local
  succeeds := iff_true_intro ⟨bs, result_append bs⟩
  length cs h := by
    rw [result_append] at h
    cases h
    rfl

theorem Takes.congr (h : w.Takes p m) (hpq : p ↔ q) (hmn : m = n) : w.Takes q n :=
  ⟨h.isLocal, h.succeeds.trans hpq, fun bs hbs => (h.length bs hbs).trans hmn⟩

/-- Two writers, one after the other. -/
theorem Takes.seq (hw : w.Takes p m) (hv : v.Takes q n) :
    (do w; v : Write ε Unit).Takes (p ∧ q) (m + n) where
  isLocal := hw.isLocal.seq hv.isLocal
  succeeds := by
    rw [← hw.succeeds, ← hv.succeeds]
    simp only [hw.isLocal.result_seq_eq_ok_iff hv.isLocal]
    constructor
    · rintro ⟨_, xs, hxs, ys, hys, -⟩
      exact ⟨⟨xs, hxs⟩, ys, hys⟩
    · rintro ⟨⟨xs, hxs⟩, ys, hys⟩
      exact ⟨xs ++ ys, xs, hxs, ys, hys, rfl⟩
  length bs h := by
    obtain ⟨xs, hxs, ys, hys, rfl⟩ := (hw.isLocal.result_seq_eq_ok_iff hv.isLocal).1 h
    rw [List.length_append, hw.length xs hxs, hv.length ys hys]

/-- A writer of a list that writes its elements one after the other. -/
theorem Takes.all {one : α → Write ε Unit} {many : List α → Write ε Unit} {fits : α → Prop}
    {size : α → Nat} (hnil : many [] = pure ())
    (hcons : ∀ a as, many (a :: as) = do one a; many as)
    (hone : ∀ a, (one a).Takes (fits a) (size a)) (as : List α) :
    (many as).Takes (∀ a ∈ as, fits a) (as.map size).sum := by
  induction as with
  | nil =>
    have hnone : (pure () : Write ε Unit) = append [] :=
      funext fun b => congrArg (EStateM.Result.ok ()) (append_nil_buffer b).symm
    rw [hnil, hnone]
    exact (takes_append []).congr (by simp) rfl
  | cons a as ih =>
    rw [hcons]
    exact ((hone a).seq ih).congr List.forall_mem_cons.symm rfl

theorem Takes.adaptExcept {ε' : Type} (f : ε → ε') (h : w.Takes p n) :
    Takes (EStateM.adaptExcept f w) p n where
  isLocal := h.isLocal.adaptExcept f
  succeeds := by simpa only [result_adaptExcept, except_mapError_eq_ok_iff] using h.succeeds
  length bs hbs := by
    rw [result_adaptExcept, except_mapError_eq_ok_iff] at hbs
    exact h.length bs hbs

/-- A writer that takes back what it wrote when it fails. -/
theorem Takes.allOrNothing (h : w.Takes p n) : w.allOrNothing.Takes p n := by
  obtain ⟨hatomic, hresult⟩ := h.isLocal.allOrNothing
  exact ⟨hatomic.local, by rw [hresult, h.succeeds], by rw [hresult]; exact h.length⟩

/-- A writer that is refused beforehand unless something is small enough. -/
theorem Takes.guarded {size limit : Nat} {e : ε} (h : w.Takes p n) :
    (if size > limit then throw e else w : Write ε Unit).Takes (size ≤ limit ∧ p) n := by
  by_cases hsize : size > limit
  · rw [if_pos hsize]
    refine ⟨(atomic_throw e).local, ?_, fun bs hbs => by cases hbs⟩
    constructor
    · rintro ⟨_, hbs⟩
      cases hbs
    · exact fun hfits => absurd hfits.1 (Nat.not_le_of_lt hsize)
  · rw [if_neg hsize]
    exact h.congr (iff_and_self.mpr fun _ => Nat.le_of_not_lt hsize) rfl

theorem takes_blob (tag : Tag) (bs : Bytes) :
    (blob tag bs).Takes (bs.length ≤ maxUInt32) (5 + bs.length) := by
  refine (takes_append (tag.byteOf :: Bytes.littleEndian 4 bs.length ++ bs)).guarded.congr
    (and_iff_left trivial) ?_
  rw [List.length_append, List.length_cons, Bytes.length_littleEndian]

theorem takes_text (s : String) :
    (text s).Takes ((Bytes.ofText s).length ≤ maxUInt32) (5 + (Bytes.ofText s).length) :=
  (takes_blob .string _).adaptExcept _

theorem takes_token (t : Token) : (token t : Write ε Unit).Takes True 8 :=
  (takes_append _).congr Iff.rfl (Bytes.length_littleEndian 8 _)

/-- Content that starts with the number of its items. -/
theorem takes_counted {w : Write WireError Unit} (h : w.Takes p n) (items : Nat) :
    (do append (Bytes.ofUInt32 (← count items)); w : Write WireError Unit).Takes
      (items ≤ maxUInt32 ∧ p) (4 + n) := by
  rw [count_bind]
  refine ((takes_append _).seq h).guarded.congr (and_congr_right' (iff_of_eq (true_and p))) ?_
  rw [Bytes.ofUInt32, Bytes.length_littleEndian]

/-- A writer that adds all or nothing: it adds its bytes where it fits, and leaves the buffer alone
where it does not. -/
theorem Takes.all_or_nothing (h : w.Takes p n) (hatomic : w.Atomic) (b : Buffer) :
    p ∧ (∃ bs, w.result = .ok bs ∧ bs.length = n ∧ w b = .ok () (b.append bs)) ∨
      ¬p ∧ ∃ e, w b = .error e b := by
  have hb := hatomic b
  cases hw : w.result with
  | ok bs =>
    rw [hw] at hb
    exact .inl ⟨h.succeeds.mp ⟨bs, hw⟩, bs, rfl, h.length bs hw, hb⟩
  | error e =>
    rw [hw] at hb
    refine .inr ⟨fun hp => ?_, e, hb⟩
    obtain ⟨bs, hbs⟩ := h.succeeds.mpr hp
    cases hw.symm.trans hbs

end Write

/-! ### Values and records -/

namespace Value

/-- The number of bytes that are written for a value. -/
def wireSize : Value → Nat
  | bool _ => 1
  | byte _ => 2
  | char _ | short _ => 3
  | int _ | float _ => 5
  | long _ | double _ | object _ | objectWithData _ => 9
  | text s => 5 + (Bytes.ofText s).length
  | bytes bs => 5 + bs.length

/-- A string or a byte string is too long for its length field. -/
def TooLarge : Value → Prop
  | text s => maxUInt32 < (Bytes.ofText s).length
  | bytes bs => maxUInt32 < bs.length
  | _ => False

theorem takes_write (v : Value) : v.write.Takes (¬v.TooLarge) v.wireSize := by
  have hfixed (bs : Bytes) : (Write.append bs : Write CodecError Unit).Takes (¬False) bs.length :=
    (Write.takes_append bs).congr not_false_iff.symm rfl
  cases v with
  | text s => exact (Write.takes_blob _ _).congr Nat.not_lt.symm rfl
  | bytes bs => exact (Write.takes_blob _ _).congr Nat.not_lt.symm rfl
  | _ => exact hfixed _

end Value

namespace Record

/-- The number of bytes that are written for a record. -/
def wireSize (r : Record) : Nat := 3 + (r.args.map Value.wireSize).sum

/-- A record has too many arguments, or one that is too large. -/
def TooLarge (r : Record) : Prop := maxArgs < r.args.length ∨ ∃ v ∈ r.args, v.TooLarge

theorem takes_write (r : Record) : r.write.Takes (¬r.TooLarge) r.wireSize := by
  have hargs : (Value.writeAll r.args).Takes (∀ v ∈ r.args, ¬v.TooLarge)
      (r.args.map Value.wireSize).sum :=
    Write.Takes.all rfl (fun _ _ => rfl) Value.takes_write r.args
  have hparts := (Write.takes_append (head r.method r.argCount)).seq
    (hargs.adaptExcept WireError.ofCodec)
  refine hparts.allOrNothing.guarded.congr ?_ rfl
  simp only [TooLarge, not_or, not_exists, not_and, Nat.not_lt, true_and]
  rfl

theorem takes_writeAll (rs : List Record) :
    (writeAll rs).Takes (∀ r ∈ rs, ¬r.TooLarge) (rs.map wireSize).sum :=
  Write.Takes.all rfl (fun _ _ => rfl) takes_write rs

end Record

theorem Token.takes_writeAll (ts : List Token) : (writeAll ts).Takes True (8 * ts.length) := by
  refine (Write.Takes.all rfl (fun _ _ => rfl) Write.takes_token ts).congr (by simp) ?_
  simp [Nat.mul_comm]

/-! ### Messages -/

namespace Message

/-- The texts of a message. -/
def texts : Message → List String
  | registerMethod _ name => [name]
  | classInfo info => [info.signature, info.generic]
  | stringInfo _ text => [text]
  | threadInfo info => [info.name]
  | _ => []

/-- The number of items that a message counts. -/
def itemCount : Message → Nat
  | analyze _ records => records.length
  | objectFree tokens => tokens.length
  | _ => 0

/-- The number of bytes that are written for the body of a message. -/
def bodySize : Message → Nat
  | close => 0
  | analyze _ records => 12 + (records.map Record.wireSize).sum
  | objectFree tokens => 4 + 8 * tokens.length
  | registerMethod _ name => 2 + (Value.text name).wireSize
  | classInfo info => 24 + (Value.text info.signature).wireSize + (Value.text info.generic).wireSize
  | stringInfo _ text => 8 + (Value.text text).wireSize
  | threadInfo info => 8 + (Value.text info.name).wireSize + (Value.bool info.daemon).wireSize
  | threadEnd _ => 8

/-- A part of a message is too large, or there are too many parts, or all parts together are too
large. -/
def TooLarge (m : Message) : Prop :=
  (∃ r ∈ m.records, r.TooLarge) ∨ (∃ s ∈ m.texts, maxUInt32 < (Bytes.ofText s).length) ∨
    maxUInt32 < m.itemCount ∨ maxUInt32 < m.bodySize

/-- The parts of a message are within their limits. -/
def PartsFit (m : Message) : Prop :=
  (∀ r ∈ m.records, ¬r.TooLarge) ∧ (∀ s ∈ m.texts, (Bytes.ofText s).length ≤ maxUInt32) ∧
    m.itemCount ≤ maxUInt32

theorem not_tooLarge_iff {m : Message} :
    ¬m.TooLarge ↔ m.PartsFit ∧ m.bodySize ≤ maxUInt32 := by
  simp only [TooLarge, PartsFit, not_or, not_exists, not_and, Nat.not_lt, and_assoc]

private theorem takes_writeBody (m : Message) : m.writeBody.Takes m.PartsFit m.bodySize := by
  have hword (w : UInt64) : (Write.append (Bytes.ofUInt64 w) : Write WireError Unit).Takes True 8 :=
    (Write.takes_append _).congr Iff.rfl (Bytes.length_littleEndian 8 _)
  cases m with
  | close =>
    exact (Write.takes_append []).congr (by simp [PartsFit, records, texts, itemCount]) rfl
  | analyze ordering rs =>
    refine ((hword ordering).seq (Write.takes_counted (Record.takes_writeAll rs) rs.length)).congr
      ?_ ?_
    · simp [PartsFit, records, texts, itemCount, and_comm]
    · rw [bodySize, ← Nat.add_assoc]
  | objectFree tokens =>
    refine (Write.takes_counted (Token.takes_writeAll tokens) tokens.length).congr ?_ rfl
    simp [PartsFit, records, texts, itemCount]
  | registerMethod id name =>
    refine ((Write.takes_append _).seq (Write.takes_text name)).congr ?_ ?_
    · simp [PartsFit, records, texts, itemCount]
    · rw [bodySize, Bytes.ofUInt16, Bytes.length_littleEndian, Value.wireSize]
  | classInfo info =>
    refine ((Write.takes_token _).seq ((Write.takes_text _).seq ((Write.takes_text _).seq
      ((Write.takes_token _).seq (Write.takes_token _))))).congr ?_ ?_
    · simp [PartsFit, records, texts, itemCount]
    · rw [bodySize, Value.wireSize, Value.wireSize]
      omega
  | stringInfo subject text =>
    refine ((Write.takes_token _).seq (Write.takes_text _)).congr ?_ rfl
    simp [PartsFit, records, texts, itemCount]
  | threadInfo info =>
    refine ((Write.takes_token _).seq ((Write.takes_text _).seq
      ((Value.takes_write (.bool info.daemon)).adaptExcept _))).congr ?_ ?_
    · simp [PartsFit, records, texts, itemCount, Value.TooLarge]
    · rw [bodySize, Value.wireSize, Value.wireSize, Nat.add_assoc 8]
  | threadEnd ordering =>
    exact (hword ordering).congr (by simp [PartsFit, records, texts, itemCount]) rfl

theorem takes_write (m : Message) : m.write.Takes (¬m.TooLarge) (headSize + m.bodySize) := by
  have hbody := takes_writeBody m
  -- The parts are written first: the length of the body is judged only once they all fit.
  have hresult (bs : Bytes) : m.write.result = .ok bs ↔ ∃ body, m.writeBody.result = .ok body ∧
      m.bodySize ≤ maxUInt32 ∧ m.kind.byteOf :: Bytes.littleEndian 4 body.length ++ body = bs := by
    rw [(result_write m).2, except_bind_eq_ok_iff]
    refine exists_congr fun body => and_congr_right fun hok => ?_
    rw [hbody.length body hok]
    by_cases hsize : m.bodySize > maxUInt32
    · simp [if_pos hsize, Nat.not_le_of_lt hsize]
    · simp [if_neg hsize, Nat.le_of_not_lt hsize]
  refine ⟨(result_write m).1.local, ?_, fun bs hbs => ?_⟩
  · simp only [hresult, not_tooLarge_iff, ← hbody.succeeds]
    constructor
    · rintro ⟨_, body, hok, hsize, -⟩
      exact ⟨⟨body, hok⟩, hsize⟩
    · rintro ⟨⟨body, hok⟩, hsize⟩
      exact ⟨_, body, hok, hsize, rfl⟩
  · obtain ⟨body, hok, -, rfl⟩ := (hresult bs).1 hbs
    rw [List.length_append, List.length_cons, Bytes.length_littleEndian, hbody.length body hok,
      headSize]

end Message

/-! ### What is left of a failure -/

theorem Record.decode_of_write {r : Record} {bs : Bytes} (h : r.write.result = .ok bs) :
    decode bs = .ok r := by
  have hread : read bs = .ok r [] := read_eq_ok_iff.2 ⟨bs, h, (List.append_nil bs).symm⟩
  rw [decode, Read.whole, hread]

/-- **All or nothing, at the limits.** Whatever a buffer holds, a record, a record that was put
together of arguments some of which may have been refused, and a message is added behind it as a
whole, from which it is read back, unless it is too large: then the buffer is left alone. -/
theorem Write.all_or_nothing_at_limits (b : Buffer) :
    (∀ r : Record,
      ¬r.TooLarge ∧ (∃ bs, r.write b = .ok () (b.append bs) ∧ bs.length = r.wireSize ∧
        Record.decode bs = .ok r) ∨
      r.TooLarge ∧ ∃ e, r.write b = .error e b) ∧
    (∀ (method : MethodId) (args : List Value),
      let built := Step.attempts RecordBuilder.push (.start method) args
      built.2.length ≤ Record.maxArgs ∧ (∃ bs, built.1.finish b = .ok () (b.append bs) ∧
        Record.decode bs = .ok ⟨method, built.2⟩) ∨
      Record.maxArgs < built.2.length ∧ ∃ e, built.1.finish b = .error e b) ∧
    ∀ m : Message,
      ¬m.TooLarge ∧ (∃ body : Bytes, body.length = m.bodySize ∧
        m.write b = .ok () (b.append (m.kind.byteOf :: Bytes.littleEndian 4 body.length ++ body)) ∧
        Message.decode m.kind body = .ok m) ∨
      m.TooLarge ∧ ∃ e, m.write b = .error e b := by
  refine ⟨fun r => ?_, fun method args => ?_, fun m => ?_⟩
  · refine ((Record.takes_write r).all_or_nothing (Record.atomic_write r) b).imp ?_ ?_
    · rintro ⟨hfits, bs, hbs, hlength, hb⟩
      exact ⟨hfits, bs, hb, hlength, Record.decode_of_write hbs⟩
    · exact And.imp_left not_not.mp
  · intro built
    have hholds := RecordBuilder.holds_attempts method args
    obtain ⟨hatomic, hresult⟩ := RecordBuilder.finish_of_holds hholds
    have hwrite := RecordBuilder.result_write_of_holds hholds
    have hb := hatomic b
    rw [hresult] at hb
    by_cases hmany : built.2.length > Record.maxArgs
    · rw [if_pos hmany] at hwrite
      rw [hwrite] at hb
      exact .inr ⟨hmany, _, hb⟩
    · rw [if_neg hmany] at hwrite
      obtain ⟨bs, hbs⟩ := hwrite
      rw [hbs] at hb
      exact .inl ⟨Nat.le_of_not_lt hmany, bs, hb, Record.decode_of_write hbs⟩
  · refine ((Message.takes_write m).all_or_nothing (Message.result_write m).1 b).imp ?_ ?_
    · rintro ⟨hfits, bs, hbs, hlength, hb⟩
      obtain ⟨body, -, rfl, hdecode⟩ := Message.decode_of_toBytes ((Message.toBytes_eq m).trans hbs)
      rw [List.length_append, List.length_cons, Bytes.length_littleEndian] at hlength
      exact ⟨hfits, body, Nat.add_left_cancel hlength, hb, hdecode⟩
    · exact And.imp_left not_not.mp

end TraceRelay
