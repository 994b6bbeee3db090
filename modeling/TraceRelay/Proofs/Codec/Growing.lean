import TraceRelay.Message.Batch
import TraceRelay.Proofs.Codec.Exact

/-!
# Frames that grow

An open frame has its content behind two fields that are still empty. What it holds is told by the
items that were added, and the frame that it becomes is the one that is written for a message with
these items. In the same way a record that is put together argument by argument is written as the
whole record would be.

## Main definitions

* `OpenFrame.Holds`, `AnalyzeBatch.Holds`, `FreeBatch.Holds` : what an open frame holds.
* `RecordBuilder.Holds` : the record that is being put together.

## Main results

* `OpenFrame.finish_of_holds` : the bytes of the finished frame.
* `AnalyzeBatch.finish_of_holds`, `FreeBatch.finish_of_holds` : a finished frame is that of a
  message.
* `RecordBuilder.holds_attempts` : a record has the arguments that were not refused.
* `RecordBuilder.finish_of_holds` : a finished record is written as a whole record is.
-/

namespace TraceRelay

/-! ### Open frames -/

namespace OpenFrame

/-- An open frame holds a number of items, written one after the other behind the lead. -/
structure Holds (f : OpenFrame) (kind : MessageKind) (lead : Bytes) (n : Nat) (items : Bytes) :
    Prop where
  buffer : f.buffer.toList = kind.byteOf :: [0, 0, 0, 0] ++ lead ++ [0, 0, 0, 0] ++ items
  length : f.length.position = 1
  count : f.count.position = Message.headSize + lead.length
  items : f.items.toNat = n

variable {f : OpenFrame} {kind : MessageKind} {lead items : Bytes} {n : Nat}

theorem holds_start (kind : MessageKind) (lead : Bytes) :
    (start kind lead).Holds kind lead 0 [] where
  buffer := by simp [start, start.reserve]
  length := rfl
  count := by
    change (((({} : Buffer).append [kind.byteOf]).append [0, 0, 0, 0]).append lead).size = _
    rw [← Buffer.length_toList]
    simp [Message.headSize]
    omega
  items := rfl

private theorem add_eq (w : Write WireError Unit) (f : OpenFrame) : add w f =
    if f.items.toNat = maxUInt32 then .error .batchTooLarge f
    else match w f.buffer with
      | .ok _ buffer => .ok () ⟨buffer, f.length, f.count, f.items + 1⟩
      | .error e buffer => .error e ⟨buffer, f.length, f.count, f.items⟩ := rfl

/-- One more item, unless there are as many as can be counted. A writer that fails adds nothing. -/
theorem add_of_holds (h : f.Holds kind lead n items) {w : Write WireError Unit} (hw : w.Atomic) :
    if n = maxUInt32 then add w f = .error .batchTooLarge f
    else match w.result with
      | .error e => add w f = .error e f
      | .ok bs => ∃ f', add w f = .ok () f' ∧ f'.Holds kind lead (n + 1) (items ++ bs) := by
  rw [add_eq, h.items]
  by_cases hfull : n = maxUInt32
  · rw [if_pos hfull, if_pos hfull]
  · rw [if_neg hfull, if_neg hfull, hw f.buffer]
    cases hr : w.result with
    | error e => rfl
    | ok bs =>
      refine ⟨_, rfl, ⟨?_, h.length, h.count, ?_⟩⟩
      · change (f.buffer.append bs).toList = _
        rw [Buffer.toList_append, h.buffer, List.append_assoc]
      · have hlt := f.items.toNat_lt
        have hone : (f.items + 1).toNat = f.items.toNat + 1 := by
          rw [UInt32.toNat_add]
          refine Nat.mod_eq_of_lt ?_
          have hn := h.items
          unfold maxUInt32 at hfull
          change f.items.toNat + 1 < 2 ^ 32
          omega
        rw [hone, h.items]

/-- With one more item there are some, as the number of items does not overflow. -/
theorem items_of_add {w : Write WireError Unit} {f' : OpenFrame} (h : add w f = .ok () f') :
    f'.items ≠ 0 := by
  rw [add_eq] at h
  split at h
  · cases h
  · next hfull =>
    split at h
    · cases h
      intro hzero
      have hlt := f.items.toNat_lt
      have hsum : (f.items + 1).toNat = 0 := congrArg UInt32.toNat hzero
      rw [UInt32.toNat_add] at hsum
      unfold maxUInt32 at hfull
      change (f.items.toNat + 1) % 2 ^ 32 = 0 at hsum
      omega
    · cases h

/-- The two fields are filled in: the length of the body and the number of items. -/
theorem finish_of_holds (h : f.Holds kind lead n items) :
    f.finish = if lead.length + 4 + items.length > maxUInt32 then .error .batchTooLarge
      else .ok (kind.byteOf :: Bytes.littleEndian 4 (lead.length + 4 + items.length) ++ lead ++
        Bytes.ofUInt32 (.ofNat n) ++ items) := by
  have hsize : f.buffer.size - Message.headSize = lead.length + 4 + items.length := by
    rw [← Buffer.length_toList, h.buffer]
    simp only [Message.headSize, List.length_append, List.length_cons, List.length_nil]
    omega
  have hitems : f.items = .ofNat n := by
    rw [← h.items, UInt32.ofNat_toNat]
  have hfill : f.finish = match (do
      let bodySize ← Write.count (lead.length + 4 + items.length)
      Write.ofValues (Write.patch f.count f.items)
      Write.ofValues (Write.patch f.length bodySize) : Write WireError Unit) f.buffer with
    | .ok _ b => .ok b.toList
    | .error e _ => .error e := by
    rw [← hsize]
    rfl
  rw [hfill, Write.count_bind]
  by_cases hlarge : lead.length + 4 + items.length > maxUInt32
  · rw [if_pos hlarge, if_pos hlarge]
    rfl
  · have hcount : f.count.position = (kind.byteOf :: [0, 0, 0, 0] ++ lead).length := by
      rw [h.count]
      simp only [Message.headSize, List.length_append, List.length_cons, List.length_nil]
    obtain ⟨b, hb, hbytes⟩ := Write.patch_of_le (v := f.items) h.buffer hcount rfl
    have hlength : b.toList = [kind.byteOf] ++ [0, 0, 0, 0] ++
        (lead ++ Bytes.ofUInt32 f.items ++ items) := by
      rw [hbytes]
      simp
    obtain ⟨b', hb', hbytes'⟩ := Write.patch_of_le
      (v := UInt32.ofNat (lead.length + 4 + items.length)) hlength h.length rfl
    have hrun : Write.ofValues (Write.patch f.count f.items) f.buffer = .ok () b :=
      Step.adaptExcept_eq_ok_iff.2 hb
    have hrun' : Write.ofValues (Write.patch f.length
        (UInt32.ofNat (lead.length + 4 + items.length))) b = .ok () b' :=
      Step.adaptExcept_eq_ok_iff.2 hb'
    rw [if_neg hlarge, if_neg hlarge, Step.bind_of_ok hrun, hrun']
    simp only [hbytes', Write.ofUInt32_ofNat (Nat.le_of_not_lt hlarge), hitems]
    simp

/-- A frame that grew as it should can only be too large. -/
theorem eq_batchTooLarge_of_finish (h : f.Holds kind lead n items) {e : WireError}
    (he : f.finish = .error e) : e = .batchTooLarge := by
  rw [finish_of_holds h] at he
  by_cases hlarge : lead.length + 4 + items.length > maxUInt32
  · rw [if_pos hlarge] at he
    exact (Except.error.inj he).symm
  · rw [if_neg hlarge] at he
    cases he

end OpenFrame

/-! ### Batches of records -/

namespace AnalyzeBatch

/-- A batch holds records that share an ordering id. -/
structure Holds (b : AnalyzeBatch) (ordering : UInt64) (records : List Record) : Prop where
  ordering_eq : b.ordering = ordering
  frame : ∃ items, (Record.writeAll records).result = .ok items ∧
    b.frame.Holds .analyze (Bytes.ofUInt64 ordering) records.length items

variable {b : AnalyzeBatch} {ordering : UInt64} {records : List Record}

theorem holds_start (ordering : UInt64) : (start ordering).Holds ordering [] where
  ordering_eq := rfl
  frame := ⟨[], rfl, OpenFrame.holds_start _ _⟩

theorem isEmpty_of_holds (h : b.Holds ordering records) : b.isEmpty = records.isEmpty := by
  obtain ⟨items, -, hframe⟩ := h.frame
  have hzero : b.frame.items = 0 ↔ records = [] := by
    rw [← UInt32.toNat_inj, hframe.items]
    exact List.length_eq_zero_iff
  rw [Bool.eq_iff_iff, List.isEmpty_iff, ← hzero]
  exact beq_iff_eq

private theorem pushWith_eq (w : Write WireError Unit) (b : AnalyzeBatch) : pushWith w b =
    match OpenFrame.add w b.frame with
    | .ok _ frame => .ok () ⟨b.ordering, frame⟩
    | .error e frame => .error e ⟨b.ordering, frame⟩ := rfl

/-- One more record, unless there are as many as can be counted. A record that is refused leaves no
trace. -/
theorem pushWith_of_holds (h : b.Holds ordering records) {w : Write WireError Unit} {r : Record}
    (hw : w.Atomic) (hr : w.result = r.write.result) :
    if records.length = maxUInt32 then pushWith w b = .error .batchTooLarge b
    else match r.write.result with
      | .error e => pushWith w b = .error e b
      | .ok _ => ∃ b', pushWith w b = .ok () b' ∧ b'.Holds ordering (records ++ [r]) := by
  obtain ⟨items, hitems, hframe⟩ := h.frame
  have hadd := OpenFrame.add_of_holds hframe hw
  rw [pushWith_eq]
  by_cases hfull : records.length = maxUInt32
  · rw [if_pos hfull] at hadd ⊢
    rw [hadd]
  · rw [if_neg hfull] at hadd ⊢
    rw [hr] at hadd
    cases hbytes : r.write.result with
    | error e =>
      rw [hbytes] at hadd
      simp only at hadd ⊢
      rw [hadd]
    | ok bs =>
      rw [hbytes] at hadd
      obtain ⟨frame, hframe', hholds⟩ := hadd
      refine ⟨⟨b.ordering, frame⟩, by rw [hframe'], h.ordering_eq, items ++ bs,
        Record.result_writeAll_concat hitems hbytes, ?_⟩
      rw [List.length_append, List.length_singleton]
      exact hholds

theorem isEmpty_of_pushWith {w : Write WireError Unit} {b' : AnalyzeBatch}
    (h : pushWith w b = .ok () b') : b'.isEmpty = false := by
  rw [pushWith_eq] at h
  split at h
  · next hadd =>
    cases h
    exact beq_eq_false_iff_ne.2 (OpenFrame.items_of_add hadd)
  · cases h

/-- **A batch leaves as the message with its records.** -/
theorem finish_of_holds (h : b.Holds ordering records) :
    b.finish = (Message.analyze ordering records).toBytes := by
  obtain ⟨items, hitems, hframe⟩ := h.frame
  have hlen : records.length ≤ maxUInt32 := by
    rw [← hframe.items]
    exact Nat.le_of_lt_succ b.frame.items.toNat_lt
  have hbody : (Message.analyze ordering records).writeBody.result = .ok (Bytes.ofUInt64 ordering ++
      (Bytes.ofUInt32 (.ofNat records.length) ++ items)) :=
    Message.result_analyze_eq_ok_iff.2 ⟨hlen, items, hitems, rfl⟩
  have hsize : (Bytes.ofUInt64 ordering ++
      (Bytes.ofUInt32 (.ofNat records.length) ++ items)).length =
        (Bytes.ofUInt64 ordering).length + 4 + items.length := by
    simp only [List.length_append, Bytes.ofUInt32, Bytes.length_littleEndian]
    omega
  rw [Message.toBytes_eq, (Message.result_write _).2, hbody]
  change b.frame.finish = if _ > maxUInt32 then _ else _
  rw [OpenFrame.finish_of_holds hframe, hsize]
  simp [Message.kind]

theorem eq_batchTooLarge_of_toBytes (h : b.Holds ordering records) {e : WireError}
    (he : (Message.analyze ordering records).toBytes = .error e) : e = .batchTooLarge := by
  obtain ⟨items, -, hframe⟩ := h.frame
  exact OpenFrame.eq_batchTooLarge_of_finish hframe ((finish_of_holds h).trans he)

end AnalyzeBatch

/-! ### Batches of tokens -/

namespace FreeBatch

/-- A batch holds freed tokens. -/
def Holds (b : FreeBatch) (tokens : List Token) : Prop :=
  b.frame.Holds .objectFree [] tokens.length (tokens.flatMap fun t => Bytes.ofUInt64 t.word)

variable {b : FreeBatch} {tokens : List Token}

theorem holds_empty : empty.Holds [] := OpenFrame.holds_start _ _

theorem isEmpty_of_holds (h : b.Holds tokens) : b.isEmpty = tokens.isEmpty := by
  have hzero : b.frame.items = 0 ↔ tokens = [] := by
    rw [← UInt32.toNat_inj, OpenFrame.Holds.items h]
    exact List.length_eq_zero_iff
  rw [Bool.eq_iff_iff, List.isEmpty_iff, ← hzero]
  exact beq_iff_eq

private theorem push_eq (t : Token) (b : FreeBatch) : push t b =
    match OpenFrame.add (Write.token t) b.frame with
    | .ok _ frame => .ok () ⟨frame⟩
    | .error e frame => .error e ⟨frame⟩ := rfl

/-- One more token, unless there are as many as can be counted. -/
theorem push_of_holds (h : b.Holds tokens) (t : Token) :
    if tokens.length = maxUInt32 then push t b = .error .batchTooLarge b
    else ∃ b', push t b = .ok () b' ∧ b'.Holds (tokens ++ [t]) := by
  have hadd := OpenFrame.add_of_holds h (Write.atomic_token t)
  rw [push_eq]
  by_cases hfull : tokens.length = maxUInt32
  · rw [if_pos hfull] at hadd ⊢
    rw [hadd]
  · rw [if_neg hfull, Write.result_token] at hadd
    obtain ⟨frame, hframe, hholds⟩ := hadd
    rw [if_neg hfull]
    refine ⟨⟨frame⟩, by rw [hframe], ?_⟩
    rw [Holds, List.length_append, List.length_singleton, List.flatMap_append,
      List.flatMap_singleton]
    exact hholds

/-- **A batch leaves as the message with its tokens.** -/
theorem finish_of_holds (h : b.Holds tokens) : b.finish = (Message.objectFree tokens).toBytes := by
  have hlen : tokens.length ≤ maxUInt32 := by
    rw [← OpenFrame.Holds.items h]
    exact Nat.le_of_lt_succ b.frame.items.toNat_lt
  have hbody : (Message.objectFree tokens).writeBody.result = .ok
      (Bytes.ofUInt32 (.ofNat tokens.length) ++ tokens.flatMap fun t => Bytes.ofUInt64 t.word) :=
    (Write.result_counted_eq_ok_iff (Token.local_writeAll tokens)).2
      ⟨hlen, _, Token.result_writeAll tokens, rfl⟩
  have hsize : (Bytes.ofUInt32 (.ofNat tokens.length) ++
      tokens.flatMap fun t => Bytes.ofUInt64 t.word).length =
        ([] : Bytes).length + 4 + (tokens.flatMap fun t => Bytes.ofUInt64 t.word).length := by
    rw [List.length_append, Bytes.ofUInt32, Bytes.length_littleEndian, List.length_nil]
  rw [Message.toBytes_eq, (Message.result_write _).2, hbody]
  change b.frame.finish = if _ > maxUInt32 then _ else _
  rw [OpenFrame.finish_of_holds h, hsize]
  simp [Message.kind]

theorem eq_batchTooLarge_of_toBytes (h : b.Holds tokens) {e : WireError}
    (he : (Message.objectFree tokens).toBytes = .error e) : e = .batchTooLarge :=
  OpenFrame.eq_batchTooLarge_of_finish h ((finish_of_holds h).trans he)

end FreeBatch

/-! ### Records that are put together -/

namespace RecordBuilder

/-- The record that is being put together. -/
structure Holds (b : RecordBuilder) (r : Record) : Prop where
  method : b.method = r.method
  count : b.count = r.args.length
  body : (Value.writeAll r.args).result = .ok b.body.toList

variable {b : RecordBuilder} {r : Record}

theorem holds_start (id : MethodId) : (start id).Holds ⟨id, []⟩ := ⟨rfl, rfl, rfl⟩

private theorem push_eq (v : Value) (b : RecordBuilder) : push v b =
    match v.write b.body with
    | .ok _ body => .ok () ⟨b.method, b.count + 1, body⟩
    | .error e body => .error (.ofCodec e) ⟨b.method, b.count, body⟩ := rfl

/-- One more argument. An argument that is refused leaves no trace. -/
theorem push_of_holds (h : b.Holds r) (v : Value) :
    match v.write.result with
    | .error e => push v b = .error (.ofCodec e) b
    | .ok _ => ∃ b', push v b = .ok () b' ∧ b'.Holds ⟨r.method, r.args ++ [v]⟩ := by
  rw [push_eq, v.atomic_write b.body]
  cases hv : v.write.result with
  | error e => rfl
  | ok bs =>
    refine ⟨_, rfl, h.method, ?_, ?_⟩
    · rw [List.length_append, List.length_singleton, ← h.count]
    · change _ = Except.ok (b.body.append bs).toList
      rw [Buffer.toList_append]
      exact Value.result_writeAll_concat h.body hv

/-- A record that is put together has the arguments that were not refused. -/
theorem holds_attempts (method : MethodId) (args : List Value) :
    (Step.attempts push (start method) args).1.Holds
      ⟨method, (Step.attempts push (start method) args).2⟩ := by
  refine Step.attempts_induction (P := fun b done => Holds b ⟨method, done⟩) (fun b done v h => ?_)
    (holds_start method) args
  have hpush := push_of_holds h v
  cases hv : v.write.result with
  | error e =>
    rw [hv] at hpush
    rw [hpush]
    exact h
  | ok bs =>
    rw [hv] at hpush
    obtain ⟨b', hb', hholds⟩ := hpush
    rw [hb']
    exact hholds

/-- **A finished record is written as the whole record is**, or refused for the same reason. -/
theorem finish_of_holds (h : b.Holds r) : b.finish.Atomic ∧ b.finish.result = r.write.result := by
  by_cases hmany : r.args.length > Record.maxArgs
  · have hfinish : b.finish = throw (.tooManyArgs r.args.length) := by
      rw [finish, h.count, if_pos hmany]
    have hwrite : r.write = throw (.tooManyArgs r.args.length) := if_pos hmany
    rw [hfinish, hwrite]
    exact ⟨Write.atomic_throw _, rfl⟩
  · have hfinish : b.finish =
        Write.append (Record.head r.method r.args.length ++ b.body.toList) := by
      rw [finish, h.count, h.method, if_neg hmany, Write.appendWith_eq]
    have hwrite := Record.result_write_eq_ok_iff.2 ⟨Nat.le_of_not_lt hmany, _, h.body, rfl⟩
    rw [hfinish, hwrite]
    exact ⟨Write.atomic_append _, Write.result_append _⟩

/-- A record that was put together is refused only if it has too many arguments. -/
theorem result_write_of_holds (h : b.Holds r) :
    if r.args.length > Record.maxArgs then r.write.result = .error (.tooManyArgs r.args.length)
    else ∃ bs, r.write.result = .ok bs := by
  by_cases hmany : r.args.length > Record.maxArgs
  · have hwrite : r.write = throw (.tooManyArgs r.args.length) := if_pos hmany
    rw [if_pos hmany, hwrite]
    rfl
  · rw [if_neg hmany]
    exact ⟨_, Record.result_write_eq_ok_iff.2 ⟨Nat.le_of_not_lt hmany, _, h.body, rfl⟩⟩

end RecordBuilder

end TraceRelay
