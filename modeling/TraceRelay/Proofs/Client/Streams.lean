import TraceRelay.Client.Stream
import TraceRelay.Proofs.Codec.Growing

/-!
# What streams hold back

A stream of records, and the stream of frees, hold back a list of items. The frame that leaves is
the one of the message with these items, and afterwards the stream holds nothing.

## Main definitions

* `RecordStream.Holds`, `FreeStream.Holds` : the items that a stream holds back.
* `RecordStream.SameGate` : two states of a stream that differ at most in what they hold.

## Main results

* `RecordStream.append_of_holds`, `FreeStream.append_of_holds` : one more item, or why not.
* `RecordStream.take_of_holds`, `FreeStream.take_of_holds` : the frame of all items.
-/

namespace TraceRelay

/-! ### Streams of records -/

namespace RecordStream

/-- The records that a stream holds back. -/
def Holds (s : RecordStream) (records : List Record) : Prop :=
  match s.batch with
  | none => records = []
  | some batch => batch.Holds s.ordering records

/-- Two states of a stream that differ at most in what they hold. -/
structure SameGate (s t : RecordStream) : Prop where
  ordering : t.ordering = s.ordering
  closed : t.closed = s.closed
  orphaned : t.orphaned = s.orphaned

variable {s : RecordStream} {records : List Record}

private theorem append_eq (b : RecordBuilder) (s : RecordStream) : append b s =
    if s.closed then .error .sessionClosed s
    else match AnalyzeBatch.pushWith b.finish (s.batch.getD (.start s.ordering)) with
      | .ok _ batch => .ok () { s with batch := some batch }
      | .error e batch => .error (.wire e) { s with batch := some batch } := rfl

/-- A stream that has ended takes no record. -/
theorem append_of_closed (hclosed : s.closed = true) (b : RecordBuilder) :
    append b s = .error .sessionClosed s := by
  rw [append_eq, if_pos hclosed]

/-- A stream that takes a record has something to send afterwards. Otherwise its fault is that it
has ended, or one of the record. -/
theorem append_cases (b : RecordBuilder) (s : RecordStream) :
    (∃ s', append b s = .ok () s' ∧ s.SameGate s' ∧ s'.take.1 ≠ .ok none) ∨
      ∃ e s', append b s = .error e s' ∧ s.SameGate s' ∧
        (e = .sessionClosed ∨ ∃ cause, e = .wire cause) := by
  rw [append_eq]
  split
  · exact .inr ⟨_, _, rfl, ⟨rfl, rfl, rfl⟩, .inl rfl⟩
  · cases hpush : AnalyzeBatch.pushWith b.finish (s.batch.getD (.start s.ordering)) with
    | error e batch => exact .inr ⟨_, _, rfl, ⟨rfl, rfl, rfl⟩, .inr ⟨e, rfl⟩⟩
    | ok _ batch =>
      refine .inl ⟨_, rfl, ⟨rfl, rfl, rfl⟩, ?_⟩
      have hsome := AnalyzeBatch.isEmpty_of_pushWith hpush
      simp only [take, hsome, Bool.false_eq_true, if_false]
      cases batch.finish <;> nofun

/-- One more record on a stream that has not ended. It is refused if it has too many arguments, or
if there are as many records as can be counted; then the stream holds what it held. -/
theorem append_of_holds (h : s.Holds records) (hopen : s.closed = false) {b : RecordBuilder}
    {r : Record} (hb : b.Holds r) :
    (∃ s', append b s = .ok () s' ∧ s'.Holds (records ++ [r]) ∧ s.SameGate s' ∧
      r.args.length ≤ Record.maxArgs) ∨
    ∃ e s', append b s = .error (.wire e) s' ∧ s'.Holds records ∧ s.SameGate s' ∧
      (e = .batchTooLarge ∧ records.length = maxUInt32 ∨
        e = .tooManyArgs r.args.length ∧ r.args.length > Record.maxArgs) := by
  have hbatch : (s.batch.getD (.start s.ordering)).Holds s.ordering records := by
    unfold Holds at h
    cases hs : s.batch with
    | none =>
      rw [hs] at h
      rw [show records = [] from h]
      exact AnalyzeBatch.holds_start s.ordering
    | some batch => rwa [hs] at h
  obtain ⟨hatomic, hresult⟩ := RecordBuilder.finish_of_holds hb
  have hpush := AnalyzeBatch.pushWith_of_holds hbatch hatomic hresult
  have hwrite := RecordBuilder.result_write_of_holds hb
  have hgate : ¬ s.closed = true := ne_true_of_eq_false hopen
  rw [append_eq, if_neg hgate]
  by_cases hfull : records.length = maxUInt32
  · rw [if_pos hfull] at hpush
    rw [hpush]
    exact .inr ⟨_, _, rfl, hbatch, ⟨rfl, rfl, rfl⟩, .inl ⟨rfl, hfull⟩⟩
  rw [if_neg hfull] at hpush
  by_cases hmany : r.args.length > Record.maxArgs
  · rw [if_pos hmany] at hwrite
    rw [hwrite] at hpush
    simp only at hpush
    rw [hpush]
    exact .inr ⟨_, _, rfl, hbatch, ⟨rfl, rfl, rfl⟩, .inr ⟨rfl, hmany⟩⟩
  · rw [if_neg hmany] at hwrite
    obtain ⟨bs, hbs⟩ := hwrite
    rw [hbs] at hpush
    obtain ⟨batch, hbatch', hholds⟩ := hpush
    rw [hbatch']
    exact .inl ⟨_, rfl, hholds, ⟨rfl, rfl, rfl⟩, Nat.le_of_not_lt hmany⟩

/-- The frame of all records, if there are any. -/
theorem take_of_holds (h : s.Holds records) :
    s.take.1 = (if records = [] then .ok none
      else some <$> (Message.analyze s.ordering records).toBytes) ∧
      s.take.2.Holds [] ∧ s.SameGate s.take.2 := by
  unfold Holds at h
  unfold take
  cases hs : s.batch with
  | none =>
    rw [hs] at h
    rw [if_pos (show records = [] from h)]
    exact ⟨rfl, rfl, rfl, rfl, rfl⟩
  | some batch =>
    rw [hs] at h
    have hbatch : batch.Holds s.ordering records := h
    refine ⟨?_, rfl, rfl, rfl, rfl⟩
    simp only [AnalyzeBatch.isEmpty_of_holds hbatch, List.isEmpty_iff,
      AnalyzeBatch.finish_of_holds hbatch]

theorem batch_take (s : RecordStream) : s.take.2.batch = none := by
  unfold take
  cases s.batch <;> rfl

/-- Records that a stream holds can only be too large for a frame. -/
theorem eq_batchTooLarge_of_toBytes (h : s.Holds records) (hsome : records ≠ []) {e : WireError}
    (he : (Message.analyze s.ordering records).toBytes = .error e) : e = .batchTooLarge := by
  unfold Holds at h
  cases hs : s.batch with
  | none =>
    rw [hs] at h
    exact absurd h hsome
  | some batch =>
    rw [hs] at h
    exact AnalyzeBatch.eq_batchTooLarge_of_toBytes (b := batch) h he

end RecordStream

/-! ### The stream of frees -/

namespace FreeStream

/-- The freed tokens that are held back. -/
def Holds (s : FreeStream) (tokens : List Token) : Prop := s.batch.Holds tokens

variable {s : FreeStream} {tokens : List Token}

private theorem append_eq (t : Token) (s : FreeStream) : append t s =
    if s.closed then .error .sessionClosed s
    else match FreeBatch.push t s.batch with
      | .ok _ batch => .ok () { s with batch }
      | .error e batch => .error (.wire e) { s with batch } := rfl

/-- A stream that has ended takes no token. -/
theorem append_of_closed (hclosed : s.closed = true) (t : Token) :
    append t s = .error .sessionClosed s := by
  rw [append_eq, if_pos hclosed]

/-- One more token on a stream that has not ended, unless there are as many as can be counted. -/
theorem append_of_holds (h : s.Holds tokens) (hopen : s.closed = false) (t : Token) :
    (∃ s', append t s = .ok () s' ∧ s'.Holds (tokens ++ [t]) ∧ s'.closed = s.closed) ∨
      append t s = .error (.wire .batchTooLarge) s := by
  have hpush := FreeBatch.push_of_holds h t
  have hgate : ¬ s.closed = true := ne_true_of_eq_false hopen
  rw [append_eq, if_neg hgate]
  by_cases hfull : tokens.length = maxUInt32
  · rw [if_pos hfull] at hpush
    rw [hpush]
    exact .inr rfl
  · rw [if_neg hfull] at hpush
    obtain ⟨batch, hbatch, hholds⟩ := hpush
    rw [hbatch]
    exact .inl ⟨_, rfl, hholds, rfl⟩

/-- The frame of all tokens, if there are any. -/
theorem take_of_holds (h : s.Holds tokens) :
    s.take.1 = (if tokens = [] then .ok none
      else some <$> (Message.objectFree tokens).toBytes) ∧
      s.take.2.Holds [] ∧ s.take.2.closed = s.closed := by
  have hempty : s.batch.isEmpty = tokens.isEmpty := FreeBatch.isEmpty_of_holds h
  unfold take
  by_cases hnone : tokens = []
  · subst hnone
    have hyes : s.batch.isEmpty = true := hempty
    rw [if_pos hyes, if_pos rfl]
    exact ⟨rfl, h, rfl⟩
  · have hsome : ¬ s.batch.isEmpty = true := by
      rw [hempty, List.isEmpty_iff]
      exact hnone
    rw [if_neg hsome, if_neg hnone]
    exact ⟨congrArg (some <$> ·) (FreeBatch.finish_of_holds h), FreeBatch.holds_empty, rfl⟩

end FreeStream

end TraceRelay
