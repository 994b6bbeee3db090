import TraceRelay.Proofs.Codec.Limits

/-!
# Batches that were pushed to

A batch grows by records and tokens that are pushed one after the other. Some of them may be
refused: they leave nothing behind and are not counted. Whatever was pushed, the batch leaves as the
message that is written at once for what was accepted.

## Main definitions

* `AnalyzeBatch.Addition` : a record that is added, as it is or put together first.

## Main results

* `AnalyzeBatch.holds_attempts`, `FreeBatch.holds_attempts` : a batch holds what was accepted.
* `FreeBatch.attempts_eq_take` : tokens are accepted as long as they can be counted.
* `OpenFrame.batches_eq_messages` : batches leave as messages.
-/

namespace TraceRelay

/-- A frame is as long when it is finished as it was while it was open. -/
theorem OpenFrame.length_of_finish {f : OpenFrame} {kind : MessageKind} {lead items frame : Bytes}
    {n : Nat} (h : f.Holds kind lead n items) (hframe : f.finish = .ok frame) :
    frame.length = f.buffer.size := by
  rw [finish_of_holds h] at hframe
  by_cases hlarge : lead.length + 4 + items.length > maxUInt32
  · rw [if_pos hlarge] at hframe
    cases hframe
  · rw [if_neg hlarge] at hframe
    cases hframe
    rw [← Buffer.length_toList, h.buffer]
    simp [Bytes.ofUInt32, Nat.add_comm, Nat.add_left_comm]

/-! ### Batches of records -/

namespace AnalyzeBatch

/-- A record that is added to a batch: as it is, or put together argument by argument. -/
inductive Addition where
  | whole (r : Record)
  | built (method : MethodId) (args : List Value)

namespace Addition

/-- The record. One that is put together has the arguments that were not refused. -/
def record : Addition → Record
  | whole r => r
  | built method args => ⟨method, (Step.attempts RecordBuilder.push (.start method) args).2⟩

/-- Adds the record. -/
def add : Addition → EStateM WireError AnalyzeBatch Unit
  | whole r => push r
  | built method args => pushWith (Step.attempts RecordBuilder.push (.start method) args).1.finish

/-- An addition writes its record, all or nothing. -/
theorem exists_writer (a : Addition) : ∃ w : Write WireError Unit,
    a.add = pushWith w ∧ w.Atomic ∧ w.result = a.record.write.result := by
  cases a with
  | whole r => exact ⟨r.write, rfl, Record.atomic_write r, rfl⟩
  | built method args =>
    exact ⟨_, rfl, RecordBuilder.finish_of_holds (RecordBuilder.holds_attempts method args)⟩

end Addition

/-- After any additions a batch holds the records that were accepted. -/
theorem holds_attempts (ordering : UInt64) (additions : List Addition) :
    (Step.attempts Addition.add (start ordering) additions).1.Holds ordering
      ((Step.attempts Addition.add (start ordering) additions).2.map Addition.record) := by
  have hstart : (start ordering).Holds ordering (([] : List Addition).map Addition.record) :=
    holds_start ordering
  refine Step.attempts_induction (P := fun b done => Holds b ordering (done.map Addition.record))
    (fun b done a h => ?_) hstart additions
  obtain ⟨w, hadd, hw, hresult⟩ := a.exists_writer
  have hpush := pushWith_of_holds h hw hresult
  rw [← hadd] at hpush
  by_cases hfull : (done.map Addition.record).length = maxUInt32
  · rw [if_pos hfull] at hpush
    rw [hpush]
    exact h
  · rw [if_neg hfull] at hpush
    cases hr : a.record.write.result with
    | error e =>
      rw [hr] at hpush
      rw [hpush]
      exact h
    | ok bs =>
      rw [hr] at hpush
      obtain ⟨b', hb', hholds⟩ := hpush
      rw [hb']
      change b'.Holds ordering ((done ++ [a]).map Addition.record)
      rw [List.map_append]
      exact hholds

end AnalyzeBatch

/-! ### Batches of tokens -/

namespace FreeBatch

/-- After any tokens a batch holds those that were accepted. -/
theorem holds_attempts (tokens : List Token) :
    (Step.attempts push empty tokens).1.Holds (Step.attempts push empty tokens).2 := by
  refine Step.attempts_induction (fun b done t h => ?_) holds_empty tokens
  have hpush := push_of_holds h t
  by_cases hfull : done.length = maxUInt32
  · rw [if_pos hfull] at hpush
    rw [hpush]
    exact h
  · rw [if_neg hfull] at hpush
    obtain ⟨b', hb', hholds⟩ := hpush
    rw [hb']
    exact hholds

/-- Tokens are accepted as long as they can be counted. -/
theorem attempts_eq_take {b : FreeBatch} {held : List Token} (h : b.Holds held)
    (tokens : List Token) :
    (Step.attempts push b tokens).2 = tokens.take (maxUInt32 - held.length) := by
  induction tokens generalizing b held with
  | nil => exact List.take_nil.symm
  | cons t tokens ih =>
    have hpush := push_of_holds h t
    have hlen : held.length ≤ maxUInt32 := by
      rw [← OpenFrame.Holds.items h]
      exact Nat.le_of_lt_succ b.frame.items.toNat_lt
    by_cases hfull : held.length = maxUInt32
    · rw [if_pos hfull] at hpush
      have hnone := ih h
      rw [hfull, Nat.sub_self, List.take_zero] at hnone ⊢
      simp only [Step.attempts, hpush]
      exact hnone
    · rw [if_neg hfull] at hpush
      obtain ⟨b', hb', hholds⟩ := hpush
      have hrest := ih hholds
      rw [List.length_append, List.length_singleton] at hrest
      have hroom : maxUInt32 - held.length = maxUInt32 - (held.length + 1) + 1 := by omega
      rw [hroom, List.take_succ_cons, ← hrest]
      simp only [Step.attempts, hb']
      rfl

/-- More tokens than can be counted make no message. -/
private theorem toBytes_of_length_gt {tokens : List Token} (h : tokens.length > maxUInt32) :
    (Message.objectFree tokens).toBytes = .error .batchTooLarge := by
  have hbody : (Message.objectFree tokens).writeBody.result = .error .batchTooLarge := by
    rw [Message.writeBody, Write.count_bind, if_pos h]
    rfl
  rw [Message.toBytes_eq, (Message.result_write _).2, hbody]
  rfl

/-- Tokens that were not accepted do not matter: with those that were, the frame is too large
already. -/
theorem finish_attempts (tokens : List Token) :
    (Step.attempts push empty tokens).1.finish = (Message.objectFree tokens).toBytes := by
  have hholds := holds_attempts tokens
  have htake : (Step.attempts push empty tokens).2 = tokens.take maxUInt32 :=
    attempts_eq_take holds_empty tokens
  by_cases hmany : tokens.length > maxUInt32
  · rw [toBytes_of_length_gt hmany]
    -- The batch is full, and a full batch is too large by its tokens alone.
    have hsize := (Token.takes_writeAll (tokens.take maxUInt32)).length _ (Token.result_writeAll _)
    rw [List.length_take_of_le (Nat.le_of_lt hmany)] at hsize
    refine (OpenFrame.finish_of_holds hholds).trans (if_pos ?_)
    rw [htake, hsize]
    omega
  · rw [finish_of_holds hholds, htake, List.take_of_length_le (Nat.le_of_not_lt hmany)]

end FreeBatch

/-! ### Batches as messages -/

/-- **Batches leave as messages.** Records are added to a batch, as they are or put together
argument by argument, and any of them may be refused: the batch counts those that were accepted, its
size is that of the finished frame, and it leaves as the message with them, or is too large as that
message is. Likewise a batch of tokens. -/
theorem OpenFrame.batches_eq_messages :
    (∀ (ordering : UInt64) (additions : List AnalyzeBatch.Addition),
      let added := Step.attempts AnalyzeBatch.Addition.add (.start ordering) additions
      let records := added.2.map AnalyzeBatch.Addition.record
      added.1.count.toNat = records.length ∧
        added.1.finish = (Message.analyze ordering records).toBytes ∧
        (∀ frame, added.1.finish = .ok frame → frame.length = added.1.size) ∧
        ∀ e, added.1.finish = .error e → e = .batchTooLarge) ∧
    ∀ tokens : List Token,
      let added := Step.attempts FreeBatch.push .empty tokens
      added.1.count.toNat = added.2.length ∧
        added.1.finish = (Message.objectFree added.2).toBytes ∧
        added.1.finish = (Message.objectFree tokens).toBytes ∧
        ∀ e, added.1.finish = .error e → e = .batchTooLarge := by
  constructor
  · intro ordering additions added records
    have hholds : added.1.Holds ordering records := AnalyzeBatch.holds_attempts ordering additions
    obtain ⟨items, -, hframe⟩ := hholds.frame
    exact ⟨hframe.items, AnalyzeBatch.finish_of_holds hholds,
      fun frame hfinish => length_of_finish hframe hfinish,
      fun e hfinish => eq_batchTooLarge_of_finish hframe hfinish⟩
  · intro tokens added
    have hholds : added.1.Holds added.2 := FreeBatch.holds_attempts tokens
    exact ⟨Holds.items hholds, FreeBatch.finish_of_holds hholds, FreeBatch.finish_attempts tokens,
      fun e hfinish => eq_batchTooLarge_of_finish hholds hfinish⟩

end TraceRelay
