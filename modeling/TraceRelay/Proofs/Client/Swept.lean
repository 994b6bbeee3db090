import TraceRelay.Proofs.Client.Account
import TraceRelay.Proofs.Client.Leftover

/-!
# What is sent before frees

Frees are sent after the streams that were looked up for them. Each stream that held something back
when the looking up began is still to be sent, or was sent since, or no thread has it any more and
it is about to end. That is so whatever other threads do meanwhile.

## Main definitions

* `Settled` : a stream need not be sent any more.
* `Job.Covers` : a job will send a stream, or leave a job that does.
* `Guarded` : each stream is settled, or will be sent before the frees.

## Main results

* `Guarded.shift` : other threads do not change that.
* `Guarded.step` : neither does the next job.
* `Guarded.settled` : when it is the turn of the frees, each stream is settled.
-/

namespace TraceRelay

/-- What a stream holds back was accepted at some moment or later, or no thread has the stream any
more, and it is about to end. -/
def Settled (c : Client) (held : StreamRef → List Accepted) (since : Nat) (ref : StreamRef) :
    Prop :=
  ref ∈ c.leaving ∨ ∀ e ∈ held ref, since ≤ e.moment

namespace Job

/-- A job will send what a stream holds back, or leave a job that does. -/
def Covers (parts : Parts) (c : Client) (ref : StreamRef) : Job → Prop
  | .visit _ other | .seal other | .close other => ref = other
  | .detach thread => (thread, ref) ∈ c.ownRefs
  | .sealAll _ => ref ∈ Client.sharedRefs ∨ ∃ thread, (thread, ref) ∈ c.ownRefs
  | .collect _ part found _ => ref ∈ Client.sharedRefs ∨ (∃ entry ∈ found, entry.2 = ref) ∨
      ∃ thread, (thread, ref) ∈ c.ownRefs ∧ part ≤ (parts.of thread).val
  | _ => False

end Job

/-- Each stream is settled, or will be sent before the frees. -/
def Guarded (parts : Parts) (c : Client) (held : StreamRef → List Accepted) (jobs : List Job) :
    Prop :=
  ∀ job ∈ jobs, ∀ since, job.since? = some since →
    ∀ ref, (∃ other ∈ jobs, other.Covers parts c ref) ∨ Settled c held since ref

variable {parts : Parts} {thread : ThreadId} {now since : Nat} {c c' : Client}
  {held held' : StreamRef → List Accepted} {ref : StreamRef} {job : Job} {rest more : List Job}

/-! ### Settled streams -/

theorem Client.mem_leaving {c : Client} {p : Nat} : StreamRef.own p ∈ c.leaving ↔
    p < c.own.size ∧ (c.stream (.own p)).closed = false ∧
      ∀ thread : ThreadId, c.streamOf[thread]? ≠ some p := by
  have hany : (c.ownRefs.any fun entry => entry.2 == StreamRef.own p) = false ↔
      ∀ thread : ThreadId, c.streamOf[thread]? ≠ some p := by
    rw [List.any_eq_false]
    constructor
    · intro h thread hp
      exact h (thread, .own p) (Client.mem_ownRefs.2 ⟨p, rfl, hp⟩) (beq_self_eq_true _)
    · rintro h ⟨thread, ref⟩ hentry heq
      obtain ⟨q, rfl, hq⟩ := Client.mem_ownRefs.1 hentry
      cases eq_of_beq heq
      exact h thread hq
  rw [leaving, List.mem_filter, List.mem_map, Bool.and_eq_true, Bool.not_eq_true',
    Bool.not_eq_true', hany]
  constructor
  · rintro ⟨⟨q, hq, heq⟩, h⟩
    cases heq
    exact ⟨List.mem_range.1 hq, h⟩
  · rintro ⟨hp, h⟩
    exact ⟨⟨p, List.mem_range.2 hp, rfl⟩, h⟩

theorem Faithful.held_of_batch (h : Faithful now c held) (hbatch : (c.stream ref).batch = none) :
    held ref = [] := by
  have hholds := h.holds ref
  rw [RecordStream.Holds, hbatch] at hholds
  exact List.map_eq_nil_iff.1 hholds

theorem settled_of_empty (h : held ref = []) : Settled c held since ref := by
  refine .inr fun e he => ?_
  rw [h] at he
  cases he

/-- A stream that no thread has is settled. -/
theorem Faithful.settled (h : Faithful now c held) {p : Nat}
    (hnone : ∀ thread : ThreadId, c.streamOf[thread]? ≠ some p) :
    Settled c held since (.own p) := by
  by_cases hp : p < c.own.size
  · cases hclosed : (c.stream (.own p)).closed with
    | true => exact settled_of_empty (h.ended _ hclosed)
    | false => exact .inl (Client.mem_leaving.2 ⟨hp, hclosed, hnone⟩)
  · refine settled_of_empty (h.held_of_batch ?_)
    change (c.own[p]?.getD _).batch = none
    rw [Array.getElem?_eq_none_iff.2 (Nat.le_of_not_lt hp)]
    rfl

/-- Streams get no records but those that are accepted now. -/
theorem Shift.entries (h : Shift now c held c' held') {e : Accepted} (he : e ∈ held' ref) :
    e ∈ held ref ∨ e.moment = now := by
  cases h with
  | same | obtain | detach => exact .inl he
  | set hc href hordering hholds hentries hclosed hended =>
    rw [Function.update_apply] at he
    split at he
    · next heq =>
      rw [heq]
      exact hentries e he
    · exact .inl he

theorem Settled.shift (hafter : Faithful (now + 1) c' held') (hshift : Shift now c held c' held')
    (hsince : since ≤ now) (h : Settled c held since ref) : Settled c' held' since ref := by
  rcases h with hleaving | hheld
  · cases ref with
    | shared i =>
      rw [Client.leaving, List.mem_filter, List.mem_map] at hleaving
      obtain ⟨⟨_, -, heq⟩, -⟩ := hleaving
      cases heq
    | own p =>
      obtain ⟨hp, -, hnone⟩ := Client.mem_leaving.1 hleaving
      exact hafter.settled fun t ht => hnone t (hshift.owner hp ht)
  · refine .inr fun e he => ?_
    rcases hshift.entries he with hold | hnow
    · exact hheld e hold
    · rw [hnow]
      exact hsince

/-! ### Covered streams -/

/-- A thread keeps its stream, or the stream is settled. -/
private theorem owned_or_settled (hplaced : c.Placed) (hafter : Faithful (now + 1) c' held')
    (hshift : Shift now c held c' held') (h : (thread, ref) ∈ c.ownRefs) :
    (thread, ref) ∈ c'.ownRefs ∨ Settled c' held' since ref := by
  obtain ⟨p, rfl, hp⟩ := Client.mem_ownRefs.1 h
  by_cases hkept : c'.streamOf[thread]? = some p
  · exact .inl (Client.mem_ownRefs.2 ⟨p, rfl, hkept⟩)
  · refine .inr (hafter.settled fun t ht => hkept ?_)
    have heq := hplaced.single t thread p (hshift.owner (hplaced.inRange thread p hp) ht) hp
    rwa [heq] at ht

theorem Job.Covers.shift (hplaced : c.Placed) (hafter : Faithful (now + 1) c' held')
    (hshift : Shift now c held c' held') (h : job.Covers parts c ref) :
    job.Covers parts c' ref ∨ Settled c' held' since ref := by
  cases job with
  | visit _ other | «seal» other | close other => exact .inl h
  | detach thread => exact owned_or_settled hplaced hafter hshift h
  | sealAll occasion =>
    rcases h with hshared | ⟨t, ht⟩
    · exact .inl (.inl hshared)
    · exact (owned_or_settled hplaced hafter hshift ht).imp_left fun h => .inr ⟨t, h⟩
  | collect occasion part found =>
    rcases h with hshared | hfound | ⟨t, ht, hpart⟩
    · exact .inl (.inl hshared)
    · exact .inl (.inr (.inl hfound))
    · exact (owned_or_settled hplaced hafter hshift ht).imp_left fun h => .inr (.inr ⟨t, h, hpart⟩)
  | _ => exact h.elim

/-- All streams are covered when all are to be sent, but those that are settled. -/
theorem Faithful.covers_sealAll (h : Faithful now c held) (occasion : Occasion) (since : Nat)
    (ref : StreamRef) : (Job.sealAll occasion).Covers parts c ref ∨ Settled c held since ref := by
  cases ref with
  | shared i => exact .inl (.inl (Ledger.mem_sharedRefs i))
  | own p =>
    by_cases howned : ∃ t : ThreadId, c.streamOf[t]? = some p
    · obtain ⟨t, ht⟩ := howned
      exact .inl (.inr ⟨t, Client.mem_ownRefs.2 ⟨p, rfl, ht⟩⟩)
    · exact .inr (h.settled fun t ht => howned ⟨t, ht⟩)

namespace Job

/-- What was found, and what is shared, is to be sent. -/
private theorem covers_visits {found : List (ThreadId × StreamRef)} (occasion : Occasion)
    (h : ref ∈ Client.sharedRefs ∨ ∃ entry ∈ found, entry.2 = ref) :
    ∃ next ∈ visits found occasion, next.Covers parts c ref := by
  rcases h with hshared | ⟨entry, hentry, heq⟩
  · cases occasion with
    | shutdown =>
      exact ⟨.close ref, List.mem_append_right _ (List.mem_map_of_mem hshared), rfl⟩
    | full | flush =>
      exact ⟨.seal ref, List.mem_append_right _ (List.mem_map_of_mem hshared), rfl⟩
  · cases occasion with
    | shutdown =>
      exact ⟨.close entry.2, List.mem_append_left _ (List.mem_map.2 ⟨entry, hentry, rfl⟩), heq.symm⟩
    | full | flush =>
      exact ⟨.visit entry.1 entry.2, List.mem_append_left _ (List.mem_map.2 ⟨entry, hentry, rfl⟩),
        heq.symm⟩

/-- No stream is forgotten from one part to the next. -/
private theorem covers_lookUp {occasion : Occasion} {part : Nat}
    {found : List (ThreadId × StreamRef)}
    (hlookUp : lookUp parts occasion part found since c = .ok more c')
    (h : (Job.collect occasion part found since).Covers parts c ref) :
    ∃ next ∈ more, next.Covers parts c' ref := by
  obtain ⟨rfl, found', hfound', hmore⟩ := lookUp_cases hlookUp
  -- A stream that a thread has is found now, or its part is still to be looked at.
  have hcases : ref ∈ Client.sharedRefs ∨ (∃ entry ∈ found', entry.2 = ref) ∨
      ∃ t, (t, ref) ∈ c'.ownRefs ∧ part + 1 ≤ (parts.of t).val := by
    rw [hfound']
    rcases h with hshared | ⟨entry, hentry, heq⟩ | ⟨t, ht, hpart⟩
    · exact .inl hshared
    · exact .inr (.inl ⟨entry, List.mem_append_left _ hentry, heq⟩)
    · rcases Nat.lt_or_eq_of_le hpart with hlater | hnow
      · exact .inr (.inr ⟨t, ht, hlater⟩)
      · have hmem : (t, ref) ∈ c'.ownRefs.filter fun entry => (parts.of entry.1).val == part :=
          List.mem_filter.2 ⟨ht, beq_iff_eq.2 hnow.symm⟩
        exact .inr (.inl ⟨(t, ref), List.mem_append_right _ hmem, rfl⟩)
  rcases hmore with ⟨-, rfl⟩ | ⟨hlast, rfl⟩
  · exact ⟨_, List.mem_singleton_self _, hcases⟩
  · have hfound : ref ∈ Client.sharedRefs ∨ ∃ entry ∈ found', entry.2 = ref := by
      rcases hcases with hshared | hfound | ⟨t, -, hpart⟩
      · exact .inl hshared
      · exact .inr hfound
      · exact absurd (Nat.lt_of_le_of_lt (Nat.le_trans hlast hpart) (parts.of t).isLt)
          (Nat.lt_irrefl _)
    obtain ⟨next, hnext, hcovers⟩ : ∃ next ∈ visits found' occasion, next.Covers parts c' ref :=
      covers_visits occasion hfound
    exact ⟨next, List.mem_append_left _ hnext, hcovers⟩

/-- A stream that was sent is empty. -/
private theorem batch_of_sends (hsize : c.shared.size = Message.sharedOrderings) (href : c.Has ref)
    {frame : Except WireError (Option Bytes)} {s : RecordStream} (hbatch : s.batch = none)
    (h : Client.Sends frame (c.setStream ref s) (.ok ⟨⟩ c')) : (c'.stream ref).batch = none := by
  obtain ⟨frame', hfinal, -⟩ := h.final
  have hc : c' = (c.setStream ref s).posted frame' := hfinal
  rw [hc, (Client.sameStreams_posted _ frame').stream,
    Client.stream_setStream_of_has hsize href, if_pos rfl]
  exact hbatch

/-- **A stream that a job covers** is sent by it, or by what is left of it. -/
theorem Leaves.covers (h : Leaves parts thread now c c' job more) (hplaced : c.Placed)
    (hafter : Faithful (now + 1) c' held') (hfits : job.Fits c) (hcovers : job.Covers parts c ref) :
    (∃ next ∈ more, next.Covers parts c' ref) ∨ Settled c' held' since ref := by
  cases h with
  | looksUp occasion hlookUp =>
    refine .inl (covers_lookUp hlookUp ?_)
    exact hcovers.imp_right fun ⟨t, ht⟩ => .inr ⟨t, ht, Nat.zero_le _⟩
  | looksOn occasion part found since hlookUp => exact .inl (covers_lookUp hlookUp hcovers)
  | visited other ref' hseal =>
    cases hcovers
    have hsends := Client.sealStream_sends ref c
    rw [hseal] at hsends
    exact .inr (settled_of_empty (hafter.held_of_batch
      (batch_of_sends hplaced.size_shared hfits.has (RecordStream.batch_take _) hsends)))
  | sealed ref' hseal =>
    cases hcovers
    have hsends := Client.sealStream_sends ref c
    rw [hseal] at hsends
    exact .inr (settled_of_empty (hafter.held_of_batch
      (batch_of_sends hplaced.size_shared hfits (RecordStream.batch_take _) hsends)))
  | closed ref' hclose =>
    cases hcovers
    have hsends := Client.closeStream_sends hplaced.size_shared hfits
    rw [hclose] at hsends
    exact .inr (settled_of_empty (hafter.held_of_batch (batch_of_sends hplaced.size_shared hfits
      (s := { (c.stream ref).take.2 with closed := true }) (RecordStream.batch_take _) hsends)))
  | orphaned other ref' hc =>
    cases hcovers
    subst hc
    obtain ⟨p, rfl, hp, howner⟩ := hfits
    by_cases howned : c'.streamOf[other]? = some p
    · exact .inl ⟨_, List.mem_singleton_self _, Client.mem_ownRefs.2 ⟨p, rfl, howned⟩⟩
    · refine .inr (hafter.settled fun t ht => howned ?_)
      rwa [howner t ht] at ht
  | detachedBefore other hnone =>
    obtain ⟨p, -, hp⟩ := Client.mem_ownRefs.1 hcovers
    cases hnone.symm.trans hp
  | detached other hsome hown =>
    obtain ⟨q, rfl, hq⟩ := Client.mem_ownRefs.1 hcovers
    cases hsome.symm.trans hq
    exact .inl ⟨_, List.mem_cons_self, rfl⟩
  | _ => exact hcovers.elim

end Job

/-! ### Guarded frees -/

namespace Guarded

theorem shift (hplaced : c.Placed) (hafter : Faithful (now + 1) c' held')
    (hshift : Shift now c held c' held')
    (hbefore : ∀ job ∈ rest, ∀ since, job.since? = some since → since ≤ now)
    (h : Guarded parts c held rest) : Guarded parts c' held' rest := by
  intro job hjob since hsince ref
  rcases h job hjob since hsince ref with ⟨other, hother, hcovers⟩ | hsettled
  · exact (hcovers.shift hplaced hafter hshift).imp_left fun h => ⟨other, hother, h⟩
  · exact .inr (hsettled.shift hafter hshift (hbefore job hjob since hsince))

/-- The next job is done, which leaves others. -/
theorem step (hbefore : ∀ job' ∈ job :: rest, ∀ since, job'.since? = some since → since ≤ now)
    (hfaithful : Faithful now c held) (hafter : Faithful (now + 1) c' held')
    (hshift : Shift now c held c' held') (hfits : job.Fits c)
    (hleaves : Job.Leaves parts thread now c c' job more) (h : Guarded parts c held (job :: rest)) :
    Guarded parts c' held' (more ++ rest) := by
  -- What was covered or settled before the job is so after it.
  have hkept {since : Nat} {ref : StreamRef} (hsince : since ≤ now)
      (hbefore : (∃ other ∈ job :: rest, other.Covers parts c ref) ∨ Settled c held since ref) :
      (∃ other ∈ more ++ rest, other.Covers parts c' ref) ∨ Settled c' held' since ref := by
    rcases hbefore with ⟨other, hother, hcovers⟩ | hsettled
    · rcases List.mem_cons.1 hother with rfl | hother
      · exact (hleaves.covers hfaithful.placed hafter hfits hcovers).imp_left
          fun ⟨next, hnext, h⟩ => ⟨next, List.mem_append_left _ hnext, h⟩
      · exact (hcovers.shift hfaithful.placed hafter hshift).imp_left
          fun h => ⟨other, List.mem_append_right _ hother, h⟩
    · exact .inr (hsettled.shift hafter hshift hsince)
  intro next hnext since hsince ref
  rcases List.mem_append.1 hnext with hnew | hold
  · rcases (hleaves.stems hnew).since_eq hsince with hjob | ⟨⟨occasion, rfl⟩, rfl⟩
    · exact hkept (hbefore job List.mem_cons_self since hjob)
        (h job List.mem_cons_self since hjob ref)
    · refine hkept (Nat.le_refl _) ?_
      exact (hfaithful.covers_sealAll occasion _ ref).imp_left fun h => ⟨_, List.mem_cons_self, h⟩
  · exact hkept (hbefore next (List.mem_cons_of_mem _ hold) since hsince)
      (h next (List.mem_cons_of_mem _ hold) since hsince ref)

/-- **When it is the turn of the frees**, each stream is settled. -/
theorem settled {occasion : Occasion} (h : Guarded parts c held (.sealFrees occasion since :: rest))
    (hrest : ∀ other ∈ rest, ∀ ref, ¬ other.Covers parts c ref) (ref : StreamRef) :
    Settled c held since ref := by
  rcases h _ List.mem_cons_self since rfl ref with ⟨other, hother, hcovers⟩ | hsettled
  · rcases List.mem_cons.1 hother with rfl | hother
    · exact hcovers.elim
    · exact absurd hcovers (hrest other hother ref)
  · exact hsettled

end Guarded

end TraceRelay
