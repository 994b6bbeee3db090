import TraceRelay.Proofs.Client.Kept
import TraceRelay.Proofs.Client.Owners

/-!
# The records of a session

A record that was accepted is in one place at any time: its stream holds it back, or it went to the
outbox, or it is lost. The records on one stream leave in the order in which they were accepted. If
a thread puts a record on its own stream and then one on a shared stream, the first one leaves
first.

## Main definitions

* `Receipt.Before` : a record may leave before another one.
* `Custody.Knows`, `Custody.Ordered` : each record is in one place, and in order.
* `Run.Accepts` : the records that were accepted, each in its turn.
* `Run.Sweeps` : what sends all that is held back.
* `Run.InCustody` : where the records are after some turns of a session.

## Main results

* `Run.InCustody.concat` : one more turn.
* `Run.exists_inCustody` : at any time of any session it is known where the records are.
* `Run.never_overtaken` : records leave in order.
-/

namespace TraceRelay

/-- A record may leave before another one: on the same stream, or on a stream that its thread
shares while the other one is on the own stream of the thread, it must have been accepted before. -/
def Receipt.Before (x y : Receipt) : Prop :=
  (x.ref = y.ref → x.turn < y.turn) ∧
    ∀ i p, x.ref = .shared i → y.ref = .own p → x.thread = y.thread → x.turn < y.turn

theorem Receipt.Before.of_lt {x y : Receipt} (h : x.turn < y.turn) : x.Before y :=
  ⟨fun _ => h, fun _ _ _ _ _ => h⟩

theorem Receipt.not_before_self (e : Receipt) : ¬ e.Before e := fun h => Nat.lt_irrefl _ (h.1 rfl)

namespace Custody

variable {k : Custody} {ref other : StreamRef} {e : Receipt}

/-- A record is held back, or it went to the outbox, or it is lost. -/
def Knows (k : Custody) (e : Receipt) : Prop := e ∈ k.log ∨ (∃ ref, e ∈ k.held ref) ∨ e ∈ k.lost

/-- Records are in order, and each of them is in one place only. -/
structure Ordered (k : Custody) : Prop where
  tagged : ∀ ref, ∀ e ∈ k.held ref, e.ref = ref
  log : k.log.Pairwise Receipt.Before
  behind : ∀ x ∈ k.log, ∀ ref, ∀ y ∈ k.held ref, x.Before y
  held : ∀ ref, (k.held ref).Pairwise Receipt.Before
  apart : ∀ ref other, ref ≠ other → ∀ x ∈ k.held ref, ∀ y ∈ k.held other, x.Before y
  gone : ∀ e ∈ k.lost, e ∉ k.log ∧ ∀ ref, e ∉ k.held ref

theorem log_ship (k : Custody) (ref : StreamRef) : (k.ship ref).log = k.log ++ k.held ref := by
  rw [log, ship, List.flatMap_append, List.flatMap_singleton]
  rfl

theorem log_tell (k : Custody) (m : Message) : (k.tell m).log = k.log := by
  rw [log, tell, List.flatMap_append, List.flatMap_singleton, List.append_nil]
  rfl

/-! ### Records that leave -/

theorem knows_ship (k : Custody) (ref : StreamRef) : (k.ship ref).Knows e ↔ k.Knows e := by
  have hheld : (∃ other, e ∈ (k.ship ref).held other) ↔ ∃ other, other ≠ ref ∧ e ∈ k.held other :=
    exists_congr fun _ => mem_replaced_nil
  rw [Knows, hheld, log_ship, List.mem_append]
  constructor
  · rintro ((hlog | hheld) | ⟨other, -, hheld⟩ | hlost)
    · exact .inl hlog
    · exact .inr (.inl ⟨ref, hheld⟩)
    · exact .inr (.inl ⟨other, hheld⟩)
    · exact .inr (.inr hlost)
  · rintro (hlog | ⟨other, hheld⟩ | hlost)
    · exact .inl (.inl hlog)
    · by_cases heq : other = ref
      · exact .inl (.inr (heq ▸ hheld))
      · exact .inr (.inl ⟨other, heq, hheld⟩)
    · exact .inr (.inr hlost)

theorem knows_lose (k : Custody) (ref : StreamRef) : (k.lose ref).Knows e ↔ k.Knows e := by
  have hheld : (∃ other, e ∈ (k.lose ref).held other) ↔ ∃ other, other ≠ ref ∧ e ∈ k.held other :=
    exists_congr fun _ => mem_replaced_nil
  have hlost : e ∈ (k.lose ref).lost ↔ e ∈ k.lost ∨ e ∈ k.held ref := List.mem_append
  rw [Knows, hheld, hlost]
  constructor
  · rintro (hlog | ⟨other, -, hheld⟩ | hlost | hheld)
    · exact .inl hlog
    · exact .inr (.inl ⟨other, hheld⟩)
    · exact .inr (.inr hlost)
    · exact .inr (.inl ⟨ref, hheld⟩)
  · rintro (hlog | ⟨other, hheld⟩ | hlost)
    · exact .inl hlog
    · by_cases heq : other = ref
      · exact .inr (.inr (.inr (heq ▸ hheld)))
      · exact .inr (.inl ⟨other, heq, hheld⟩)
    · exact .inr (.inr (.inl hlost))

theorem lasting_knows (S : Receipt → Prop) : Lasting fun k => ∀ e, S e ↔ k.Knows e where
  ship k ref h e := (h e).trans (knows_ship k ref).symm
  lose k ref h e := (h e).trans (knows_lose k ref).symm
  tell k m h e := by
    rw [Knows, log_tell]
    exact h e

theorem lasting_ordered : Lasting Ordered where
  ship k ref h := by
    have hheld {other : StreamRef} {e : Receipt} (he : e ∈ (k.ship ref).held other) :
        other ≠ ref ∧ e ∈ k.held other := mem_replaced_nil.1 he
    refine ⟨fun other e he => h.tagged other e (hheld he).2, ?_, ?_, fun other => ?_, ?_, ?_⟩
    · rw [log_ship]
      exact List.pairwise_append.2 ⟨h.log, h.held ref, fun x hx => h.behind x hx ref⟩
    · rw [log_ship]
      intro x hx other y hy
      rcases List.mem_append.1 hx with hx | hx
      · exact h.behind x hx other y (hheld hy).2
      · exact h.apart ref other (hheld hy).1.symm x hx y (hheld hy).2
    · exact pairwise_replaced h.held other
    · exact fun one other hne x hx y hy => h.apart one other hne x (hheld hx).2 y (hheld hy).2
    · intro e he
      rw [log_ship, List.mem_append, not_or]
      exact ⟨⟨(h.gone e he).1, (h.gone e he).2 ref⟩,
        fun other hother => (h.gone e he).2 other (hheld hother).2⟩
  lose k ref h := by
    have hheld {other : StreamRef} {e : Receipt} (he : e ∈ (k.lose ref).held other) :
        other ≠ ref ∧ e ∈ k.held other := mem_replaced_nil.1 he
    refine ⟨fun other e he => h.tagged other e (hheld he).2, h.log,
      fun x hx other y hy => h.behind x hx other y (hheld hy).2, pairwise_replaced h.held,
      fun one other hne x hx y hy => h.apart one other hne x (hheld hx).2 y (hheld hy).2, ?_⟩
    intro e he
    rcases List.mem_append.1 he with he | he
    · exact ⟨(h.gone e he).1, fun other hother => (h.gone e he).2 other (hheld hother).2⟩
    · refine ⟨fun hlog => e.not_before_self (h.behind e hlog ref e he), fun other hother => ?_⟩
      exact e.not_before_self (h.apart other ref (hheld hother).1 e (hheld hother).2 e he)
  tell k m h := by
    have hlog := log_tell k m
    exact ⟨h.tagged, hlog ▸ h.log, hlog ▸ h.behind, h.held, h.apart, hlog ▸ h.gone⟩
where
  pairwise_replaced {k : Custody} {ref : StreamRef}
      (h : ∀ ref, (k.held ref).Pairwise Receipt.Before) (other : StreamRef) :
      (k.replaced ref [] other).Pairwise Receipt.Before := by
    rw [replaced]
    split
    · exact .nil
    · exact h other

theorem lasting_shipped (sent : List Shipment) : Lasting (sent <+: ·.shipped) where
  ship _ _ h := h.trans (List.prefix_append _ _)
  lose _ _ h := h
  tell _ _ h := h.trans (List.prefix_append _ _)

/-! ### Records that come -/

theorem knows_take {e' : Receipt} : (k.take e).Knows e' ↔ k.Knows e' ∨ e' = e := by
  have hheld : (∃ ref, e' ∈ (k.take e).held ref) ↔ (∃ ref, e' ∈ k.held ref) ∨ e' = e := by
    simp only [mem_take, exists_or, exists_eq_left]
  have hrest : (k.take e).Knows e' ↔ e' ∈ k.log ∨ (∃ ref, e' ∈ (k.take e).held ref) ∨ e' ∈ k.lost :=
    Iff.rfl
  rw [hrest, hheld, Knows, or_right_comm, ← or_assoc]

/-- A record comes that was accepted last. -/
theorem Ordered.take (h : k.Ordered) (hlast : ∀ e', k.Knows e' → e'.turn < e.turn)
    (hready : k.Ready e) : (k.take e).Ordered where
  tagged ref e' he' := by
    rcases mem_take.1 he' with he' | ⟨rfl, rfl⟩
    · exact h.tagged ref e' he'
    · rfl
  log := h.log
  behind x hx ref y hy := by
    rcases mem_take.1 hy with hy | ⟨-, rfl⟩
    · exact h.behind x hx ref y hy
    · exact .of_lt (hlast x (.inl hx))
  held ref := by
    dsimp only [Custody.take, replaced]
    split
    · refine List.pairwise_append.2 ⟨h.held e.ref, List.pairwise_singleton _ e, fun x hx y hy => ?_⟩
      rw [List.mem_singleton.1 hy]
      exact .of_lt (hlast x (.inr (.inl ⟨e.ref, hx⟩)))
    · exact h.held ref
  apart ref other hne x hx y hy := by
    rcases mem_take.1 hx with hx' | ⟨rfl, rfl⟩
    · rcases mem_take.1 hy with hy' | ⟨-, rfl⟩
      · exact h.apart ref other hne x hx' y hy'
      · exact .of_lt (hlast x (.inr (.inl ⟨ref, hx'⟩)))
    · have hold : y ∈ k.held other := (mem_take.1 hy).resolve_right fun hy => hne hy.1.symm
      have htag := h.tagged other y hold
      refine ⟨fun heq => absurd (heq.trans htag) hne, fun i p hi hp hthread => ?_⟩
      rw [← htag, hp] at hold
      exact absurd hthread.symm (hready i hi p y hold)
  gone e' he' := by
    refine ⟨(h.gone e' he').1, fun ref href => ?_⟩
    rcases mem_take.1 href with href | ⟨-, rfl⟩
    · exact (h.gone e' he').2 ref href
    · exact Nat.lt_irrefl _ (hlast e' (.inr (.inr he')))

end Custody

namespace Run

variable {settings : ClientSettings} {ts : List Turn} {t : Turn} {k k' : Custody} {e : Receipt}
  {r : Run} {α : Type}

/-! ### Turns -/

/-- A record was accepted in its turn. -/
def Accepts (settings : ClientSettings) (ts : List Turn) (e : Receipt) : Prop :=
  ∃ t, ts[e.turn]? = some t ∧
    (after settings (ts.take e.turn)).Emits t e.thread e.ref e.record

/-- All that is held back is sent, as a session that is open is told to do so, and no call fails. -/
def Sweeps (r : Run) (t : Turn) : Prop :=
  r.client.closed = false ∧ (t = .call .flush ∨ ∃ deliver, t = .shutdown deliver) ∧
    (r.turn t).faults = r.faults

/-- What a turn does to the records. They are lost only in a call that fails because they are too
large, and by a session that is closed. If all of them are sent, none is lost. -/
structure Passes (r : Run) (t : Turn) (k k' : Custody) : Prop where
  shipped : k.shipped <+: k'.shipped
  lost : k'.lost = k.lost ∨ r.Overflows t ∨ (r.turn t).client.closed = true
  swept : r.Sweeps t → (∀ ref, k'.held ref = []) ∧ k'.lost = k.lost

/-- Where the records are after some turns of a session. -/
structure InCustody (settings : ClientSettings) (ts : List Turn) (k : Custody) : Prop where
  /-- The streams hold back what it says, and the frames that went to the outbox are those of its
  messages, with the records that it says. -/
  attested : ∃ past, (after settings []).enqueued ts =
      past ++ (after settings ts).client.outbox.waiting.toList ∧
    (after settings ts).client.Attests past k
  assigned : (after settings ts).client.Assigns k
  accepted : ∀ e, Accepts settings ts e ↔ k.Knows e
  ordered : k.Ordered
  cause : ∀ e ∈ k.lost, (after settings ts).client.closed = true ∨
    ∃ earlier t later, ts = earlier ++ t :: later ∧ e.turn ≤ earlier.length ∧
      (after settings earlier).Overflows t

theorem not_sweeps {call : Call} (h : call ≠ .flush) : ¬ r.Sweeps (.call call) := by
  rintro ⟨-, hflush | ⟨_, hshutdown⟩, -⟩
  · exact h (Turn.call.inj hflush)
  · cases hshutdown

theorem Accepts.turn_lt (h : Accepts settings ts e) : e.turn < ts.length := by
  obtain ⟨t, hat, -⟩ := h
  exact (List.getElem?_eq_some_iff.1 hat).1

theorem accepts_concat : Accepts settings (ts ++ [t]) e ↔ Accepts settings ts e ∨
    e.turn = ts.length ∧ (after settings ts).Emits t e.thread e.ref e.record := by
  constructor
  · rintro ⟨t', hat, hemits⟩
    rcases Nat.lt_trichotomy e.turn ts.length with hlt | heq | hgt
    · rw [List.getElem?_append_left hlt] at hat
      rw [List.take_append_of_le_length (Nat.le_of_lt hlt)] at hemits
      exact .inl ⟨t', hat, hemits⟩
    · rw [heq, List.getElem?_concat_length] at hat
      rw [heq, List.take_left] at hemits
      cases hat
      exact .inr ⟨heq, hemits⟩
    · rw [List.getElem?_eq_none (by rw [List.length_append]; exact hgt)] at hat
      cases hat
  · rintro (h | ⟨heq, hemits⟩)
    · have hlt := h.turn_lt
      obtain ⟨t', hat, hemits⟩ := h
      refine ⟨t', ?_, ?_⟩
      · rwa [List.getElem?_append_left hlt]
      · rwa [List.take_append_of_le_length (Nat.le_of_lt hlt)]
    · refine ⟨t, ?_, ?_⟩
      · rw [heq, List.getElem?_concat_length]
      · rwa [heq, List.take_left]

/-- A turn in which no record is accepted. -/
theorem accepts_of_quiet
    (h : ∀ thread ref record, ¬ (after settings ts).Emits t thread ref record) :
    Accepts settings (ts ++ [t]) e ↔ Accepts settings ts e := by
  rw [accepts_concat]
  exact or_iff_left fun hlast => h _ _ _ hlast.2

theorem not_emits {call : Call} (h : (r.step call).accepted = r.accepted) (thread : ThreadId)
    (ref : StreamRef) (record : Record) : ¬ r.Emits (.call call) thread ref record := by
  rintro ⟨other, heq, -, hmore⟩
  cases heq
  rw [h] at hmore
  simpa using congrArg List.length hmore

/-- A call in which a record is accepted. -/
theorem accepts_of_emits {call : Call} {thread : ThreadId} {ref : StreamRef} {record : Record}
    (hthread : call.thread? = some thread) (h : ((after settings ts).step call).accepted =
      (after settings ts).accepted ++ [(ref, record)]) :
    Accepts settings (ts ++ [Turn.call call]) e ↔
      Accepts settings ts e ∨ e = ⟨ref, record, thread, ts.length⟩ := by
  rw [accepts_concat]
  refine or_congr_right ⟨?_, ?_⟩
  · rintro ⟨hturn, other, heq, hother, hmore⟩
    cases heq
    cases hthread.symm.trans hother
    cases List.append_cancel_left (h.symm.trans hmore)
    rw [← hturn]
  · rintro rfl
    exact ⟨rfl, call, rfl, hthread, h⟩

/-! ### What is known after a turn -/

/-- What is known of the records, if some were accepted, and there was something known before. -/
def Accounts (S : Receipt → Prop) (before k : Custody) : Prop :=
  (∀ e, S e ↔ k.Knows e) ∧ k.Ordered ∧ before.shipped <+: k.shipped

theorem lasting_accounts (S : Receipt → Prop) (before : Custody) :
    Custody.Lasting (Accounts S before) :=
  (Custody.lasting_knows S).and (Custody.lasting_ordered.and (Custody.lasting_shipped _))

theorem Accounts.take {S S' : Receipt → Prop} {before : Custody} (h : Accounts S before k)
    (hlast : ∀ e', S e' → e'.turn < e.turn) (hready : k.Ready e)
    (hS : ∀ e', S' e' ↔ S e' ∨ e' = e) : Accounts S' before (k.take e) := by
  obtain ⟨hknows, hordered, hshipped⟩ := h
  refine ⟨fun e' => ?_, hordered.take (fun e' he' => hlast e' ((hknows e').2 he')) hready, hshipped⟩
  rw [hS, hknows, Custody.knows_take]

variable {past : List Bytes} {old : List Receipt} {P Q : Custody → Prop}

theorem InCustody.kept (h : InCustody settings ts k)
    (hattests : (after settings ts).client.Attests past k) :
    (after settings ts).client.Kept past k.lost (Accounts (Accepts settings ts) k) False :=
  ⟨k, hattests, h.assigned, ⟨h.accepted, h.ordered, List.prefix_rfl⟩, .inl rfl⟩

/-- What is known after a call of the client is known of the run that takes down its faults. -/
private theorem kept_perform {call : EStateM ClientError Client α} {note : α → Run → Run}
    (hnote : ∀ a r, (note a r).client = r.client ∧ (note a r).faults = r.faults)
    (h : Client.KeptAfter past old P Q False (call r.client)) :
    (Step.succeeded (call r.client) = true ∧ (r.perform call note).faults = r.faults ∧
        (r.perform call note).client.Kept past old Q False) ∨
      ∃ cause, Step.succeeded (call r.client) = false ∧
        (r.perform call note).faults = r.faults ++ [cause] ∧
        (r.perform call note).client.Kept past old P (cause = .wire .batchTooLarge) := by
  unfold perform
  cases hresult : call r.client with
  | ok a c =>
    rw [hresult] at h
    cases h with
    | ok h =>
      dsimp only
      rw [(hnote a _).1, (hnote a _).2]
      exact .inl ⟨rfl, rfl, h⟩
  | error cause c =>
    rw [hresult] at h
    cases h with
    | error h => exact .inr ⟨cause, rfl, rfl, h.mono (fun _ => id) fun hor => hor.resolve_left id⟩

/-- What is known after a call. -/
def KnownAfter (settings : ClientSettings) (ts : List Turn) (past : List Bytes) (k : Custody)
    (call : Call) : Prop :=
  ((after settings ts).step call).client.Kept past k.lost (fun k' =>
    Accounts (Accepts settings (ts ++ [Turn.call call])) k k' ∧
      ((after settings ts).Sweeps (.call call) → ∀ ref, k'.held ref = []))
    ((after settings ts).Overflows (.call call))

private theorem accepted_perform_of_same {call : EStateM ClientError Client α}
    {note : α → Run → Run} (hnote : ∀ a r, (note a r).accepted = r.accepted) :
    (r.perform call note).accepted = r.accepted := by
  unfold perform
  split
  · exact hnote _ _
  · rfl

private theorem accepted_accept {call : EStateM ClientError Client Unit} {ref : StreamRef}
    {record : Record} : (r.perform call fun _ => accept ref record).accepted =
      if Step.succeeded (call r.client) = true then r.accepted ++ [(ref, record)]
      else r.accepted := by
  unfold perform
  cases call r.client <;> rfl

/-- A call in which no record is accepted. -/
private theorem knownAfter_of_quiet {call : Call} {noted : Prop}
    (h : ((after settings ts).step call).client.Kept past k.lost
      (Accounts (Accepts settings ts) k) noted)
    (hnoted : noted → (after settings ts).Overflows (.call call))
    (haccepted : ((after settings ts).step call).accepted = (after settings ts).accepted)
    (hcall : call ≠ .flush) : KnownAfter settings ts past k call := by
  have hquiet (e : Receipt) := accepts_of_quiet (e := e) (not_emits haccepted)
  exact h.mono (fun k' ⟨hknows, hrest⟩ => ⟨⟨fun e => (hquiet e).trans (hknows e), hrest⟩,
    fun hsweeps => absurd hsweeps (not_sweeps hcall)⟩) hnoted

private theorem knownAfter_perform {call : Call} {step : EStateM ClientError Client α}
    {note : α → Run → Run}
    (hcall : (after settings ts).step call = (after settings ts).perform step note)
    (hnote : ∀ a r, (note a r).client = r.client ∧ (note a r).faults = r.faults)
    (haccepted : ∀ a r, (note a r).accepted = r.accepted) (hflush : call ≠ .flush)
    (hmoves : Client.Moves (Accounts (Accepts settings ts) k)
      (Accounts (Accepts settings ts) k) step)
    (h : (after settings ts).client.Kept past k.lost (Accounts (Accepts settings ts) k) False) :
    KnownAfter settings ts past k call := by
  have hquiet := (congrArg Run.accepted hcall).trans (accepted_perform_of_same haccepted)
  rcases kept_perform hnote (hmoves h) with ⟨-, -, hkept⟩ | ⟨cause, -, hfaults, hkept⟩
  · rw [← hcall] at hkept
    exact knownAfter_of_quiet hkept False.elim hquiet hflush
  · rw [← hcall] at hkept hfaults
    exact knownAfter_of_quiet hkept (fun hcause => ⟨call, rfl, hcause ▸ hfaults⟩) hquiet hflush

/-- A call in which a record is accepted if it succeeds. -/
private theorem knownAfter_accept {call : Call} {step : EStateM ClientError Client Unit} {r : Run}
    (hclient : r.client = (after settings ts).client)
    (hbefore : r.accepted = (after settings ts).accepted)
    (hfaults : r.faults = (after settings ts).faults) {thread : ThreadId} {ref : StreamRef}
    {record : Record} (hthread : call.thread? = some thread)
    (hcall : (after settings ts).step call = r.perform step fun _ => accept ref record)
    (h : Client.KeptAfter past k.lost (Accounts (Accepts settings ts) k)
      (Accounts (fun e => Accepts settings ts e ∨ e = ⟨ref, record, thread, ts.length⟩) k) False
      (step (after settings ts).client)) : KnownAfter settings ts past k call := by
  have hother : call ≠ .flush := by
    rintro rfl
    cases hthread
  have hsaid := (congrArg Run.accepted hcall).trans accepted_accept
  have hnote : ∀ (_ : Unit) (r : Run), (accept ref record r).client = r.client ∧
      (accept ref record r).faults = r.faults := fun _ _ => ⟨rfl, rfl⟩
  rw [hbefore] at hsaid
  rw [← hclient] at h
  rcases kept_perform hnote h with ⟨hok, -, hkept⟩ | ⟨cause, hno, hmore, hkept⟩
  · rw [← hcall] at hkept
    rw [if_pos hok] at hsaid
    have hmore (e : Receipt) := accepts_of_emits (e := e) hthread hsaid
    exact hkept.mono (fun k' ⟨hknows, hrest⟩ => ⟨⟨fun e => (hmore e).trans (hknows e), hrest⟩,
      fun hsweeps => absurd hsweeps (not_sweeps hother)⟩) False.elim
  · rw [← hcall] at hkept hmore
    rw [hno, if_neg Bool.false_ne_true] at hsaid
    refine knownAfter_of_quiet hkept (fun hcause => ⟨call, rfl, ?_⟩) hsaid hother
    rw [hmore, hfaults, hcause]

private theorem knownAfter_flush
    (h : (after settings ts).client.Kept past k.lost (Accounts (Accepts settings ts) k) False) :
    KnownAfter settings ts past k .flush := by
  have hP := lasting_accounts (Accepts settings ts) k
  have hquiet : ((after settings ts).step .flush).accepted = (after settings ts).accepted :=
    accepted_perform_of_same fun _ _ => rfl
  have hsame (k' : Custody) (hk : Accounts (Accepts settings ts) k k') :
      Accounts (Accepts settings (ts ++ [Turn.call .flush])) k k' :=
    ⟨fun e => (accepts_of_quiet (not_emits hquiet)).trans (hk.1 e), hk.2⟩
  have hnote : ∀ (_ : Unit) (r : Run), r.client = r.client ∧ r.faults = r.faults :=
    fun _ _ => ⟨rfl, rfl⟩
  rcases kept_perform hnote (Client.moves_flush hP h) with
    ⟨-, -, hkept⟩ | ⟨cause, -, hfaults, hkept⟩
  · exact Client.Kept.mono hkept (fun k' hk => ⟨hsame k' hk.1, fun _ => hk.2⟩) False.elim
  · refine Client.Kept.mono hkept (fun k' hk => ⟨hsame k' hk, fun hsweeps => ?_⟩)
      fun hcause => ⟨.flush, rfl, hcause ▸ hfaults⟩
    have hnone : (after settings ts).faults ++ [cause] = (after settings ts).faults :=
      hfaults.symm.trans hsweeps.2.2
    simpa using congrArg List.length hnone

/-- What is known after each call but those of the sender. -/
theorem knownAfter (hdrafts : (after settings ts).DraftsHold)
    (h : (after settings ts).client.Kept past k.lost (Accounts (Accepts settings ts) k) False)
    (call : Call) (hcall : ∀ deliver, call ≠ .runSender deliver) :
    KnownAfter settings ts past k call := by
  have hP := lasting_accounts (Accepts settings ts) k
  have hQ (e : Receipt) := lasting_accounts (fun e' => Accepts settings ts e' ∨ e' = e) k
  have htake (e : Receipt) (he : e.turn = ts.length) (k' : Custody)
      (hk : Accounts (Accepts settings ts) k k') (hready : k'.Ready e) :
      Accounts (fun e' => Accepts settings ts e' ∨ e' = e) k (k'.take e) :=
    hk.take (fun e' he' => he ▸ he'.turn_lt) hready fun _ => Iff.rfl
  have hquiet {α : Type} {step : EStateM ClientError Client α} {call : Call} (note : α → Run → Run)
      (hstep : (after settings ts).step call = (after settings ts).perform step note)
      (hnote : ∀ a r, (note a r).client = r.client ∧ (note a r).faults = r.faults)
      (haccepted : ∀ a r, (note a r).accepted = r.accepted) (hflush : call ≠ .flush)
      (hmoves : Client.Moves (Accounts (Accepts settings ts) k)
        (Accounts (Accepts settings ts) k) step) :=
    knownAfter_perform hstep hnote haccepted hflush hmoves h
  cases call with
  | runSender deliver => exact absurd rfl (hcall deliver)
  | flush => exact knownAfter_flush h
  | threadGone thread => exact knownAfter_of_quiet (h.threadGone thread) False.elim rfl nofun
  | send n v | discard n => exact knownAfter_of_quiet h False.elim rfl nofun
  | register name =>
    exact hquiet (fun id r => { r with named := r.named ++ [(name, id)] }) rfl
      (fun _ _ => ⟨rfl, rfl⟩) (fun _ _ => rfl) nofun (Client.moves_register hP name)
  | «begin» n id ordering =>
    exact hquiet (fun writer => setDraft n (some { writer, method := id })) rfl
      (fun _ _ => ⟨rfl, rfl⟩) (fun _ _ => rfl) nofun
      (Client.moves_of_keeps fun _ _ _ => Client.keeps_beginEvent id ordering)
  | objectFreed t =>
    exact hquiet (fun _ r => { r with freed := r.freed ++ [t] }) rfl (fun _ _ => ⟨rfl, rfl⟩)
      (fun _ _ => rfl) nofun (Client.moves_objectFreed hP t)
  | classInfo info | stringInfo subject text | threadInfo info =>
    exact hquiet (fun _ r => r) rfl (fun _ _ => ⟨rfl, rfl⟩) (fun _ _ => rfl) nofun
      (Client.moves_tell hP rfl)
  | threadEnd thread =>
    exact hquiet (fun _ r => r) rfl (fun _ _ => ⟨rfl, rfl⟩) (fun _ _ => rfl) nofun
      (Client.moves_threadEnd hP thread)
  | dispatch thread id args =>
    exact knownAfter_accept rfl rfl rfl rfl rfl
      (h.dispatch hP (hQ _) thread id args fun k' hk hready => htake _ rfl k' hk hready)
  | finish thread n =>
    cases hd : (after settings ts).drafts n with
    | none =>
      have hstep := step_finish_of_none hd thread
      refine knownAfter_of_quiet ?_ False.elim ?_ nofun <;> rw [hstep]
      exact h
    | some d =>
      exact knownAfter_accept (r := (after settings ts).setDraft n none) rfl rfl rfl rfl
        (step_finish_of_some hd thread)
        (h.finishEvent hP (hQ _) thread (hdrafts n d hd)
          fun k' hk hready => htake _ rfl k' hk hready)

/-! ### One more turn -/

theorem closed_of_refusing (h : (after settings ts).client.outbox.accepting = false) :
    (after settings ts).client.closed = true := by
  cases hclosed : (after settings ts).client.closed with
  | true => rfl
  | false => cases h.symm.trans (accepting_after hclosed)

private theorem closed_concat (h : (after settings ts).client.closed = true) (t : Turn) :
    (after settings (ts ++ [t])).client.closed = true := by
  cases hclosed : (after settings (ts ++ [t])).client.closed with
  | true => rfl
  | false => cases h.symm.trans (open_earlier (List.prefix_append ts [t]) hclosed)

/-- What a turn does to the records, and where they are after it. -/
theorem InCustody.next (h : InCustody settings ts k)
    (hattested : ∃ past, (after settings []).enqueued (ts ++ [t]) =
        past ++ (after settings (ts ++ [t])).client.outbox.waiting.toList ∧
      (after settings (ts ++ [t])).client.Attests past k')
    (hassigned : (after settings (ts ++ [t])).client.Assigns k')
    (haccounts : Accounts (Accepts settings (ts ++ [t])) k k')
    (hlost : k'.lost = k.lost ∨ (after settings ts).Overflows t ∨
      (after settings (ts ++ [t])).client.closed = true)
    (hswept : (after settings ts).Sweeps t → (∀ ref, k'.held ref = []) ∧ k'.lost = k.lost) :
    InCustody settings (ts ++ [t]) k' ∧ Passes (after settings ts) t k k' := by
  refine ⟨⟨hattested, hassigned, haccounts.1, haccounts.2.1, fun e he => ?_⟩,
    haccounts.2.2, ?_, hswept⟩
  · rcases hlost with hsame | hover | hclosed
    · rw [hsame] at he
      rcases h.cause e he with hclosed | ⟨earlier, t', later, rfl, hturn, hover⟩
      · exact .inl (closed_concat hclosed t)
      · exact .inr ⟨earlier, t', later ++ [t], by rw [List.append_assoc]; rfl, hturn, hover⟩
    · have hlt := ((haccounts.1 e).2 (.inr (.inr he))).turn_lt
      rw [List.length_append] at hlt
      exact .inr ⟨ts, t, [], rfl, Nat.lt_succ_iff.1 hlt, hover⟩
    · exact .inl hclosed
  · rw [← after_concat]
    exact hlost

private theorem InCustody.call (h : InCustody settings ts k) (call : Call)
    (hcall : ∀ deliver, call ≠ .runSender deliver) :
    ∃ k', InCustody settings (ts ++ [Turn.call call]) k' ∧
      Passes (after settings ts) (.call call) k k' := by
  obtain ⟨past, henqueued, hattests⟩ := h.attested
  have hkept := h.kept hattests
  have hafter : after settings (ts ++ [Turn.call call]) = (after settings ts).step call :=
    after_concat settings ts (.call call)
  have hgate := lasting_step (r := after settings ts) (Client.lasting_gate _) rfl call hcall
  obtain ⟨k', hattests, hassigns, ⟨haccounts, hempty⟩, hlost⟩ :=
    knownAfter (chronicle settings ts).drafts hkept call hcall
  rw [← hafter] at hattests hassigns hlost hgate
  refine ⟨k', h.next ⟨past, enqueued_call henqueued hcall, hattests⟩ hassigns haccounts
    (hlost.imp_right (Or.imp_right closed_of_refusing)) fun hsweeps => ⟨hempty hsweeps, ?_⟩⟩
  rcases hlost with hsame | ⟨_, heq, hover⟩ | hno
  · exact hsame
  · cases heq
    have hnone := hover.symm.trans hsweeps.2.2
    simpa using congrArg List.length hnone
  · have hclosed : (after settings (ts ++ [Turn.call call])).client.closed = false :=
      (congrArg (·.2.1) hgate).trans hsweeps.1
    cases (closed_of_refusing hno).symm.trans hclosed

private theorem InCustody.runSender (h : InCustody settings ts k) (deliver : Nat → Delivery) :
    ∃ k', InCustody settings (ts ++ [Turn.call (.runSender deliver)]) k' ∧
      Passes (after settings ts) (.call (.runSender deliver)) k k' := by
  obtain ⟨past, henqueued, hattests⟩ := h.attested
  have hkept := h.kept hattests
  have hafter : (after settings (ts ++ [Turn.call (.runSender deliver)])).client =
      ((after settings ts).client.runSender deliver).2 :=
    congrArg Run.client (after_concat settings ts (.call (.runSender deliver)))
  obtain ⟨past', hframes, hsent⟩ := hkept.runSender deliver
  rw [← hafter] at hframes hsent
  obtain ⟨k', hattests, hassigns, ⟨hknows, hrest⟩, hlost⟩ := hsent
  refine ⟨k', h.next ⟨past', ?_, hattests⟩ hassigns ⟨fun e => ?_, hrest⟩
    (hlost.imp_right (Or.imp False.elim closed_of_refusing))
    fun hsweeps => absurd hsweeps (not_sweeps nofun)⟩
  · rw [enqueued_concat, henqueued, enqueuedBy, List.append_nil]
    exact hframes.symm
  · exact (accepts_of_quiet (not_emits rfl)).trans (hknows e)

private theorem InCustody.shutdown (h : InCustody settings ts k) (deliver : Nat → Delivery) :
    ∃ k', InCustody settings (ts ++ [Turn.shutdown deliver]) k' ∧
      Passes (after settings ts) (.shutdown deliver) k k' := by
  obtain ⟨past, henqueued, hattests⟩ := h.attested
  have hkept := h.kept hattests
  have hafter : after settings (ts ++ [Turn.shutdown deliver]) =
      (after settings ts).shutdown deliver :=
    after_concat settings ts (.shutdown deliver)
  have hquiet (e : Receipt) :
      Accepts settings (ts ++ [Turn.shutdown deliver]) e ↔ Accepts settings ts e :=
    accepts_of_quiet fun _ _ _ ⟨_, heq, _⟩ => by cases heq
  rcases heq : (after settings ts).client.shutdown deliver with ⟨answer, out, c⟩
  have hclient := (shutdown_eq heq).1
  rw [← hafter] at hclient
  have hlatched := latched_after settings ts
  cases hending : (after settings ts).client.ending with
  | true =>
    have hclosed := hlatched.closed_iff.2 (.inl hending)
    rw [Client.shutdown, hending] at heq
    cases heq
    refine ⟨k, h.next ⟨past, ?_, ?_⟩ ?_ ⟨fun e => (hquiet e).trans (h.accepted e), h.ordered,
      List.prefix_rfl⟩ (.inl rfl) fun hsweeps => ?_⟩
    · rw [enqueued_concat, henqueued, enqueuedBy, if_pos hending, List.append_nil, hclient]
    · rw [hclient]
      exact hattests
    · rw [hclient]
      exact h.assigned
    · cases hclosed.symm.trans hsweeps.1
  | false =>
    obtain ⟨past', k', hframes, hattests, hassigns, ⟨hknows, hrest⟩, hok⟩ :=
      hkept.shutdown (lasting_accounts _ _) hending heq
    have hclosed := (hlatched.shutdown heq).2.1
    rw [← hclient] at hframes hattests hassigns hclosed
    have hbehind := (Client.lasting_waiting (after settings ts).client.outbox.waiting.toList)
      |>.keeps_closeAll { (after settings ts).client with ending := true, closed := true }
        List.prefix_rfl
    refine ⟨k', h.next ⟨past', ?_, hattests⟩ hassigns ⟨fun e => (hquiet e).trans (hknows e), hrest⟩
      (.inr (.inr hclosed)) fun hsweeps => ?_⟩
    · rw [enqueued_concat, henqueued, enqueuedBy, hending, if_neg Bool.false_ne_true,
        append_drop hbehind]
      exact hframes.symm
    · obtain ⟨hopen, -, hfaults⟩ := hsweeps
      have hanswer : answer = .ok () := by
        cases answer with
        | ok _ => rfl
        | error e =>
          change ((after settings ts).shutdown deliver).faults = _ at hfaults
          rw [Run.shutdown, heq] at hfaults
          simpa using congrArg List.length hfaults
      obtain ⟨hempty, hsame | hno | hno⟩ := hok hanswer
      · exact ⟨hempty, hsame⟩
      · cases hno
      · cases hno.symm.trans (accepting_after hopen)

/-- One more turn. -/
theorem InCustody.concat (h : InCustody settings ts k) (t : Turn) :
    ∃ k', InCustody settings (ts ++ [t]) k' ∧ Passes (after settings ts) t k k' := by
  cases t with
  | shutdown deliver => exact h.shutdown deliver
  | call call =>
    by_cases hcall : ∃ deliver, call = .runSender deliver
    · obtain ⟨deliver, rfl⟩ := hcall
      exact h.runSender deliver
    · exact h.call call fun deliver heq => hcall ⟨deliver, heq⟩

private theorem inCustody_start (settings : ClientSettings) : InCustody settings [] {} where
  attested := by
    refine ⟨[], rfl, ?_⟩
    exact {
      placed := Client.placed_start settings
      ordering := fun ref href => by
        cases ref with
        | own p => exact absurd href (Nat.not_lt_zero p)
        | shared i => exact congrArg RecordStream.ordering (Client.stream_start settings i)
      held := fun ref href => by
        cases ref with
        | own p => exact absurd href (Nat.not_lt_zero p)
        | shared i =>
          have hstream := Client.stream_start settings i
          change (({ settings } : Client).stream _).Holds _
          rw [hstream]
          rfl
      tagged := nofun
      frames := .nil
      stamped := nofun
      frees := ⟨[], FreeBatch.holds_empty⟩ }
  assigned := nofun
  accepted e := by
    refine iff_of_false ?_ ?_
    · rintro ⟨_, hat, -⟩
      cases hat
    · rintro (hlog | ⟨_, hheld⟩ | hlost)
      · cases hlog
      · cases hheld
      · cases hlost
  ordered := ⟨nofun, .nil, nofun, fun _ => .nil, nofun, nofun⟩
  cause := nofun

/-- **At any time of any session** it is known where the records are. -/
theorem exists_inCustody (settings : ClientSettings) (ts : List Turn) :
    ∃ k, InCustody settings ts k := by
  induction ts using List.reverseRecOn with
  | nil => exact ⟨_, inCustody_start settings⟩
  | append_singleton ts t ih =>
    obtain ⟨k, hk⟩ := ih
    obtain ⟨k', hk', -⟩ := hk.concat t
    exact ⟨k', hk'⟩

/-! ### Order -/

/-- Of two elements of a list in order, the one that may not be the second one is the first one. -/
theorem pair_sublist {R : α → α → Prop} {l : List α} (h : l.Pairwise R) {x y : α} (hx : x ∈ l)
    (hy : y ∈ l) (hne : x ≠ y) (hnot : ¬ R y x) : [x, y].Sublist l := by
  obtain ⟨front, back, rfl⟩ := List.append_of_mem hx
  rcases List.mem_append.1 hy with hfront | hback
  · exact absurd ((List.pairwise_append.1 h).2.2 y hfront x List.mem_cons_self) hnot
  · have hy' := (List.mem_cons.1 hback).resolve_left hne.symm
    exact ((List.singleton_sublist.2 hy').cons_cons x).trans (List.sublist_append_right ..)

/-- The frames that went to the outbox are those of the messages. -/
theorem InCustody.enqueued (h : InCustody settings ts k) :
    Enqueued settings ts (k.shipped.map (·.message)) := by
  obtain ⟨past, henqueued, hattests⟩ := h.attested
  rw [Enqueued, henqueued]
  exact List.forall₂_map_left_iff.2 hattests.frames

/-- **Records are never overtaken.** If a thread had a record accepted on its own stream and then
one on a shared stream, and the second one went to the outbox, then the first one did so before it,
unless it is lost. The records of each stream, those of shared streams among them, went to the
outbox in the order in which they were accepted. -/
theorem never_overtaken (settings : ClientSettings) (ts : List Turn) :
    ∃ k, InCustody settings ts k ∧ Enqueued settings ts (k.shipped.map (·.message)) ∧
      (∀ x y p i, Accepts settings ts x → x.ref = .own p → y.ref = .shared i →
        x.thread = y.thread → x.turn < y.turn → y ∈ k.log → x ∉ k.lost → [x, y].Sublist k.log) ∧
      ∀ ref, (k.log.filter (·.ref = ref)).Pairwise (·.turn < ·.turn) := by
  obtain ⟨k, hk⟩ := exists_inCustody settings ts
  refine ⟨k, hk, hk.enqueued, ?_, fun ref => ?_⟩
  · intro x y p i haccepted hown hshared hthread hturn hy hlost
    have hnot : ¬ y.Before x := fun hbefore =>
      Nat.lt_asymm hturn (hbefore.2 i p hshared hown hthread.symm)
    have hne : x ≠ y := fun heq => Nat.lt_irrefl _ (heq ▸ hturn)
    rcases (hk.accepted x).1 haccepted with hx | ⟨ref, hheld⟩ | hgone
    · exact pair_sublist hk.ordered.log hx hy hne hnot
    · exact absurd (hk.ordered.behind y hy ref x hheld) hnot
    · exact absurd hgone hlost
  · refine (hk.ordered.log.filter _).imp_of_mem fun {x y} hx hy hbefore => hbefore.1 ?_
    have hx' : x.ref = ref := by simpa using (List.mem_filter.1 hx).2
    have hy' : y.ref = ref := by simpa using (List.mem_filter.1 hy).2
    rw [hx', hy']

end Run

end TraceRelay
