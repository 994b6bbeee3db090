import TraceRelay.Proofs.Client.Sender
import TraceRelay.Proofs.Client.Tracked

/-!
# Clients that are closed

Once the session was asked to end, or the transport has failed, no frames are accepted. A record
that was begun before can still be finished: it is refused when its frame would have to be sent, or
when its stream has ended, but it is taken when it can be kept back. Streams that have ended stay
so, and an end in order ends all that there are; a thread that had none gets one that is open.

## Main definitions

* `Client.KeepsBack` : a record that is finished can be kept back.
* `Client.Latched` : when a client is closed, and that it sends nothing more then.
* `Client.Shut` : the stream that a record goes to has ended.
* `Client.Onward` : streams end, but do not begin again.

## Main results

* `Client.finishEvent_onlyIf` : finishing a record when no frames are accepted.
* `Client.Latched.runSender`, `Client.Latched.shutdown` : a closed client sends nothing more.
* `Client.shut_of_shutdown` : which streams an end in order ends.
-/

namespace TraceRelay

/-! ### Records that are finished late -/

namespace Client

open Step (Keeps)

variable {c : Client} {thread : ThreadId} {result : EStateM.Result ClientError Client Unit}

/-- The stream that a record goes to. A thread that has none gets one. -/
def target (c : Client) (thread : ThreadId) : Option UInt8 → RecordStream
  | some i => c.stream (.shared i)
  | none => match c.streamOf? thread with
    | some ref => c.stream ref
    | none => { ordering := .ofNat (Message.sharedOrderings + c.own.size) }

/-- A stream takes a record, and is not full then. -/
def Room (c : Client) (b : RecordBuilder) (s : RecordStream) : Prop :=
  ∃ s', RecordStream.append b s = .ok ⟨⟩ s' ∧ s'.isFull c.settings = false

/-- A record that is finished can be kept back: its stream takes it and is not full then, and no
record of the thread has to be sent before it. -/
structure KeepsBack (c : Client) (thread : ThreadId) (w : EventWriter) : Prop where
  room : c.Room w.record (c.target thread w.ordering)
  idle : w.ordering ≠ none → ∀ ref, c.streamOf? thread = some ref → (c.stream ref).take.1 = .ok none

/-- A step succeeds exactly on a condition. Otherwise it tells that the session was closed, or what
is wrong with a record. -/
inductive OnlyIf (p : Prop) : EStateM.Result ClientError Client Unit → Prop
  | ok {c : Client} (h : p) : OnlyIf p (.ok ⟨⟩ c)
  | closed {c : Client} (h : ¬ p) : OnlyIf p (.error .sessionClosed c)
  | wire {c : Client} {e : WireError} (h : ¬ p) : OnlyIf p (.error (.wire e) c)

theorem OnlyIf.congr {p q : Prop} (h : OnlyIf p result) (hpq : p ↔ q) : OnlyIf q result := by
  rwa [← propext hpq]

/-- Nothing can be sent when no frames are accepted. -/
private theorem Sends.onlyIf {frame : Except WireError (Option Bytes)} (h : Sends frame c result)
    (hrefusing : c.outbox.accepting = false) : OnlyIf (frame = .ok none) result := by
  cases h with
  | nothing h => exact .ok h
  | sent h haccepting => cases hrefusing.symm.trans haccepting
  | refused h => exact .closed fun hnone => by cases h.symm.trans hnone
  | unwritable h => exact .wire fun hnone => by cases h.symm.trans hnone

private theorem appendTo_onlyIf (hsize : c.shared.size = Message.sharedOrderings) {ref : StreamRef}
    (href : c.Has ref) (hrefusing : c.outbox.accepting = false) (b : RecordBuilder) :
    OnlyIf (c.Room b (c.stream ref)) (appendTo ref b c) := by
  rcases appendTo_cases hsize href b with ⟨e, s, happend, hresult⟩ | ⟨s, happend, hrest⟩
  · have hnone : ¬ c.Room b (c.stream ref) := fun ⟨s', hs', _⟩ => by cases happend.symm.trans hs'
    rw [hresult]
    rcases RecordStream.append_cases b (c.stream ref) with ⟨s', hs', -⟩ | ⟨e', s', hs', -, hfault⟩
    · cases happend.symm.trans hs'
    · cases happend.symm.trans hs'
      rcases hfault with rfl | ⟨cause, rfl⟩
      · exact .closed hnone
      · exact .wire hnone
  · rcases hrest with ⟨hroom, hresult⟩ | ⟨hfull, hsends⟩
    · rw [hresult]
      exact .ok ⟨s, happend, hroom⟩
    · -- The records would have to be sent.
      have hnone : ¬ c.Room b (c.stream ref) := fun ⟨s', hs', hroom⟩ => by
        cases happend.symm.trans hs'
        cases hroom.symm.trans hfull
      have hsome : s.take.1 ≠ .ok none := by
        rcases RecordStream.append_cases b (c.stream ref) with ⟨s', hs', -, hsome⟩ | ⟨e, s', hs', -⟩
        · cases happend.symm.trans hs'
          exact hsome
        · cases happend.symm.trans hs'
      refine (hsends.onlyIf ?_).congr ⟨fun h => absurd h hsome, fun h => absurd h hnone⟩
      cases ref <;> exact hrefusing

/-- The stream that a thread gets is the one that its records go to. -/
private theorem obtain_target (hplaced : c.Placed) (thread : ThreadId) :
    ∃ ref c', obtain thread c = .ok ref c' ∧ c'.Placed ∧ c'.Has ref ∧
      c'.stream ref = c.target thread none ∧ c'.settings = c.settings ∧ c'.outbox = c.outbox := by
  unfold target streamOf?
  cases hstream : c.streamOf[thread]? with
  | some p =>
    exact ⟨.own p, c, obtain_of_some hstream, hplaced, hplaced.inRange thread p hstream, rfl, rfl,
      rfl⟩
  | none =>
    exact ⟨.own c.own.size, _, obtain_of_none hstream, hplaced.obtain thread _,
      has_push.2 (.inr rfl), (stream_push c _ _).trans (if_pos rfl), rfl, rfl⟩

/-- **Finishing a record when no frames are accepted** succeeds exactly when the record can be kept
back. -/
theorem finishEvent_onlyIf (hplaced : c.Placed) (hrefusing : c.outbox.accepting = false)
    {w : EventWriter} (hfault : w.fault = none) :
    OnlyIf (c.KeepsBack thread w) (finishEvent thread w c) := by
  rw [finishEvent, hfault]
  cases hordering : w.ordering with
  | none =>
    obtain ⟨ref, c', hobtain, hplaced', href, hstream, hsettings, houtbox⟩ :=
      obtain_target hplaced thread
    have hrefusing' : c'.outbox.accepting = false := by
      rw [houtbox]
      exact hrefusing
    change OnlyIf _ (appendLocal thread w.record c)
    rw [appendLocal, Step.bind_of_ok hobtain]
    refine (appendTo_onlyIf hplaced'.size_shared href hrefusing' w.record).congr ?_
    rw [Room, hstream, hsettings]
    refine ⟨fun hroom => ⟨?_, fun hshared => absurd hordering hshared⟩, fun hkeeps => ?_⟩
    · rw [hordering]
      exact hroom
    · rw [← hordering]
      exact hkeeps.room
  | some i =>
    have hshared : w.ordering ≠ none := by
      rw [hordering]
      nofun
    have hthere : c.Has (.shared i) := trivial
    have hroomIff : c.Room w.record (c.stream (.shared i)) ↔
        c.Room w.record (c.target thread w.ordering) := by
      rw [hordering]
      exact Iff.rfl
    change OnlyIf _ (appendShared thread i w.record c)
    rw [appendShared, Step.get_bind]
    cases hstream : c.streamOf[thread]? with
    | none =>
      have hnone : c.streamOf? thread = none := congrArg (Option.map StreamRef.own) hstream
      rw [hnone]
      refine (appendTo_onlyIf hplaced.size_shared hthere hrefusing w.record).congr ?_
      exact ⟨fun hroom => ⟨hroomIff.1 hroom, fun _ ref href => by cases hnone.symm.trans href⟩,
        fun hkeeps => hroomIff.2 hkeeps.room⟩
    | some p =>
      have hsome : c.streamOf? thread = some (.own p) :=
        congrArg (Option.map StreamRef.own) hstream
      have hsends := sealStream_sends (.own p) c
      rw [hsome]
      have honly := hsends.onlyIf hrefusing
      have hidle : c.KeepsBack thread w → (c.stream (.own p)).take.1 = .ok none :=
        fun hkeeps => hkeeps.idle hshared _ hsome
      cases hseal : sealStream (.own p) c with
      | error e d =>
        -- What the thread holds back would have to be sent before.
        rw [hseal] at honly
        simp only [Step.bind_of_error hseal]
        cases honly with
        | closed hbusy => exact .closed fun hkeeps => hbusy (hidle hkeeps)
        | wire hbusy => exact .wire fun hkeeps => hbusy (hidle hkeeps)
      | ok a d =>
        rw [hseal] at honly hsends
        obtain ⟨hnothing⟩ := honly
        simp only [Step.bind_of_ok hseal]
        cases hsends with
        | sent h => cases hnothing.symm.trans h
        | nothing h =>
          have hplaced' := hplaced.setStream (.own p) (c.stream (.own p)).take.2
          have hthere' : (c.setStream (.own p) (c.stream (.own p)).take.2).Has (.shared i) := hthere
          refine (appendTo_onlyIf hplaced'.size_shared hthere' hrefusing w.record).congr ?_
          refine ⟨fun hroom => ⟨hroomIff.1 hroom, fun _ ref href => ?_⟩,
            fun hkeeps => hroomIff.2 hkeeps.room⟩
          cases hsome.symm.trans href
          exact hnothing

/-! ### A client that is closed -/

/-- A client is closed if the session was asked to end, or if the transport has failed. Then it
accepts no frames, and none waits. -/
structure Latched (c : Client) : Prop where
  closed_iff : c.closed = true ↔ c.ending = true ∨ c.outbox.failure ≠ none
  refusing : c.closed = true → c.outbox.accepting = false
  empty : c.closed = true → c.outbox.waiting.toList = []

theorem latched_start (settings : ClientSettings) : ({ settings } : Client).Latched where
  closed_iff := by simp
  refusing h := by cases h
  empty h := by cases h

theorem lasting_latched : Lasting Latched where
  setStream _ ref _ h := by
    cases ref <;> exact ⟨h.closed_iff, h.refusing, h.empty⟩
  obtained _ _ _ h := ⟨h.closed_iff, h.refusing, h.empty⟩
  detached _ _ h := ⟨h.closed_iff, h.refusing, h.empty⟩
  frees _ _ h := ⟨h.closed_iff, h.refusing, h.empty⟩
  methods _ _ h := ⟨h.closed_iff, h.refusing, h.empty⟩
  push _ _ haccepting h := by
    refine ⟨h.closed_iff, h.refusing, fun hclosed => ?_⟩
    cases (h.refusing hclosed).symm.trans haccepting

theorem lasting_placed : Lasting Placed where
  setStream _ ref s h := h.setStream ref s
  obtained _ thread s h := h.obtain thread s
  detached _ thread h := h.detach thread
  frees _ _ h := ⟨h.size_shared, h.inRange, h.single⟩
  methods _ _ h := ⟨h.size_shared, h.inRange, h.single⟩
  push _ _ _ h := ⟨h.size_shared, h.inRange, h.single⟩

theorem Latched.runSender (h : c.Latched) (deliver : Nat → Delivery) :
    (c.runSender deliver).2.Latched ∧
      (c.closed = true → (c.runSender deliver).1 = [] ∧ (c.runSender deliver).2.closed = true) := by
  have hclosed : (c.runSender deliver).2.closed =
      (c.closed || (c.outbox.pump deliver).2.failure.isSome) := rfl
  have hstays (hyes : c.closed = true) : (c.runSender deliver).2.closed = true := by
    rw [hclosed, hyes, Bool.true_or]
  refine ⟨?_, fun hyes => ⟨(Outbox.pump_of_empty (h.empty hyes)).1, hstays hyes⟩⟩
  -- What fails now leaves nothing that waits, and accepts nothing.
  have hlast (hyes : (c.runSender deliver).2.closed = true) :
      (c.outbox.pump deliver).2.accepting = false ∧
        (c.outbox.pump deliver).2.waiting.toList = [] := by
    rcases Outbox.pump_cases deliver c.outbox with ⟨hfailure, haccepting⟩ | ⟨hempty, hrefusing⟩
    · have hbefore : c.closed = true := by
        rw [hclosed, hfailure, Bool.or_eq_true] at hyes
        refine hyes.elim id fun hsome => h.closed_iff.2 (.inr ?_)
        exact Option.isSome_iff_ne_none.1 hsome
      exact ⟨haccepting.trans (h.refusing hbefore), (Outbox.pump_of_empty (h.empty hbefore)).2⟩
    · exact ⟨hrefusing, hempty⟩
  refine ⟨?_, fun hyes => (hlast hyes).1, fun hyes => (hlast hyes).2⟩
  have hfailed : c.outbox.failure ≠ none → (c.outbox.pump deliver).2.failure ≠ none :=
    fun hfailed hnone => hfailed (Outbox.failure_of_pump hnone)
  rw [hclosed, Bool.or_eq_true, h.closed_iff, Option.isSome_iff_ne_none, or_assoc]
  exact or_congr_right ⟨fun hor => hor.elim hfailed id, .inr⟩

/-- The end of a session: what is held back goes to the outbox, and then the sender runs. What waits
still is given up, if the transport has not failed. -/
theorem shutdown_final (hending : c.ending = false) {deliver : Nat → Delivery}
    {answer : Except ClientError Unit} {out : List Bytes} {c' : Client}
    (h : c.shutdown deliver = (answer, out, c')) :
    ∃ d, d = Step.final (closeAll { c with ending := true, closed := true }) ∧
      out = (d.outbox.close.pump deliver).1 ∧
      ((c' = (runSender deliver { d with outbox := d.outbox.close }).2 ∧
          ((d.outbox.close.pump deliver).2.failure = none →
            (d.outbox.close.pump deliver).2.waiting.toList = [])) ∨
        c' = { (runSender deliver { d with outbox := d.outbox.close }).2 with
          outbox := (d.outbox.close.pump deliver).2.abort }) := by
  have hempty {q : Fifo Bytes} (h : q.isEmpty = true) : q.toList = [] := by
    rw [← List.length_eq_zero_iff, q.length_toList]
    exact eq_of_beq h
  refine ⟨_, rfl, ?_⟩
  rw [shutdown, hending] at h
  simp only [Bool.false_eq_true, if_false] at h
  cases hclose : closeAll { c with ending := true, closed := true } with
  | ok a d | error e d =>
    simp only [hclose, runSender] at h
    split at h
    · next hfailure =>
      cases h
      exact ⟨rfl, .inl ⟨rfl, fun hnone => by cases hnone.symm.trans hfailure⟩⟩
    · split at h
      · next hwaiting =>
        cases h
        exact ⟨rfl, .inl ⟨rfl, fun _ => hempty hwaiting⟩⟩
      · cases h
        exact ⟨rfl, .inr rfl⟩

/-- What the end of a session leaves alone before the sender runs. -/
private theorem gate_drained (c : Client) :
    (Step.final (closeAll { c with ending := true, closed := true })).gate =
      ({ c with ending := true, closed := true } : Client).gate :=
  (lasting_gate _).keeps_closeAll _ rfl

theorem Latched.shutdown (h : c.Latched) {deliver : Nat → Delivery}
    {answer : Except ClientError Unit} {out : List Bytes} {c' : Client}
    (hshutdown : c.shutdown deliver = (answer, out, c')) :
    c'.Latched ∧ c'.closed = true ∧ (c.closed = true → out = []) := by
  cases hending : c.ending with
  | true =>
    rw [Client.shutdown, hending] at hshutdown
    cases hshutdown
    exact ⟨h, h.closed_iff.2 (.inl hending), fun _ => rfl⟩
  | false =>
    obtain ⟨d, hd, hout, hfinal⟩ := shutdown_final hending hshutdown
    have hgate := gate_drained c
    rw [← hd] at hgate
    have hclosed : d.closed = true := congrArg (·.2.1) hgate
    have hended : d.ending = true := congrArg (·.2.2.1) hgate
    -- Nothing is added to the outbox of a client that was closed before.
    have hbefore (hyes : c.closed = true) : d.outbox.close.waiting.toList = [] := by
      change d.outbox.waiting.toList = []
      have houtbox : d.outbox = c.outbox := by
        rw [hd]
        exact (lasting_outbox (h.refusing hyes)).keeps_closeAll _ rfl
      rw [houtbox]
      exact h.empty hyes
    have hrefusing : (d.outbox.close.pump deliver).2.accepting = false := by
      rcases Outbox.pump_cases deliver d.outbox.close with ⟨-, haccepting⟩ | ⟨-, hrefusing⟩
      · exact haccepting
      · exact hrefusing
    have hrun : (Client.runSender deliver { d with outbox := d.outbox.close }).2.closed = true := by
      change (d.closed || (d.outbox.close.pump deliver).2.failure.isSome) = true
      rw [hclosed, Bool.true_or]
    have hsent (hyes : c.closed = true) : out = [] := by
      rw [hout]
      exact (Outbox.pump_of_empty (hbefore hyes)).1
    rcases hfinal with ⟨hfinal, hwaiting⟩ | hfinal
    · rw [hfinal]
      refine ⟨⟨iff_of_true hrun (.inl hended), fun _ => hrefusing, fun _ => ?_⟩, hrun, hsent⟩
      -- Either the sender stopped without a failure, or it failed now or before.
      rcases Outbox.pump_cases deliver d.outbox.close with ⟨hfailure, -⟩ | ⟨hempty, -⟩
      · by_cases hnone : (d.outbox.close.pump deliver).2.failure = none
        · exact hwaiting hnone
        · have hfailed : c.outbox.failure ≠ none := by
            intro hc
            have hsame : d.outbox.failure = c.outbox.failure := congrArg (·.2.2.2.failure) hgate
            exact hnone (hfailure.trans (hsame.trans hc))
          exact (Outbox.pump_of_empty (hbefore (h.closed_iff.2 (.inr hfailed)))).2
      · exact hempty
    · rw [hfinal]
      exact ⟨⟨iff_of_true hrun (.inl hended), fun _ => rfl, fun _ => rfl⟩, hrun, hsent⟩

/-- The settings, and the streams that threads have. -/
def holdings (c : Client) : ClientSettings × Std.TreeMap ThreadId Nat × Nat :=
  (c.settings, c.streamOf, c.own.size)

theorem holdings_setStream (ref : StreamRef) (s : RecordStream) (c : Client) :
    (c.setStream ref s).holdings = c.holdings := by
  unfold holdings
  rw [streamOf_setStream, size_own_setStream]
  cases ref <;> rfl

/-- What sends a frame does nothing else. -/
theorem Sends.holdings {frame : Except WireError (Option Bytes)} (h : Sends frame c result) :
    (Step.final result).holdings = c.holdings := by
  obtain ⟨frame', hfinal, -⟩ := h.final
  rw [hfinal]
  cases frame' <;> rfl

theorem holdings_sealStream (ref : StreamRef) (c : Client) :
    (Step.final (sealStream ref c)).holdings = c.holdings :=
  (sealStream_sends ref c).holdings.trans (holdings_setStream ref _ c)

theorem holdings_closeStream (ref : StreamRef) (c : Client) :
    (Step.final (closeStream ref c)).holdings = c.holdings :=
  (holdings_sealStream ref _).trans (holdings_setStream ref _ c)

/-- The end of a stream takes it away from its thread. -/
theorem holdings_endStream {p : Nat} (h : c.streamOf[thread]? = some p) :
    (Step.final (endStream thread c)).holdings =
      ({ c with streamOf := c.streamOf.erase thread } : Client).holdings := by
  rw [endStream_of_some h]
  refine Keeps.bind (fun d hd => (holdings_closeStream _ d).trans hd)
    (fun _ => .bind .get fun _ => ?_) _ rfl
  exact fun d hd => (enqueueMessage_sends _ d).holdings.trans hd

/-- **The end of a session** gives no thread a stream, and takes none away. -/
theorem holdings_shutdown (hending : c.ending = false) {deliver : Nat → Delivery}
    {answer : Except ClientError Unit} {out : List Bytes} {c' : Client}
    (h : c.shutdown deliver = (answer, out, c')) : c'.holdings = c.holdings := by
  have hclose (ref : StreamRef) : Keeps (·.holdings = c.holdings) (closeStream ref) :=
    fun d hd => (holdings_closeStream ref d).trans hd
  have hdrained : Keeps (·.holdings = c.holdings) closeAll :=
    .bind .get fun _ => .bind (.forM (fun ⟨_, ref⟩ => hclose ref) _) fun _ =>
      .bind (.forM hclose _) fun _ => .bind (.modify fun _ hd => hd) fun _ =>
        .bind (fun d hd => (sealFrees_sends d).holdings.trans hd) fun _ d hd =>
          (enqueueMessage_sends .close d).holdings.trans hd
  have hkept := hdrained { c with ending := true, closed := true } rfl
  obtain ⟨d, rfl, -, hfinal⟩ := shutdown_final hending h
  rcases hfinal with ⟨rfl, -⟩ | rfl <;> exact hkept

/-- What is kept when a thread gets the next stream, and when one gives up its stream, lasts. -/
theorem lasting_streams {Q : Std.TreeMap ThreadId Nat → Nat → Prop}
    (hobtained : ∀ streamOf n (thread : ThreadId), Q streamOf n →
      Q (streamOf.insert thread n) (n + 1))
    (hdetached : ∀ streamOf n (thread : ThreadId), Q streamOf n → Q (streamOf.erase thread) n) :
    Lasting fun c => Q c.streamOf c.own.size where
  setStream c ref s h := by rwa [streamOf_setStream, size_own_setStream]
  obtained c thread s h := by
    rw [Array.size_push]
    exact hobtained _ _ thread h
  detached c thread h := hdetached _ _ thread h
  frees _ _ h := h
  methods _ _ h := h
  push _ _ _ h := h

/-- A stream that there is goes to no other thread. -/
theorem lasting_only (p : Nat) (A : ThreadId → Prop) : Lasting fun c =>
    p < c.own.size ∧ ∀ thread : ThreadId, c.streamOf[thread]? = some p → A thread := by
  refine lasting_streams (Q := fun streamOf n =>
    p < n ∧ ∀ thread : ThreadId, streamOf[thread]? = some p → A thread) ?_ ?_
  · rintro streamOf n other ⟨hlt, hA⟩
    refine ⟨Nat.lt_succ_of_lt hlt, fun thread hp => ?_⟩
    rw [getElem?_insert] at hp
    split at hp
    · cases hp
      exact absurd hlt (Nat.lt_irrefl _)
    · exact hA thread hp
  · rintro streamOf n other ⟨hlt, hA⟩
    refine ⟨hlt, fun thread hp => ?_⟩
    rw [getElem?_erase] at hp
    split at hp
    · cases hp
    · exact hA thread hp

/-! ### Streams that have ended -/

/-- The stream that a record goes to is there and has ended. -/
def Shut (c : Client) (thread : ThreadId) : Option UInt8 → Prop
  | some i => (c.stream (.shared i)).closed = true
  | none => ∃ p, c.streamOf[thread]? = some p ∧ (c.stream (.own p)).closed = true

/-- A stream that has ended takes no record. -/
theorem Shut.not_keepsBack {w : EventWriter} (h : c.Shut thread w.ordering) :
    ¬ c.KeepsBack thread w := by
  have hclosed : (c.target thread w.ordering).closed = true := by
    cases hordering : w.ordering with
    | some i =>
      rw [hordering] at h
      exact h
    | none =>
      rw [hordering] at h
      obtain ⟨p, hp, hclosed⟩ := h
      rw [target, streamOf?, hp]
      exact hclosed
  intro hkeeps
  obtain ⟨s, hs, -⟩ := hkeeps.room
  rw [RecordStream.append_of_closed hclosed] at hs
  cases hs

/-- Streams end, but do not begin again, and threads keep theirs. -/
structure Onward (c c' : Client) : Prop where
  placed : c'.Placed
  has : ∀ ref, c.Has ref → c'.Has ref
  closed : ∀ ref, c.Has ref → (c.stream ref).closed = true → (c'.stream ref).closed = true
  streamOf : ∀ (t : ThreadId) p, c.streamOf[t]? = some p → c'.streamOf[t]? = some p

namespace Onward

variable {c₀ c' : Client} {ref : StreamRef}

theorem refl (h : c.Placed) : Onward c c := ⟨h, fun _ h => h, fun _ _ h => h, fun _ _ h => h⟩

theorem trans {d : Client} (h : Onward c₀ c) (h' : Onward c d) : Onward c₀ d where
  placed := h'.placed
  has ref href := h'.has ref (h.has ref href)
  closed ref href hclosed := h'.closed ref (h.has ref href) (h.closed ref href hclosed)
  streamOf t p hp := h'.streamOf t p (h.streamOf t p hp)

theorem shut (h : Onward c c') (hplaced : c.Placed) {ordering : Option UInt8}
    (hshut : c.Shut thread ordering) : c'.Shut thread ordering := by
  cases ordering with
  | some i => exact h.closed (.shared i) trivial hshut
  | none =>
    obtain ⟨p, hp, hclosed⟩ := hshut
    exact ⟨p, h.streamOf thread p hp, h.closed (.own p) (hplaced.inRange thread p hp) hclosed⟩

theorem setStream (h : Onward c₀ c) {s : RecordStream}
    (hs : (c.stream ref).closed = true → s.closed = true) : Onward c₀ (c.setStream ref s) where
  placed := h.placed.setStream ref s
  has other hother := (has_setStream ref s other).2 (h.has other hother)
  closed other hother hclosed := by
    have hbefore := h.closed other hother hclosed
    by_cases href : c.Has ref
    · rw [stream_setStream_of_has h.placed.size_shared href]
      split
      · next heq =>
        rw [heq] at hbefore
        exact hs hbefore
      · exact hbefore
    · rw [setStream_of_not_has href]
      exact hbefore
  streamOf t p hp := by
    rw [streamOf_setStream]
    exact h.streamOf t p hp

theorem same (h : Onward c₀ c) (hc : c.SameStreams c') : Onward c₀ c' where
  placed := hc.placed h.placed
  has ref href := (hc.has ref).2 (h.has ref href)
  closed ref href hclosed := by
    rw [hc.stream]
    exact h.closed ref href hclosed
  streamOf t p hp := by
    rw [hc.streamOf]
    exact h.streamOf t p hp

theorem sends (h : Onward c₀ c) {frame : Except WireError (Option Bytes)}
    (hsends : Sends frame c result) : Onward c₀ (Step.final result) := by
  obtain ⟨frame', hfinal, -⟩ := hsends.final
  rw [hfinal]
  exact h.same (c.sameStreams_posted frame')

theorem keeps_enqueueMessage (m : Message) : Keeps (Onward c₀) (enqueueMessage m) :=
  fun c h => h.sends (enqueueMessage_sends m c)

theorem keeps_sealStream (ref : StreamRef) : Keeps (Onward c₀) (sealStream ref) := by
  intro c h
  have hset : Onward c₀ (c.setStream ref (c.stream ref).take.2) := h.setStream fun hclosed => by
    unfold RecordStream.take
    cases (c.stream ref).batch <;> exact hclosed
  exact hset.sends (sealStream_sends ref c)

theorem keeps_closeStream (ref : StreamRef) : Keeps (Onward c₀) (closeStream ref) :=
  .bind (.modify fun _ h => h.setStream fun _ => rfl) fun _ => keeps_sealStream ref

theorem keeps_appendTo (ref : StreamRef) (b : RecordBuilder) :
    Keeps (Onward c₀) (appendTo ref b) := by
  refine .bind (fun c h => ?_) fun _ => .bind .get fun c => ?_
  · have hset (s : RecordStream) (hgate : (c.stream ref).SameGate s) :
        Onward c₀ (c.setStream ref s) := h.setStream fun hclosed => hgate.closed.trans hclosed
    rw [onStream_eq]
    rcases RecordStream.append_cases b (c.stream ref) with ⟨s, hs, hgate, -⟩ | ⟨e, s, hs, hgate, -⟩
    · rw [hs]
      exact hset s hgate
    · rw [hs]
      exact hset s hgate
  · split
    · exact keeps_sealStream ref
    · exact .pure _

theorem keeps_obtain (thread : ThreadId) : Keeps (Onward c₀) (obtain thread) := by
  intro c h
  cases hstream : c.streamOf[thread]? with
  | some p =>
    rw [obtain_of_some hstream]
    exact h
  | none =>
    rw [obtain_of_none hstream]
    have hstreams (s : RecordStream) {ref : StreamRef} (href : c.Has ref) :
        ({ c with own := c.own.push s } : Client).stream ref = c.stream ref := by
      have hne : ref ≠ .own c.own.size := fun heq => c.not_has_size (heq ▸ href)
      exact (stream_push c s ref).trans (if_neg hne)
    exact {
      placed := h.placed.obtain thread _
      has := fun ref href => has_push.2 (.inl (h.has ref href))
      closed := fun ref href hclosed => by
        refine Eq.trans ?_ (h.closed ref href hclosed)
        exact congrArg RecordStream.closed (hstreams _ (h.has ref href))
      streamOf := fun t p hp => by
        have hbefore := h.streamOf t p hp
        change (c.streamOf.insert thread c.own.size)[t]? = some p
        rw [getElem?_insert, if_neg fun heq => by cases (heq ▸ hbefore).symm.trans hstream]
        exact hbefore }

theorem keeps_finishEvent (thread : ThreadId) (w : EventWriter) :
    Keeps (Onward c₀) (finishEvent thread w) := by
  unfold finishEvent
  split
  · exact .throw _
  · exact .bind (keeps_obtain thread) fun ref => keeps_appendTo ref _
  · refine .bind .get fun c => ?_
    split
    · exact .bind (keeps_sealStream _) fun _ => keeps_appendTo _ _
    · exact keeps_appendTo _ _

theorem keeps_register (name : String) : Keeps (Onward c₀) (register name) :=
  keeps_register_of (fun _ => keeps_enqueueMessage _) fun _ _ h => h.same ⟨rfl, rfl, rfl⟩

theorem keeps_dispatch (thread : ThreadId) (id : MethodId) (args : List Value) :
    Keeps (Onward c₀) (dispatch thread id args) :=
  .bind (keeps_beginEvent id none) fun _ => keeps_finishEvent thread _

theorem keeps_tell (m : Message) : Keeps (Onward c₀) (tell m) :=
  .bind keeps_ensureOpen fun _ => keeps_enqueueMessage m

theorem keeps_sealFrees : Keeps (Onward c₀) sealFrees := by
  intro c h
  have hsame : Onward c₀ { c with frees := c.frees.take.2 } := h.same ⟨rfl, rfl, rfl⟩
  exact hsame.sends (sealFrees_sends c)

/-- What is left of the end of a session when all streams have ended. -/
theorem keeps_closeFrees : Keeps (Onward c₀) (do
    modify fun c => { c with frees := { c.frees with closed := true } }
    sealFrees
    enqueueMessage .close) :=
  .bind (.modify fun _ h => h.same ⟨rfl, rfl, rfl⟩) fun _ =>
    .bind keeps_sealFrees fun _ => keeps_enqueueMessage _

theorem keeps_closeAll : Keeps (Onward c₀) closeAll :=
  .bind .get fun _ => .bind (.forM (fun ⟨_, ref⟩ => keeps_closeStream ref) _) fun _ =>
    .bind (.forM keeps_closeStream _) fun _ => keeps_closeFrees

theorem threadGone (h : c.Placed) (thread : ThreadId) : Onward c (c.threadGone thread) := by
  unfold Client.threadGone
  split
  · exact (Onward.refl h).setStream id
  · exact .refl h

theorem runSender (h : c.Placed) (deliver : Nat → Delivery) : Onward c (c.runSender deliver).2 :=
  (Onward.refl h).same ⟨rfl, rfl, rfl⟩

end Onward

/-- What the sender does at the end of a session ends no stream. -/
private theorem onward_final (hplaced : c.Placed) (hending : c.ending = false)
    {deliver : Nat → Delivery} {answer : Except ClientError Unit} {out : List Bytes} {c' : Client}
    (h : c.shutdown deliver = (answer, out, c')) :
    Onward c (Step.final (closeAll { c with ending := true, closed := true })) ∧
      Onward (Step.final (closeAll { c with ending := true, closed := true })) c' := by
  have hmarked : Onward c { c with ending := true, closed := true } :=
    (Onward.refl hplaced).same ⟨rfl, rfl, rfl⟩
  have hdrained := Onward.keeps_closeAll _ hmarked
  obtain ⟨d, rfl, -, hfinal⟩ := shutdown_final hending h
  refine ⟨hdrained, (Onward.refl hdrained.placed).same ?_⟩
  rcases hfinal with ⟨rfl, -⟩ | rfl <;> exact ⟨rfl, rfl, rfl⟩

theorem Onward.shutdown (h : c.Placed) {deliver : Nat → Delivery}
    {answer : Except ClientError Unit} {out : List Bytes} {c' : Client}
    (hshutdown : c.shutdown deliver = (answer, out, c')) : Onward c c' := by
  cases hending : c.ending with
  | true =>
    rw [Client.shutdown, hending] at hshutdown
    cases hshutdown
    exact .refl h
  | false =>
    obtain ⟨hdrained, hafter⟩ := onward_final h hending hshutdown
    exact hdrained.trans hafter

/-- Streams that were ended one after the other have ended. -/
private theorem closed_of_forM {α : Type} {g : α → StreamRef} {as : List α} {c' : Client}
    (hplaced : c.Placed) (hhas : ∀ a ∈ as, c.Has (g a))
    (h : (as.forM fun a => closeStream (g a)) c = .ok ⟨⟩ c') :
    ∀ a ∈ as, (c'.stream (g a)).closed = true := by
  induction as generalizing c with
  | nil => exact fun a ha => absurd ha List.not_mem_nil
  | cons a as ih =>
    obtain ⟨_, d, hfirst, hrest⟩ := Step.bind_eq_ok_iff.1 h
    change closeStream (g a) c = .ok _ d at hfirst
    have hbefore : Onward c d := by
      have hkeeps := Onward.keeps_closeStream (g a) c (.refl hplaced)
      rwa [hfirst] at hkeeps
    have hafter : Onward d c' := by
      have hkeeps := Keeps.forM (fun a => Onward.keeps_closeStream (g a)) as d
        (.refl hbefore.placed)
      rwa [hrest] at hkeeps
    have ha : c.Has (g a) := hhas a List.mem_cons_self
    have hclosed : (d.stream (g a)).closed = true := by
      obtain ⟨frame, hfinal, -⟩ := (closeStream_sends hplaced.size_shared ha).final
      rw [hfirst] at hfinal
      have hd : d = _ := hfinal
      rw [hd, (sameStreams_posted _ frame).stream, stream_setStream_of_has hplaced.size_shared ha,
        if_pos rfl]
    refine List.forall_mem_cons.2 ⟨hafter.closed _ (hbefore.has _ ha) hclosed, ?_⟩
    exact ih hbefore.placed
      (fun b hb => hbefore.has _ (hhas b (List.mem_cons_of_mem a hb))) hrest

/-- All streams have ended when their ends went to the outbox. -/
private theorem shut_of_closeAll (hplaced : c.Placed) {c' : Client}
    (h : closeAll c = .ok ⟨⟩ c') : (∀ thread i, c'.Shut thread (some i)) ∧
      ∀ thread p, c.streamOf[thread]? = some p → c'.Shut thread none := by
  rw [closeAll, Step.get_bind] at h
  obtain ⟨_, d, hown, h⟩ := Step.bind_eq_ok_iff.1 h
  obtain ⟨_, d', hshared, h⟩ := Step.bind_eq_ok_iff.1 h
  change (c.ownRefs.forM fun (entry : ThreadId × StreamRef) => closeStream entry.2) c = .ok _ d
    at hown
  have hfirst : Onward c d := by
    have hkeeps : Keeps (Onward c)
        (c.ownRefs.forM fun (entry : ThreadId × StreamRef) => closeStream entry.2) :=
      .forM (fun _ => Onward.keeps_closeStream _) _
    have hfinal := hkeeps c (.refl hplaced)
    rwa [hown] at hfinal
  have hsecond : Onward d d' := by
    have hkeeps : Keeps (Onward d) (sharedRefs.forM closeStream) :=
      .forM Onward.keeps_closeStream _
    have hfinal := hkeeps d (.refl hfirst.placed)
    rwa [hshared] at hfinal
  have hthird : Onward d' c' := by
    have hfinal := Onward.keeps_closeFrees d' (.refl hsecond.placed)
    rwa [h] at hfinal
  constructor
  · intro thread i
    have hhas : ∀ ref ∈ sharedRefs, d.Has ref := by
      intro ref href
      obtain ⟨_, -, rfl⟩ := List.mem_map.1 href
      trivial
    have hclosed := closed_of_forM hfirst.placed hhas hshared (.shared i) (Ledger.mem_sharedRefs i)
    exact hthird.closed (.shared i) trivial hclosed
  · intro thread p hp
    have hhas : ∀ entry ∈ c.ownRefs, c.Has entry.2 := by
      intro entry hentry
      obtain ⟨q, href, hq⟩ := mem_ownRefs.1 hentry
      rw [href]
      exact hplaced.inRange entry.1 q hq
    have hentry : (thread, StreamRef.own p) ∈ c.ownRefs := mem_ownRefs.2 ⟨p, rfl, hp⟩
    have hclosed : d.Shut thread none :=
      ⟨p, hfirst.streamOf thread p hp, closed_of_forM hplaced hhas hown _ hentry⟩
    exact hthird.shut hsecond.placed (hsecond.shut hfirst.placed hclosed)

/-- **A session that was ended in order** has ended the shared streams, and those of the threads
that had one. -/
theorem shut_of_shutdown (hplaced : c.Placed) (hending : c.ending = false)
    {deliver : Nat → Delivery} {out : List Bytes} {c' : Client}
    (h : c.shutdown deliver = (.ok (), out, c')) : (∀ thread i, c'.Shut thread (some i)) ∧
      ∀ thread p, c.streamOf[thread]? = some p → c'.Shut thread none := by
  obtain ⟨d, hclose, -⟩ := closeAll_of_shutdown hending h
  obtain ⟨hdrained, hafter⟩ := onward_final hplaced hending h
  rw [hclose] at hdrained hafter
  obtain ⟨hshared, hown⟩ :=
    shut_of_closeAll (c := { c with ending := true, closed := true })
      ⟨hplaced.size_shared, hplaced.inRange, hplaced.single⟩ hclose
  exact ⟨fun thread i => hafter.shut hdrained.placed (hshared thread i),
    fun thread p hp => hafter.shut hdrained.placed (hown thread p hp)⟩

end Client

end TraceRelay
