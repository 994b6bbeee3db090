import TraceRelay.Proofs.Client.Receipts
import TraceRelay.Proofs.Codec.Limits

/-!
# Records that are lost

A call that is to send a record and fails loses no record that was accepted before, unless records
are too large for a frame: then all records that one stream held back are lost, and no others. What
is not lost goes to the outbox the next time that all is sent. A stream takes a record without a
look at the size of the frame, and gives up what it holds before the frame is made.

## Main definitions

* `Custody.Overfull` : the records of a stream, with one more, are too large for a frame.
* `Custody.Loses` : what a call loses that fails.

## Main results

* `Run.InCustody.failed` : a call that fails loses no more than that.
* `Run.InCustody.swept` : what goes to the outbox when all is sent.
* `Run.failed_record_loses` : both, for any session.
* `Run.accepted_lost_by_dispatch` : a session in which records are lost.
-/

namespace TraceRelay

/-- Whether a stream is full that holds records is told by their number and by the size of their
frame. -/
theorem RecordStream.isFull_of_holds {s : RecordStream} {records : List Record}
    (h : s.Holds records) (hsome : records ≠ []) (settings : ClientSettings) :
    s.isFull settings = (decide (settings.batchRecords.toNat ≤ records.length) ||
      decide (settings.batchBytes ≤ 17 + (records.map Record.wireSize).sum)) := by
  unfold Holds at h
  unfold isFull
  cases hs : s.batch with
  | none =>
    rw [hs] at h
    exact absurd h hsome
  | some batch =>
    rw [hs] at h
    obtain ⟨items, hitems, hframe⟩ := AnalyzeBatch.Holds.frame h
    have hcount : batch.count.toNat = records.length := hframe.items
    have hsize : batch.size = 17 + (records.map Record.wireSize).sum := by
      rw [← (Record.takes_writeAll records).length items hitems]
      change batch.frame.buffer.size = _
      rw [← Buffer.length_toList, hframe.buffer]
      simp [Bytes.ofUInt64, Bytes.length_littleEndian]
      omega
    dsimp only
    rw [hsize, ← hcount]
    rfl

namespace Custody

variable {k k' : Custody} {e : Receipt} {cause : ClientError} {c : Client} {ref : StreamRef}

/-- The records of a stream are too large for a frame, or would be so with one more. -/
def Overfull (k : Custody) (ref : StreamRef) : Prop :=
  ∃ more : Option Record, (Message.analyze ref.ordering
    ((k.held ref).map (·.record) ++ more.toList)).toBytes = .error .batchTooLarge

/-- What was lost by a call that failed: nothing, or all records of a stream that is too full. -/
def Loses (k : Custody) (cause : ClientError) (k' : Custody) : Prop :=
  k'.lost = k.lost ∨ cause = .wire .batchTooLarge ∧
    ∃ ref, k.Overfull ref ∧ k'.lost = k.lost ++ k.held ref

private theorem Takes.failed (h : k.Takes e true (.error cause c) k') :
    (∀ P, Lasting P → P k → P k') ∧ (k'.lost = k.lost ∨
      cause = .wire .batchTooLarge ∧ k.Overfull e.ref ∧ k'.lost = k.lost ++ k.held e.ref) := by
  cases h with
  | refused => exact ⟨fun _ _ hk => hk, .inl rfl⟩
  | closed hno => cases hno
  | unwritable hlarge =>
    refine ⟨fun _ hP => hP.lose k e.ref, .inr ⟨rfl, ⟨some e.record, ?_⟩, rfl⟩⟩
    have hheld : (k.take e).held e.ref = k.held e.ref ++ [e] := if_pos rfl
    rw [message, hheld, List.map_append] at hlarge
    exact hlarge

/-- A record is not accepted, while frames are. -/
theorem Finishes.failed (h : k.Finishes e true (.error cause c) k') :
    (∀ P, Lasting P → P k → P k') ∧ k.Loses cause k' := by
  cases h with
  | refused => exact ⟨fun _ _ hk => hk, .inl rfl⟩
  | taken hready htakes =>
    exact htakes.failed.imp_right (Or.imp_right (And.imp_right (⟨_, ·⟩)))
  | @blocked p _ _ _ hships =>
    cases hships with
    | refused hno => cases hno
    | unwritable hlarge =>
      refine ⟨fun _ hP => hP.lose k _, .inr ⟨rfl, .own p, ⟨none, ?_⟩, rfl⟩⟩
      rw [Option.toList_none, List.append_nil]
      exact hlarge
  | @passed p _ _ _ _ hships hready htakes =>
    cases hships with
    | nothing => exact htakes.failed.imp_right (Or.imp_right (And.imp_right (⟨_, ·⟩)))
    | sent =>
      refine htakes.failed.imp (fun hlasts P hP hk => hlasts P hP (hP.ship k _ hk)) ?_
      rintro (hsame | ⟨hcause, ⟨more, hlarge⟩, hlost⟩)
      · exact .inl hsame
      · have hheld : (k.ship (.own p)).held e.ref =
            if e.ref = .own p then [] else k.held e.ref := rfl
        rw [hheld] at hlarge hlost
        split at hlost
        · exact .inl (hlost.trans (List.append_nil _))
        · next hne =>
          rw [if_neg hne] at hlarge
          exact .inr ⟨hcause, e.ref, ⟨more, hlarge⟩, hlost⟩

end Custody

namespace Client

variable {c c' : Client} {past : List Bytes} {k k' : Custody} {thread : ThreadId}
  {cause : ClientError}

/-- What is known after a call that was to send a record, and failed. -/
def Failed (past : List Bytes) (k : Custody) (cause : ClientError) (c : Client) : Prop :=
  ∃ k', c.Attests past k' ∧ c.Assigns k' ∧ k.Loses cause k' ∧
    ∀ P : Custody → Prop, Custody.Lasting P → P k → P k'

theorem Failed.of_finishes {e : Receipt} {result : Custody.Result}
    (hfinishes : k.Finishes e c.outbox.accepting result k')
    (hattests : (Step.final result).Attests past k') (hassigns : (Step.final result).Assigns k')
    (haccepting : c.outbox.accepting = true) (hfails : result = .error cause c') :
    c'.Failed past k cause := by
  subst hfails
  rw [haccepting] at hfinishes
  exact ⟨k', hattests, hassigns, hfinishes.failed.2, hfinishes.failed.1⟩

theorem failed_finishEvent (h : c.Attests past k) (hassigns : c.Assigns k)
    (haccepting : c.outbox.accepting = true) {w : EventWriter} {r : Record}
    (hw : w.fault = none → w.record.Holds r) (hfails : finishEvent thread w c = .error cause c') :
    c'.Failed past k cause := by
  obtain ⟨k', hfinishes, hattests, hassigns'⟩ := h.finishes hassigns thread hw 0
  exact .of_finishes hfinishes hattests hassigns' haccepting hfails

theorem failed_dispatch (h : c.Attests past k) (hassigns : c.Assigns k)
    (haccepting : c.outbox.accepting = true) {id : MethodId} {args : List Value}
    (hfails : dispatch thread id args c = .error cause c') : c'.Failed past k cause := by
  obtain ⟨k', hfinishes, hattests, hassigns'⟩ := h.dispatches hassigns thread id args 0
  exact .of_finishes hfinishes hattests hassigns' haccepting hfails

end Client

/-- A call that is to have a record accepted. -/
def Call.offers : Call → Bool
  | .dispatch .. | .finish .. => true
  | _ => false

namespace Run

variable {settings : ClientSettings} {ts us : List Turn} {t : Turn} {k k' : Custody} {e : Receipt}
  {call : Call} {cause : ClientError} {past : List Bytes} {r : Run}

/-! ### A call that fails -/

private theorem perform_of_fault {step : EStateM ClientError Client Unit} {ref : StreamRef}
    {record : Record}
    (h : (r.perform step fun _ => accept ref record).faults = r.faults ++ [cause]) :
    ∃ c, step r.client = .error cause c ∧
      (r.perform step fun _ => accept ref record).client = c ∧
      (r.perform step fun _ => accept ref record).accepted = r.accepted := by
  unfold perform at h ⊢
  cases hresult : step r.client with
  | ok a c =>
    rw [hresult] at h
    simpa [accept] using congrArg List.length h
  | error e c =>
    rw [hresult] at h
    cases List.append_cancel_left h
    exact ⟨c, rfl, rfl, rfl⟩

/-- What is known after a call of a session that was to send a record, and failed. -/
private theorem failed_step (h : InCustody settings ts k)
    (hattests : (after settings ts).client.Attests past k) (hoffers : call.offers = true)
    (hfails : ((after settings ts).step call).faults = (after settings ts).faults ++ [cause])
    (haccepting : (after settings ts).client.outbox.accepting = true) :
    ((after settings ts).step call).client.Failed past k cause ∧
      ((after settings ts).step call).accepted = (after settings ts).accepted := by
  cases call with
  | dispatch thread id args =>
    obtain ⟨c, herror, hclient, haccepted⟩ := perform_of_fault hfails
    refine ⟨?_, haccepted⟩
    rw [Run.step, hclient]
    exact Client.failed_dispatch hattests h.assigned haccepting herror
  | finish thread n =>
    cases hd : (after settings ts).drafts n with
    | none =>
      rw [step_finish_of_none hd] at hfails
      simpa using congrArg List.length hfails
    | some d =>
      rw [step_finish_of_some hd] at hfails ⊢
      obtain ⟨c, herror, hclient, haccepted⟩ :=
        perform_of_fault (r := (after settings ts).setDraft n none) hfails
      refine ⟨?_, haccepted⟩
      rw [hclient]
      exact Client.failed_finishEvent hattests h.assigned haccepting
        ((chronicle settings ts).drafts n d hd) herror
  | _ => cases hoffers

/-- A call that fails loses nothing, or all that a stream held back that is too full. -/
theorem InCustody.failed (h : InCustody settings ts k) (hoffers : call.offers = true)
    (hfails : (after settings (ts ++ [Turn.call call])).faults =
      (after settings ts).faults ++ [cause])
    (hopen : (after settings ts).client.closed = false) :
    ∃ k', InCustody settings (ts ++ [Turn.call call]) k' ∧ k.Loses cause k' := by
  obtain ⟨past, henqueued, hattests⟩ := h.attested
  have hafter : after settings (ts ++ [Turn.call call]) = (after settings ts).step call :=
    after_concat settings ts (.call call)
  have hcall (deliver : Nat → Delivery) : call ≠ .runSender deliver := fun heq => by
    rw [heq] at hoffers
    cases hoffers
  rw [hafter] at hfails
  obtain ⟨⟨k', hattests', hassigns, hloses, hkeeps⟩, haccepted⟩ :=
    failed_step h hattests hoffers hfails (accepting_after hopen)
  obtain ⟨hknows, hrest⟩ :=
    hkeeps _ (lasting_accounts (Accepts settings ts) k) ⟨h.accepted, h.ordered, List.prefix_rfl⟩
  rw [← hafter] at hattests' hassigns
  have hflush : call ≠ .flush := fun heq => by
    rw [heq] at hoffers
    cases hoffers
  refine ⟨k', (h.next ⟨past, enqueued_call henqueued hcall, hattests'⟩ hassigns
    ⟨fun e => ?_, hrest⟩ ?_ fun hsweeps => absurd hsweeps (not_sweeps hflush)).1, hloses⟩
  · exact (accepts_of_quiet (not_emits haccepted)).trans (hknows e)
  · exact hloses.imp_right fun ⟨hcause, _⟩ => .inl ⟨call, rfl, hcause ▸ hfails⟩

/-! ### What is sent later -/

/-- Calls that do not fail because records are too large lose none, while the session is open. -/
theorem InCustody.turns (h : InCustody settings ts k)
    (hopen : (after settings (ts ++ us)).client.closed = false)
    (hfits : ∀ earlier u later, us = earlier ++ u :: later →
      ¬ (after settings (ts ++ earlier)).Overflows u) :
    ∃ k', InCustody settings (ts ++ us) k' ∧ k.shipped <+: k'.shipped ∧ k'.lost = k.lost := by
  induction us using List.reverseRecOn with
  | nil =>
    rw [List.append_nil]
    exact ⟨k, h, List.prefix_rfl, rfl⟩
  | append_singleton us u ih =>
    rw [← List.append_assoc] at hopen ⊢
    obtain ⟨k₁, hk₁, hshipped, hlost⟩ := ih (open_earlier (List.prefix_append _ _) hopen)
      fun earlier v later heq => hfits earlier v (later ++ [u]) (by rw [heq]; simp)
    obtain ⟨k', hk', hpasses⟩ := hk₁.concat u
    refine ⟨k', hk', hshipped.trans hpasses.shipped, ?_⟩
    rcases hpasses.lost with hsame | hover | hclosed
    · rw [hsame, hlost]
    · exact absurd hover (hfits us u [] rfl)
    · rw [← after_concat] at hclosed
      cases hclosed.symm.trans hopen

theorem Accepts.append (h : Accepts settings ts e) (us : List Turn) :
    Accepts settings (ts ++ us) e := by
  have hlt := h.turn_lt
  obtain ⟨t, hat, hemits⟩ := h
  refine ⟨t, ?_, ?_⟩
  · rwa [List.getElem?_append_left hlt]
  · rwa [List.take_append_of_le_length (Nat.le_of_lt hlt)]

/-- What is not lost goes to the outbox when all is sent. -/
theorem InCustody.swept (h : InCustody settings ts k)
    (hfits : ∀ earlier u later, us = earlier ++ u :: later →
      ¬ (after settings (ts ++ earlier)).Overflows u)
    (hsweeps : (after settings (ts ++ us)).Sweeps t) :
    ∃ k', InCustody settings (ts ++ us ++ [t]) k' ∧
      ∀ e, Accepts settings ts e → e ∉ k.lost → e ∈ k'.log := by
  obtain ⟨k₁, hk₁, -, hlost⟩ := h.turns hsweeps.1 hfits
  obtain ⟨k', hk', hpasses⟩ := hk₁.concat t
  obtain ⟨hempty, hsame⟩ := hpasses.swept hsweeps
  refine ⟨k', hk', fun e he hkept => ?_⟩
  rcases (hk'.accepted e).1 ((he.append us).append [t]) with hlog | ⟨ref, hheld⟩ | hgone
  · exact hlog
  · rw [hempty] at hheld
    cases hheld
  · rw [hsame, hlost] at hgone
    exact absurd hgone hkept

/-- **What a call loses that fails.** If a call that is to have a record accepted fails and the
session is still open, then all records that were accepted before are where they were, or have gone
to the outbox: only if the call tells that records are too large for a frame, the records that one
stream held back are lost, which is too full. All others go to the outbox the next time that all is
sent, if no call tells that in between. -/
theorem failed_record_loses (settings : ClientSettings) (ts : List Turn) (call : Call)
    (cause : ClientError) (hoffers : call.offers = true)
    (hfails : (after settings (ts ++ [Turn.call call])).faults =
      (after settings ts).faults ++ [cause])
    (hopen : (after settings (ts ++ [Turn.call call])).client.closed = false) :
    ∃ k k', InCustody settings ts k ∧ InCustody settings (ts ++ [Turn.call call]) k' ∧
      k.Loses cause k' ∧
      (∀ e, Accepts settings ts e → e ∉ k'.lost → e ∈ k'.log ∨ e ∈ k'.held e.ref) ∧
      ∀ us t, (∀ earlier u later, us = earlier ++ u :: later →
          ¬ (after settings (ts ++ [Turn.call call] ++ earlier)).Overflows u) →
        (after settings (ts ++ [Turn.call call] ++ us)).Sweeps t →
          ∃ k'', InCustody settings (ts ++ [Turn.call call] ++ us ++ [t]) k'' ∧
            ∀ e, Accepts settings ts e → e ∉ k'.lost → e ∈ k''.log := by
  obtain ⟨k, hk⟩ := exists_inCustody settings ts
  obtain ⟨k', hk', hloses⟩ :=
    hk.failed hoffers hfails (open_earlier (List.prefix_append _ _) hopen)
  refine ⟨k, k', hk, hk', hloses, fun e he hkept => ?_, fun us t hfits hsweeps => ?_⟩
  · rcases (hk'.accepted e).1 (he.append _) with hlog | ⟨ref, hheld⟩ | hgone
    · exact .inl hlog
    · rw [hk'.ordered.tagged ref e hheld]
      exact .inr hheld
    · exact absurd hgone hkept
  · obtain ⟨k'', hk'', hsent⟩ := hk'.swept hfits hsweeps
    exact ⟨k'', hk'', fun e he => hsent e (he.append _)⟩

/-- A method gets its id, and one record of it is held back. -/
def oneHeld : List Turn := [.call (.register "X.m"), .call (.dispatch 0 1 [])]

/-- A record with too many arguments. -/
def tooMany : Call := .dispatch 0 1 (List.replicate 256 (.bool true))

theorem failed_record_loses_tooMany :
    tooMany.offers = true ∧
      (after {} (oneHeld ++ [Turn.call tooMany])).faults =
        (after {} oneHeld).faults ++ [ClientError.wire (.tooManyArgs 256)] ∧
      (after {} (oneHeld ++ [Turn.call tooMany])).client.closed = false ∧
      ∃ k k', InCustody {} oneHeld k ∧ InCustody {} (oneHeld ++ [Turn.call tooMany]) k' ∧
        k'.lost = k.lost := by
  have hfails : (after {} (oneHeld ++ [Turn.call tooMany])).faults =
      (after {} oneHeld).faults ++ [ClientError.wire (.tooManyArgs 256)] := by decide +kernel
  have hopen : (after {} (oneHeld ++ [Turn.call tooMany])).client.closed = false := by
    decide +kernel
  obtain ⟨k, k', hk, hk', hloses, -⟩ :=
    failed_record_loses {} oneHeld tooMany (.wire (.tooManyArgs 256)) rfl hfails hopen
  exact ⟨rfl, hfails, hopen, k, k', hk, hk', hloses.resolve_right fun h => by cases h.1⟩

/-! ### A record too many -/

/-- Settings under which records are held back until they are too large for a frame. -/
def roomy : ClientSettings := { batchRecords := 65529, batchBytes := 8589934592 }

/-- A record with many bytes. -/
def wide : Record := ⟨1, [.bytes (List.replicate 65536 0)]⟩

private theorem wireSize_bytes (bs : Bytes) :
    (⟨1, [.bytes bs]⟩ : Record).wireSize = 8 + bs.length := by
  simp only [Record.wireSize, Value.wireSize, List.map_cons, List.map_nil, List.sum_cons,
    List.sum_nil]
  omega

private theorem sum_wide (n : Nat) :
    ((List.replicate n wide).map Record.wireSize).sum = n * 65544 := by
  have hwide : wide.wireSize = 65544 :=
    (wireSize_bytes _).trans (congrArg (8 + ·) List.length_replicate)
  rw [List.map_replicate, hwide, List.sum_replicate_nat]

private theorem replicate_ne_nil (n : Nat) : List.replicate (n + 1) wide ≠ [] :=
  List.cons_ne_nil _ _

/-- A thread that sends as many of these records. -/
def crowd (n : Nat) : List Turn :=
  .call (.register "X.m") :: List.replicate n (.call (.dispatch 0 1 wide.args))

/-- The message that announces the method. -/
def announced : Bytes := [3, 10, 0, 0, 0, 1, 0, 16, 3, 0, 0, 0, 88, 46, 109]

/-- More of these records than this are too large for a frame. -/
private theorem toBytes_wide {s : RecordStream} (hholds : s.Holds (List.replicate 65529 wide)) :
    (Message.analyze s.ordering (List.replicate 65529 wide)).toBytes = .error .batchTooLarge := by
  have htooLarge : (Message.analyze s.ordering (List.replicate 65529 wide)).TooLarge := by
    refine .inr (.inr (.inr ?_))
    rw [Message.bodySize, sum_wide]
    decide
  cases hbytes : (Message.analyze s.ordering (List.replicate 65529 wide)).toBytes with
  | error e => rw [RecordStream.eq_batchTooLarge_of_toBytes hholds (replicate_ne_nil _) hbytes]
  | ok frame =>
    rw [Message.toBytes_eq] at hbytes
    exact absurd htooLarge ((Message.takes_write _).succeeds.1 ⟨frame, hbytes⟩)

theorem take_wide {s : RecordStream} (hholds : s.Holds (List.replicate 65529 wide)) :
    s.take.1 = .error .batchTooLarge := by
  rw [(RecordStream.take_of_holds hholds).1, if_neg (replicate_ne_nil _), toBytes_wide hholds]
  rfl

/-- A client whose thread has as many of these records on its stream, and that has sent nothing but
the name of the method. There is no other stream of a thread, and nothing else is held back. -/
structure Filled (settings : ClientSettings) (n : Nat) (c : Client) : Prop where
  placed : c.Placed
  configured : c.settings = settings
  opened : c.closed = false
  known : c.methods.contains 1 = true
  waiting : c.outbox.waiting.toList = [announced]
  has : c.streamOf[0]? = some 0
  single : c.own.size = 1
  streamOpen : (c.stream (.own 0)).closed = false
  holds : (c.stream (.own 0)).Holds (List.replicate n wide)
  idle : c.SharedIdle
  frees : c.frees.Holds []

namespace Filled

variable {n : Nat} {c d : Client} {b : RecordBuilder} {s : RecordStream}

theorem has_own (h : Filled settings n c) : c.Has (.own 0) := h.placed.inRange 0 0 h.has

private theorem obtain (h : Filled settings n c) : Client.obtain 0 c = .ok (.own 0) c :=
  Client.obtain_of_some h.has

/-- The stream is changed, and nothing else. -/
theorem setStream (h : Filled settings n c) {m : Nat} (hs : (c.stream (.own 0)).closed = s.closed)
    (hholds : s.Holds (List.replicate m wide)) : Filled settings m (c.setStream (.own 0) s) := by
  have hstream := Client.stream_setStream_of_has h.placed.size_shared h.has_own s (.own 0)
  rw [if_pos rfl] at hstream
  exact {
    placed := h.placed.setStream _ s
    configured := h.configured
    opened := h.opened
    known := h.known
    waiting := h.waiting
    has := h.has
    single := (Array.size_setIfInBounds ..).trans h.single
    streamOpen := by rw [hstream, ← hs, h.streamOpen]
    holds := by rwa [hstream]
    idle := h.idle
    frees := h.frees }

/-- The stream takes one more record. -/
private theorem append (h : Filled settings n c) (hn : n < maxUInt32) (hb : b.Holds wide) :
    ∃ s, RecordStream.append b (c.stream (.own 0)) = .ok ⟨⟩ s ∧
      s.Holds (List.replicate (n + 1) wide) ∧ (c.stream (.own 0)).SameGate s := by
  rcases RecordStream.append_of_holds h.holds h.streamOpen hb with
    ⟨s, happend, hholds, hgate, -⟩ | ⟨_, _, -, -, -, ⟨-, hmany⟩ | ⟨-, hargs⟩⟩
  · rw [← List.replicate_succ'] at hholds
    exact ⟨s, happend, hholds, hgate⟩
  · rw [List.length_replicate] at hmany
    omega
  · exact absurd hargs (by decide)

/-- The record stays on the stream. -/
private theorem kept (h : Filled settings n c) (hfew : n + 1 < settings.batchRecords.toNat)
    (hsmall : 17 + (n + 1) * 65544 < settings.batchBytes) (hb : b.Holds wide) :
    ∃ c', Client.appendTo (.own 0) b c = .ok ⟨⟩ c' ∧ Filled settings (n + 1) c' := by
  have hn : n < maxUInt32 := by
    have hlt := settings.batchRecords.toNat_lt
    unfold maxUInt32
    omega
  obtain ⟨s, happend, hholds, hgate⟩ := h.append hn hb
  rcases Client.appendTo_cases h.placed.size_shared h.has_own b with
    ⟨_, _, herror, -⟩ | ⟨s', hok, hrest⟩
  · cases happend.symm.trans herror
  cases happend.symm.trans hok
  have hfull : s.isFull c.settings = false := by
    rw [h.configured, RecordStream.isFull_of_holds hholds (replicate_ne_nil n),
      List.length_replicate, sum_wide, decide_eq_false (Nat.not_le.2 hfew),
      decide_eq_false (Nat.not_le.2 hsmall)]
    rfl
  rcases hrest with ⟨-, hresult⟩ | ⟨hyes, -⟩
  · exact ⟨_, hresult, h.setStream hgate.closed.symm hholds⟩
  · cases hfull.symm.trans hyes

/-- The records are too large for a frame. -/
private theorem lost (h : Filled roomy 65528 c) (hb : b.Holds wide) :
    ∃ c', Client.appendTo (.own 0) b c = .error (.wire .batchTooLarge) c' ∧ c'.closed = false ∧
      c'.outbox.waiting.toList = [announced] ∧ (c'.stream (.own 0)).Holds [] := by
  obtain ⟨s, happend, hholds, hgate⟩ := h.append (by decide) hb
  rcases Client.appendTo_cases h.placed.size_shared h.has_own b with
    ⟨_, _, herror, -⟩ | ⟨s', hok, hrest⟩
  · cases happend.symm.trans herror
  cases happend.symm.trans hok
  have hfull : s.isFull c.settings = true := by
    have hmany : roomy.batchRecords.toNat ≤ 65529 := by decide
    rw [h.configured, RecordStream.isFull_of_holds hholds (replicate_ne_nil _),
      List.length_replicate, decide_eq_true hmany, Bool.true_or]
  rcases hrest with ⟨hno, -⟩ | ⟨-, hsends⟩
  · cases hno.symm.trans hfull
  obtain ⟨-, hempty, -⟩ := RecordStream.take_of_holds hholds
  rw [take_wide hholds] at hsends
  generalize Client.appendTo (.own 0) b c = result at hsends ⊢
  have hstream := Client.stream_setStream_of_has h.placed.size_shared h.has_own s.take.2 (.own 0)
  rw [if_pos rfl] at hstream
  cases hsends with
  | unwritable herror =>
    cases herror
    exact ⟨_, rfl, h.opened, h.waiting, by rwa [hstream]⟩
  | nothing hok | sent hok | refused hok => cases hok

end Filled

private theorem obtain_same {thread : ThreadId} {ref : StreamRef} {c d : Client}
    (h : Client.obtain thread c = .ok ref d) : c.streamFor thread none = ref ∧
      d.closed = c.closed ∧ d.methods = c.methods ∧ d.outbox = c.outbox := by
  unfold Client.obtain at h
  unfold Client.streamFor
  cases hstream : c.streamOf? thread with
  | some ref' | none =>
    rw [hstream] at h
    cases h
    exact ⟨rfl, rfl, rfl, rfl⟩

/-- A run whose thread gets a stream, or has it already, and has sent as many of the records. -/
structure Crowded (settings : ClientSettings) (n : Nat) (r : Run) : Prop where
  obtained : ∃ d, Client.obtain 0 r.client = .ok (.own 0) d ∧ Filled settings n d
  filled : n ≠ 0 → Filled settings n r.client
  accepted : r.accepted = List.replicate n (.own 0, wide)
  faults : r.faults = []

private theorem fits_wide : ∀ v ∈ wide.args, v.fits = true := by
  intro v hv
  have hsmall : ¬ (Value.bytes (List.replicate 65536 0)).TooLarge := by
    rw [Value.TooLarge, List.length_replicate]
    decide
  obtain ⟨bs, hbs⟩ := (Value.takes_write _).succeeds.2 hsmall
  rw [List.mem_singleton.1 hv, Value.fits, hbs]
  rfl

private theorem dispatch_of_crowded {n : Nat} (h : Crowded settings n r) :
    ∃ b d, b.Holds wide ∧ Filled settings n d ∧
      Client.dispatch 0 1 wide.args r.client = Client.appendTo (.own 0) b d := by
  obtain ⟨d, hobtain, hfilled⟩ := h.obtained
  obtain ⟨-, hclosed, hmethods, -⟩ := obtain_same hobtain
  have hbegin : Client.beginEvent 1 none r.client =
      .ok { record := .start 1, ordering := none } r.client := by
    rw [Client.beginEvent_of_open (hclosed.symm.trans hfilled.opened), ← hmethods,
      if_pos hfilled.known]
  obtain ⟨hholds, hfault, hordering⟩ := EventWriter.foldl_send_of_holds
    (w := { record := .start 1, ordering := none }) (fun _ => RecordBuilder.holds_start 1) wide.args
  have hnone := hfault.2 ⟨rfl, fits_wide⟩
  refine ⟨_, d, hholds hnone, hfilled, ?_⟩
  unfold Client.dispatch
  rw [Step.bind_of_ok hbegin, Client.finishEvent, hnone, hordering]
  exact Step.bind_of_ok hobtain

private theorem crowd_zero : crowd 0 = [] ++ [.call (.register "X.m")] := rfl

/-- Nothing was done but to announce methods. -/
private structure Blank (settings : ClientSettings) (c : Client) : Prop where
  holdings : c.holdings = (settings, ∅, 0)
  opened : c.closed = false
  idle : c.SharedIdle
  frees : c.frees = {}

private theorem blank_crowd_zero (settings : ClientSettings) :
    Blank settings (after settings (crowd 0)).client := by
  have hkeeps : Step.Keeps (Blank settings) (Client.register "X.m") := by
    refine Client.keeps_register_of (fun id c h => ?_) fun _ _ h => ⟨h.1, h.2, h.3, h.4⟩
    obtain ⟨frame, hfinal, -⟩ := (Client.enqueueMessage_sends (.registerMethod id "X.m") c).final
    rw [hfinal]
    cases frame <;> exact ⟨h.1, h.2, h.3, h.4⟩
  have hstart : Blank settings (after settings []).client :=
    ⟨rfl, rfl, Client.sharedIdle_start settings, rfl⟩
  rw [crowd_zero, after_concat, turn, step]
  exact keeps_perform (fun _ _ => rfl) hkeeps hstart

/-- A thread that has no stream gets one, which is the first of all. -/
private theorem filled_zero {c : Client} (hplaced : c.Placed) (h : Blank settings c)
    (hknown : c.methods.contains 1 = true) (hwaiting : c.outbox.waiting.toList = [announced]) :
    ∃ d, Client.obtain 0 c = .ok (.own 0) d ∧ Filled settings 0 d := by
  obtain ⟨hsettings, hrest⟩ := Prod.mk.inj h.holdings
  obtain ⟨hstreams, hsize⟩ := Prod.mk.inj hrest
  have hnone : c.streamOf[(0 : ThreadId)]? = none := by
    rw [hstreams]
    rfl
  have hobtain : Client.obtain 0 c = .ok (.own c.own.size) { c with
      own := c.own.push { ordering := .ofNat (Message.sharedOrderings + c.own.size) }
      streamOf := c.streamOf.insert 0 c.own.size } := Client.obtain_of_none hnone
  have hstream := Client.stream_push c
    { ordering := .ofNat (Message.sharedOrderings + c.own.size) } (.own c.own.size)
  have hobtained := hplaced.obtain 0 { ordering := .ofNat (Message.sharedOrderings + c.own.size) }
  rw [if_pos rfl] at hstream
  rw [hsize] at hobtain hstream hobtained
  refine ⟨_, hobtain, ?_⟩
  exact {
    placed := hobtained
    configured := hsettings
    opened := h.opened
    known := hknown
    waiting := hwaiting
    has := by rw [getElem?_insert, if_pos rfl]
    single := by rw [Array.size_push, hsize]
    streamOpen := congrArg RecordStream.closed hstream
    holds := by
      refine (iff_of_eq (congrArg (RecordStream.Holds · _) hstream)).2 ?_
      rfl
    idle := h.idle
    frees := by
      rw [h.frees]
      exact FreeBatch.holds_empty }

private theorem accepted_crowd_zero (settings : ClientSettings) :
    (after settings (crowd 0)).accepted = [] := by
  rw [crowd_zero, after_concat, turn, step, perform]
  split <;> rfl

/-- The method is announced, and known. -/
def Announces (settings : ClientSettings) : Prop :=
  (after settings (crowd 0)).client.methods.contains 1 = true ∧
    (after settings (crowd 0)).client.outbox.waiting.toList = [announced] ∧
    (after settings (crowd 0)).faults = []

instance (settings : ClientSettings) : Decidable (Announces settings) :=
  inferInstanceAs (Decidable (_ ∧ _ ∧ _))

private theorem crowded_start (h : Announces settings) :
    Crowded settings 0 (after settings (crowd 0)) where
  obtained := filled_zero (placed_after settings _) (blank_crowd_zero settings) h.1 h.2.1
  filled := absurd rfl
  accepted := accepted_crowd_zero settings
  faults := h.2.2

private theorem crowd_succ (n : Nat) :
    crowd (n + 1) = crowd n ++ [Turn.call (.dispatch 0 1 wide.args)] := by
  rw [crowd, List.replicate_succ', ← List.cons_append, crowd]

/-- All records stay on the stream, as long as they do not fill a frame. -/
theorem crowded {n : Nat} (hstart : Announces settings) (hfew : n < settings.batchRecords.toNat)
    (hsmall : 17 + n * 65544 < settings.batchBytes) :
    Crowded settings n (after settings (crowd n)) := by
  induction n with
  | zero => exact crowded_start hstart
  | succ n ih =>
    have hless : 17 + n * 65544 ≤ 17 + (n + 1) * 65544 :=
      Nat.add_le_add_left (Nat.mul_le_mul_right _ (Nat.le_succ n)) _
    have hbefore := ih (Nat.lt_of_succ_lt hfew) (Nat.lt_of_le_of_lt hless hsmall)
    obtain ⟨b, d, hb, hfilled, hdispatch⟩ := dispatch_of_crowded hbefore
    obtain ⟨c', hresult, hfilled'⟩ := hfilled.kept hfew hsmall hb
    obtain ⟨_, hobtain, -⟩ := hbefore.obtained
    have hstep : (after settings (crowd n)).step (.dispatch 0 1 wide.args) =
        accept (.own 0) wide { after settings (crowd n) with client := c' } := by
      rw [Run.step, perform, hdispatch, hresult]
      dsimp only
      rw [(obtain_same hobtain).1]
      rfl
    rw [crowd_succ, after_concat, turn, hstep]
    refine ⟨⟨c', hfilled'.obtain, hfilled'⟩, fun _ => hfilled', ?_, hbefore.faults⟩
    rw [List.replicate_succ', ← hbefore.accepted]
    rfl

/-- The sender has not run until now, and does not run in one more call. -/
theorem enqueued_call_of_waiting
    (h : (after settings []).enqueued ts = (after settings ts).client.outbox.waiting.toList)
    {call : Call} (hcall : ∀ deliver, call ≠ .runSender deliver) :
    (after settings []).enqueued (ts ++ [Turn.call call]) =
      (after settings (ts ++ [Turn.call call])).client.outbox.waiting.toList :=
  (enqueued_call (h.trans (List.nil_append _).symm) hcall).trans (List.nil_append _)

theorem enqueued_crowd (settings : ClientSettings) (n : Nat) :
    (after settings []).enqueued (crowd n) =
      (after settings (crowd n)).client.outbox.waiting.toList := by
  induction n with
  | zero =>
    rw [crowd_zero]
    exact enqueued_call_of_waiting rfl nofun
  | succ n ih =>
    rw [crowd_succ]
    exact enqueued_call_of_waiting ih nofun

private theorem faults_of_crowded {n : Nat} {c : Client}
    (h : Crowded roomy n (after roomy (crowd n)))
    (hfails : Client.dispatch 0 1 wide.args (after roomy (crowd n)).client =
      .error (.wire .batchTooLarge) c) :
    (after roomy (crowd (n + 1))).faults = [.wire .batchTooLarge] ∧
      (after roomy (crowd (n + 1))).client = c := by
  rw [crowd_succ, after_concat, turn, Run.step, perform, hfails]
  dsimp only
  rw [h.faults]
  exact ⟨rfl, rfl⟩

/-- **Accepted records are lost by a call that fails.** All records are accepted, and held back. The
next one fills the frame: they are too large together, the call fails, and the session is still
open. Nothing but the name of the method has gone to the outbox, and the stream holds nothing. -/
theorem accepted_lost_by_dispatch :
    (after roomy (crowd 65528)).accepted = List.replicate 65528 (.own 0, wide) ∧
      (after roomy (crowd 65528)).faults = [] ∧
      (after roomy (crowd (65528 + 1))).faults = [.wire .batchTooLarge] ∧
      (after roomy (crowd (65528 + 1))).client.closed = false ∧
      (after roomy []).enqueued (crowd (65528 + 1)) = [announced] ∧
      ((after roomy (crowd (65528 + 1))).client.stream (.own 0)).Holds [] := by
  have hbefore : Crowded roomy 65528 (after roomy (crowd 65528)) :=
    crowded (by decide +kernel) (by decide) (by decide)
  obtain ⟨b, d, hb, hfilled, hdispatch⟩ := dispatch_of_crowded hbefore
  obtain ⟨c', hresult, hopen, hwaiting, hempty⟩ := hfilled.lost hb
  obtain ⟨hfaults, hclient⟩ := faults_of_crowded hbefore (hdispatch.trans hresult)
  rw [enqueued_crowd, hclient]
  exact ⟨hbefore.accepted, hbefore.faults, hfaults, hopen, hwaiting, hempty⟩

end Run

end TraceRelay
