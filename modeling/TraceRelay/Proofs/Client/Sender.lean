import TraceRelay.Proofs.Client.Flow
import TraceRelay.Proofs.Client.Gate
import TraceRelay.Proofs.Client.Tracking

/-!
# The sender and the end of a session

The sender takes frames from the outbox and hands them to the transport. It loses none of them
unless the transport fails, and a session in which the transport failed does not end in order.

## Main definitions

* `Client.Idle`, `Client.SharedIdle` : no stream holds records back, or none of the shared ones has.

## Main results

* `Client.runSender_shows` : a run of the sender.
* `Client.failure_of_shutdown`, `Client.frames_of_shutdown` : the end of a session, in order.
* `Client.shutdown_of_idle`, `Client.SharedIdle.flush` : what is left to do where nothing is held
  back.
-/

namespace TraceRelay

/-! ### The sender -/

namespace Outbox

/-- The transport fails, and nothing waits or is accepted any more, or it does not fail. -/
theorem pump_cases (deliver : Nat → Delivery) (o : Outbox) :
    (o.pump deliver).2.failure = o.failure ∧ (o.pump deliver).2.accepting = o.accepting ∨
      (o.pump deliver).2.waiting.toList = [] ∧ (o.pump deliver).2.accepting = false := by
  rcases pump_cases_attempts deliver o with ⟨-, -, -, -, hfailure, haccepting⟩ |
    ⟨-, -, -, -, -, -, -, -, haccepting, hempty⟩
  · exact .inl ⟨hfailure, haccepting⟩
  · exact .inr ⟨hempty, haccepting⟩

/-- What the sender leaves in the outbox is the back part of what waited there. -/
theorem waiting_pump (deliver : Nat → Delivery) (o : Outbox) :
    (o.pump deliver).2.waiting.toList <:+ o.waiting.toList := by
  rcases pump_cases_attempts deliver o with ⟨out, hout, -⟩ | ⟨-, -, -, -, -, -, -, -, -, hempty⟩
  · exact ⟨out, hout.symm⟩
  · rw [hempty]
    exact List.nil_suffix

/-- Where nothing waits, nothing is sent. -/
theorem pump_of_empty {deliver : Nat → Delivery} {o : Outbox} (h : o.waiting.toList = []) :
    (o.pump deliver).1 = [] ∧ (o.pump deliver).2.waiting.toList = [] := by
  have hsend : sendAll deliver o.sentCount o.waiting.toList = ([], [], none) := by
    rw [h, sendAll]
  simp only [pump, hsend, Fifo.toList_ofList, and_self]

/-- A transport that has failed stays so. -/
theorem failure_of_pump {deliver : Nat → Delivery} {o : Outbox}
    (h : (o.pump deliver).2.failure = none) : o.failure = none := by
  rcases pump_cases_attempts deliver o with ⟨-, -, -, -, hfailure, -⟩ |
    ⟨-, -, cause, -, -, -, -, hfailure, -⟩
  · exact hfailure.symm.trans h
  · exact (Option.or_eq_none_iff.1 (hfailure.symm.trans h)).1

theorem pump_of_none {deliver : Nat → Delivery} {o : Outbox}
    (h : (o.pump deliver).2.failure = none) :
    (o.pump deliver).1 ++ (o.pump deliver).2.waiting.toList = o.waiting.toList ∧
      (o.pump deliver).2.accepting = o.accepting := by
  rcases pump_cases_attempts deliver o with ⟨out, hout, hsent, -, -, haccepting⟩ |
    ⟨-, -, cause, -, -, -, -, hfailure, -⟩
  · exact ⟨by rw [hsent, ← hout], haccepting⟩
  · cases (Option.or_eq_none_iff.1 (hfailure.symm.trans h)).2

end Outbox

namespace Client

variable {c : Client} {l : Ledger} {out : List Bytes}

/-- The sender moves frames from the outbox to those that were sent. -/
theorem runSender_shows (h : c.Shows out l) {deliver : Nat → Delivery}
    (hnone : (c.runSender deliver).2.outbox.failure = none) :
    (c.runSender deliver).2.Shows (out ++ (c.runSender deliver).1) l ∧
      (c.runSender deliver).2.closed = c.closed := by
  obtain ⟨hframes, haccepting⟩ := Outbox.pump_of_none hnone
  refine ⟨{ h with accepting := haccepting.trans h.accepting, frames := ?_ }, ?_⟩
  · change List.Forall₂ _ l.parcels (out ++ (c.outbox.pump deliver).1 ++
      (c.outbox.pump deliver).2.waiting.toList)
    rw [List.append_assoc, hframes]
    exact h.frames
  · have hnone' : (c.outbox.pump deliver).2.failure = none := hnone
    change (c.closed || (c.outbox.pump deliver).2.failure.isSome) = c.closed
    rw [hnone', Option.isSome_none, Bool.or_false]

end Client

/-! ### The end -/

namespace Client

variable {c c' : Client} {deliver : Nat → Delivery} {out : List Bytes}

/-- A session that ends in order: all that was held back went to the outbox, and from there to the
transport. -/
theorem closeAll_of_shutdown (hending : c.ending = false)
    (h : c.shutdown deliver = (.ok (), out, c')) :
    ∃ d, closeAll { c with ending := true, closed := true } = .ok () d ∧
      out = (d.outbox.close.pump deliver).1 ∧
      (d.outbox.close.pump deliver).2.failure = none ∧
      (d.outbox.close.pump deliver).2.waiting.isEmpty = true := by
  rw [shutdown, hending] at h
  simp only [Bool.false_eq_true, if_false] at h
  cases hclose : closeAll { c with ending := true, closed := true } with
  | error e d =>
    simp only [hclose, runSender] at h
    split at h
    · cases h
    · split at h <;> cases h
  | ok a d =>
    simp only [hclose, runSender] at h
    split at h
    · cases h
    · next hfailure =>
      split at h
      · next hempty =>
        cases h
        exact ⟨d, rfl, rfl, hfailure, hempty⟩
      · cases h

/-- A session does not end in order once the transport has failed. -/
theorem failure_of_shutdown (hending : c.ending = false)
    (h : c.shutdown deliver = (.ok (), out, c')) : c.outbox.failure = none := by
  obtain ⟨d, hclose, -, hfailure, -⟩ := closeAll_of_shutdown hending h
  have hkeeps := (Client.lasting_gate _).keeps_closeAll
    { c with ending := true, closed := true } rfl
  rw [hclose] at hkeeps
  have hgate : d.outbox.failure = c.outbox.failure := congrArg (·.2.2.2.failure) hkeeps
  have hclosed : d.outbox.close.failure = none := Outbox.failure_of_pump hfailure
  exact hgate.symm.trans hclosed

/-- The frames of a session that ends in order are the messages of its ledger. -/
theorem frames_of_shutdown {l : Ledger} {sent : List Bytes} (hshows : c.Shows sent l)
    (hrange : l.InRange) (hending : c.ending = false)
    (h : c.shutdown deliver = (.ok (), out, c')) :
    List.Forall₂ (fun p frame => p.message.toBytes = .ok frame) l.closeAll.parcels
      (sent ++ out) := by
  obtain ⟨d, hclose, rfl, hfailure, hempty⟩ := closeAll_of_shutdown hending h
  have hshows' : Client.Shows sent { c with ending := true, closed := true } l := { hshows with }
  have hyields := closeAll_yields hshows' hrange
  obtain ⟨hpump, -⟩ := Outbox.pump_of_none hfailure
  have hwaiting : (d.outbox.close.pump deliver).2.waiting.toList = [] :=
    List.length_eq_zero_iff.1 ((Fifo.length_toList _).trans (beq_iff_eq.1 hempty))
  rw [hwaiting, List.append_nil] at hpump
  rw [hclose] at hyields
  rw [hpump]
  cases hyields with
  | ok hd hl =>
    rw [← hl]
    exact hd.frames

end Client

/-! ### Sessions that hold no records back -/

/-- A transport that takes everything leaves nothing behind. -/
theorem Outbox.sendAll_sent (sent : Nat) (frames : List Bytes) :
    sendAll (fun _ => .sent) sent frames = (frames, [], none) := by
  induction frames generalizing sent with
  | nil => rfl
  | cons frame frames ih =>
    rw [sendAll, ih]

/-- Whether a stream holds no records back. -/
def RecordStream.isIdle (s : RecordStream) : Bool :=
  match s.batch with
  | none => true
  | some batch => batch.isEmpty

private theorem RecordStream.take_of_isIdle {s : RecordStream} (h : s.isIdle = true) :
    s.take = (.ok none, { s with batch := none }) := by
  unfold isIdle at h
  unfold take
  cases hbatch : s.batch with
  | none => rfl
  | some batch =>
    rw [hbatch] at h
    simp only [h, if_true]

namespace Client

/-- A client that holds no records back. -/
structure Idle (c : Client) : Prop where
  shared : ∀ s ∈ c.shared.toList, s.isIdle = true
  own : ∀ s ∈ c.own.toList, s.isIdle = true

variable {c : Client}

private theorem Idle.stream (h : c.Idle) (ref : StreamRef) : (c.stream ref).isIdle = true := by
  cases ref with
  | shared i =>
    change (c.shared[i.toNat]?.getD { ordering := i.toUInt64 }).isIdle = true
    cases hs : c.shared[i.toNat]? with
    | none => rfl
    | some s => exact h.shared s (Array.mem_toList_iff.2 (Array.mem_of_getElem? hs))
  | own p =>
    change (c.own[p]?.getD { ordering := 0 }).isIdle = true
    cases hs : c.own[p]? with
    | none => rfl
    | some s => exact h.own s (Array.mem_toList_iff.2 (Array.mem_of_getElem? hs))

private theorem Idle.setStream (h : c.Idle) (ref : StreamRef) {s : RecordStream}
    (hs : s.isIdle = true) : (c.setStream ref s).Idle := by
  cases ref with
  | shared i =>
    refine { h with shared := fun t ht => ?_ }
    rcases Array.mem_or_eq_of_mem_setIfInBounds (Array.mem_toList_iff.1 ht) with hmem | rfl
    · exact h.shared t (Array.mem_toList_iff.2 hmem)
    · exact hs
  | own p =>
    refine { h with own := fun t ht => ?_ }
    rcases Array.mem_or_eq_of_mem_setIfInBounds (Array.mem_toList_iff.1 ht) with hmem | rfl
    · exact h.own t (Array.mem_toList_iff.2 hmem)
    · exact hs

/-- A stream that holds no records back is closed without a frame. -/
private theorem closeStream_succeeds (o : Outbox) (frees : FreeStream) (ref : StreamRef) :
    Step.Succeeds (fun c => c.Idle ∧ c.outbox = o ∧ c.frees = frees) (closeStream ref) := by
  rintro c ⟨h, ho, hfrees⟩
  have hsetStream (d : Client) (s : RecordStream) :
      (d.setStream ref s).outbox = d.outbox ∧ (d.setStream ref s).frees = d.frees := by
    cases ref <;> exact ⟨rfl, rfl⟩
  have hclosed : (c.setStream ref { c.stream ref with closed := true }).Idle :=
    h.setStream ref (h.stream ref)
  obtain ⟨houtbox, hfreed⟩ := hsetStream c { c.stream ref with closed := true }
  rw [closeStream, Step.modify_bind]
  generalize c.setStream ref { c.stream ref with closed := true } = d at hclosed houtbox hfreed
  rw [sealStream, Step.get_bind, RecordStream.take_of_isIdle (hclosed.stream ref)]
  refine ⟨⟨⟩, _, rfl, hclosed.setStream ref rfl, ?_, ?_⟩
  · exact (hsetStream d _).1.trans (houtbox.trans ho)
  · exact (hsetStream d _).2.trans (hfreed.trans hfrees)

private theorem enqueue_of_accepting (h : c.outbox.accepting = true) (frame : Bytes) :
    ∃ d, enqueue frame c = .ok ⟨⟩ d ∧ d.outbox.accepting = true ∧
      d.outbox.waiting.toList = c.outbox.waiting.toList ++ [frame] := by
  unfold enqueue Outbox.push
  rw [if_pos h]
  exact ⟨_, rfl, h, Fifo.toList_push _ frame⟩

private theorem sealFrees_of_accepting (h : c.outbox.accepting = true) {frame : Option Bytes}
    (hframe : c.frees.take.1 = .ok frame) :
    ∃ d, sealFrees c = .ok ⟨⟩ d ∧ d.outbox.accepting = true ∧
      d.outbox.waiting.toList = c.outbox.waiting.toList ++ frame.toList := by
  change ∃ d, enqueueTaken c.frees.take.1 { c with frees := c.frees.take.2 } = .ok ⟨⟩ d ∧ _
  rw [hframe]
  cases frame with
  | none => exact ⟨_, rfl, h, (List.append_nil _).symm⟩
  | some bs =>
    have hc : ({ c with frees := c.frees.take.2 } : Client).outbox.accepting = true := h
    exact enqueue_of_accepting hc bs

/-- What is taken of the frees does not depend on whether their stream has ended. -/
private theorem take_closed (s : FreeStream) :
    ({ s with closed := true } : FreeStream).take.1 = s.take.1 := by
  unfold FreeStream.take
  split <;> rfl

/-- Only the frees and the end of the session are left to be sent. -/
private theorem closeAll_of_idle (h : c.Idle) (haccepting : c.outbox.accepting = true)
    {frame : Option Bytes} (hframe : c.frees.take.1 = .ok frame) :
    ∃ d, closeAll c = .ok ⟨⟩ d ∧ d.outbox.waiting.toList =
      c.outbox.waiting.toList ++ frame.toList ++ [MessageKind.close.byteOf :: [0, 0, 0, 0]] := by
  obtain ⟨_, c₁, hown, h₁⟩ := Step.Succeeds.forM (fun entry : ThreadId × StreamRef =>
    closeStream_succeeds c.outbox c.frees entry.2) c.ownRefs c ⟨h, rfl, rfl⟩
  obtain ⟨_, c₂, hshared, -, houtbox, hfrees⟩ :=
    Step.Succeeds.forM (closeStream_succeeds c.outbox c.frees) sharedRefs c₁ h₁
  obtain ⟨c₃, hsealed, haccepting₃, hwaiting₃⟩ := sealFrees_of_accepting
    (c := { c₂ with frees := { c₂.frees with closed := true } })
    ((congrArg Outbox.accepting houtbox).trans haccepting)
    ((take_closed c₂.frees).trans (hfrees ▸ hframe))
  obtain ⟨d, hlast, -, hwaiting⟩ := enqueue_of_accepting haccepting₃
    (MessageKind.close.byteOf :: [0, 0, 0, 0])
  unfold closeAll
  rw [Step.get_bind, Step.bind_of_ok hown, Step.bind_of_ok hshared, Step.modify_bind,
    Step.bind_of_ok hsealed]
  refine ⟨d, ?_, ?_⟩
  · rw [enqueueMessage, Message.toBytes_close]
    exact hlast
  · rw [hwaiting, hwaiting₃]
    change c₂.outbox.waiting.toList ++ _ ++ _ = _
    rw [houtbox]

/-- A session that holds no records back ends in order: after the frames that wait, the frees are
sent and the end of the session. -/
theorem shutdown_of_idle (h : c.Idle) (haccepting : c.outbox.accepting = true)
    {frame : Option Bytes} (hframe : c.frees.take.1 = .ok frame) (hending : c.ending = false)
    (hfailure : c.outbox.failure = none) :
    ∃ d, c.shutdown (fun _ => .sent) = (.ok (), c.outbox.waiting.toList ++ frame.toList ++
      [MessageKind.close.byteOf :: [0, 0, 0, 0]], d) := by
  have hidle : Idle { c with ending := true, closed := true } := { h with }
  obtain ⟨d, hclose, hwaiting⟩ := closeAll_of_idle hidle haccepting hframe
  have hkeeps := (lasting_gate _).keeps_closeAll
    { c with ending := true, closed := true } rfl
  rw [hclose] at hkeeps
  have hnone : d.outbox.close.failure = none :=
    (congrArg (·.2.2.2.failure) hkeeps).trans hfailure
  have hpump : d.outbox.close.pump (fun _ => .sent) = (d.outbox.waiting.toList,
      { d.outbox.close with
        waiting := .ofList []
        sentCount := d.outbox.sentCount + d.outbox.waiting.toList.length }) := by
    rw [Outbox.pump, Outbox.sendAll_sent]
    rfl
  rw [hwaiting] at hpump
  unfold shutdown runSender
  rw [hending]
  simp only [Bool.false_eq_true, if_false, hclose, hpump, hnone]
  exact ⟨_, rfl⟩

end Client

/-! ### Shared streams that nobody uses -/

namespace Client

open Step

variable {c : Client}

/-- The shared streams have no batch of records. -/
def SharedIdle (c : Client) : Prop := ∀ s ∈ c.shared.toList, s.batch = none

theorem sharedIdle_start (settings : ClientSettings) : ({ settings } : Client).SharedIdle := by
  intro s hs
  obtain ⟨i, -, rfl⟩ := Array.mem_map.1 (Array.mem_toList_iff.1 hs)
  rfl

theorem SharedIdle.batch_stream (h : c.SharedIdle) (i : UInt8) :
    (c.stream (.shared i)).batch = none := by
  change (c.shared[i.toNat]?.getD { ordering := i.toUInt64 }).batch = none
  cases hs : c.shared[i.toNat]? with
  | none => rfl
  | some s => exact h s (Array.mem_toList_iff.2 (Array.mem_of_getElem? hs))

/-- A stream that is replaced by itself. -/
private theorem setStream_shared_self (c : Client) (i : UInt8) :
    c.setStream (.shared i) (c.stream (.shared i)) = c := by
  have hshared : c.shared.setIfInBounds i.toNat (c.stream (.shared i)) = c.shared := by
    refine Array.ext_getElem? fun j => ?_
    rw [Array.getElem?_setIfInBounds]
    split
    · next heq =>
      subst heq
      change (if _ then some (c.shared[i.toNat]?.getD _) else none) = _
      cases hs : c.shared[i.toNat]? with
      | none => rw [if_neg (Nat.not_lt.2 (Array.getElem?_eq_none_iff.1 hs))]
      | some s =>
        obtain ⟨hlt, -⟩ := Array.getElem?_eq_some_iff.1 hs
        rw [if_pos hlt]
        rfl
    · rfl
  rw [setStream, hshared]

/-- A shared stream that has no batch stays as it is when its records are sent. -/
theorem SharedIdle.sealStream (h : c.SharedIdle) (i : UInt8) :
    sealStream (.shared i) c = .ok ⟨⟩ c := by
  have htake : (c.stream (.shared i)).take = (.ok none, c.stream (.shared i)) := by
    have hbatch := h.batch_stream i
    unfold RecordStream.take
    rw [hbatch]
    exact congrArg _ (by rw [← hbatch])
  change enqueueTaken (c.stream (.shared i)).take.1
    (c.setStream (.shared i) (c.stream (.shared i)).take.2) = _
  rw [htake, setStream_shared_self]
  rfl

private theorem keeps_shared_sealStream (shared : Array RecordStream) (p : Nat) :
    Keeps (·.shared = shared) (Client.sealStream (.own p)) := by
  intro d hd
  obtain ⟨frame, hfinal, -⟩ := (sealStream_sends (.own p) d).final
  rw [hfinal, (sameStreams_posted _ frame).shared]
  exact hd

private theorem keeps_shared_visit (shared : Array RecordStream) (thread : ThreadId) (p : Nat) :
    Keeps (·.shared = shared) (visit thread (.own p)) := by
  intro d hd
  rw [visit_eq]
  split
  · cases hstream : d.streamOf[thread]? with
    | none =>
      rw [endStream_of_none hstream]
      exact hd
    | some q =>
      rw [endStream_of_some hstream]
      refine Keeps.bind (.bind (.modify fun _ h => h) fun _ => keeps_shared_sealStream shared q)
        (fun _ => .bind .get fun _ e he => ?_) _ hd
      obtain ⟨frame, hfinal, -⟩ := (enqueueMessage_sends _ e).final
      rw [hfinal, (sameStreams_posted _ frame).shared]
      exact he
  · exact keeps_shared_sealStream shared p d hd

/-- Where nobody uses the shared streams, only the streams of threads are visited. -/
theorem SharedIdle.sealEvents (h : c.SharedIdle) : sealEvents c =
    c.ownRefs.forM (fun (entry : ThreadId × StreamRef) => visit entry.1 entry.2) c := by
  have hkeeps : Keeps (·.shared = c.shared)
      (c.ownRefs.forM fun (entry : ThreadId × StreamRef) => visit entry.1 entry.2) := by
    refine .forM_of_mem fun entry hentry => ?_
    obtain ⟨p, hp, -⟩ := mem_ownRefs.1 hentry
    rw [hp]
    exact keeps_shared_visit c.shared entry.1 p
  have hshared := hkeeps c rfl
  rw [Client.sealEvents, get_bind]
  change (c.ownRefs.forM (fun (entry : ThreadId × StreamRef) => visit entry.1 entry.2) >>= _) c = _
  cases hvisits :
      c.ownRefs.forM (fun (entry : ThreadId × StreamRef) => visit entry.1 entry.2) c with
  | error e d => rw [bind_of_error hvisits]
  | ok a d =>
    rw [hvisits] at hshared
    have hd : d.SharedIdle := fun s hs => h s (by rwa [← hshared])
    rw [bind_of_ok hvisits]
    unfold sharedRefs
    induction List.range Message.sharedOrderings with
    | nil => rfl
    | cons i is ih => exact (bind_of_ok (hd.sealStream _)).trans ih

/-- A flush of the streams of threads and of the frees. -/
def flushThreads : EStateM ClientError Client Unit := do
  ensureOpen
  (← get).ownRefs.forM fun (thread, ref) => visit thread ref
  sealFrees

/-- Where nobody uses the shared streams, a flush is one of the streams of threads. -/
theorem SharedIdle.flush (h : c.SharedIdle) : flush c = flushThreads c := by
  unfold Client.flush flushThreads
  cases hclosed : c.closed with
  | true => rw [ensureOpen_bind_of_closed hclosed, ensureOpen_bind_of_closed hclosed]
  | false =>
    rw [ensureOpen_bind hclosed, ensureOpen_bind hclosed, get_bind]
    change (Client.sealEvents >>= _) c =
      (c.ownRefs.forM (fun (entry : ThreadId × StreamRef) => visit entry.1 entry.2) >>= _) c
    cases hsealed : Client.sealEvents c with
    | error e d => rw [bind_of_error hsealed, bind_of_error (h.sealEvents.symm.trans hsealed)]
    | ok a d => rw [bind_of_ok hsealed, bind_of_ok (h.sealEvents.symm.trans hsealed)]

end Client

end TraceRelay
