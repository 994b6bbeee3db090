import TraceRelay.Proofs.Client.Closed

/-!
# Calls that come late

A session is closed when it was asked to end, or when the transport has failed, and it stays so.
Calls are refused then, and nothing more is sent. A record that was begun before is not always
refused when it is finished: it is told to be accepted if it can be kept back, and then it is lost.

## Main definitions

* `Turn`, `Run.after` : calls, and ends of the session, one after the other.
* `Run.FinishesLate` : how a record is finished by a closed session.
* `Run.Refuses` : what a closed session does.

## Main results

* `Run.latched_after`, `Run.placed_after` : what holds of every session.
* `Run.closed_refuses` : every session that is closed refuses what it does not keep back.
-/

namespace TraceRelay

/-- A call, or the end of the session. -/
inductive Turn where
  | call (call : Call)
  | shutdown (deliver : Nat → Delivery)

/-- Whether a call asks first if the session is closed. A record that was begun is finished without
asking, and some of what happens is no call of the client. -/
def Call.isChecked : Call → Bool
  | .send .. | .finish .. | .discard .. | .threadGone .. | .runSender .. => false
  | _ => true

/-- Whether threads may give up their streams in a call. -/
def Call.endsStreams : Call → Bool
  | .objectFreed _ | .flush | .threadEnd _ => true
  | _ => false

namespace Run

variable {r : Run} {α : Type}

/-- The end of the session. -/
def shutdown (deliver : Nat → Delivery) (r : Run) : Run :=
  match r.client.shutdown deliver with
  | (.ok _, out, client) => { r with client, sent := r.sent ++ out }
  | (.error e, out, client) => { r with client, sent := r.sent ++ out, faults := r.faults ++ [e] }

/-- A call, or the end of the session. -/
def turn (r : Run) : Turn → Run
  | .call call => r.step call
  | .shutdown deliver => r.shutdown deliver

/-- Turns one after the other. -/
def turns (r : Run) (ts : List Turn) : Run := ts.foldl turn r

/-- Turns from the beginning of a session. -/
def after (settings : ClientSettings) (ts : List Turn) : Run := turns { client := { settings } } ts

/-! ### Turns -/

theorem after_append (settings : ClientSettings) (ts ts' : List Turn) :
    after settings (ts ++ ts') = (after settings ts).turns ts' := List.foldl_append

private theorem turns_shutdown (r : Run) (deliver : Nat → Delivery) :
    r.turns [.shutdown deliver] = r.shutdown deliver := rfl

private theorem shutdown_of_ok {deliver : Nat → Delivery} {out : List Bytes} {c' : Client}
    (h : r.client.shutdown deliver = (.ok (), out, c')) :
    r.shutdown deliver = { r with client := c', sent := r.sent ++ out } := by
  rw [shutdown, h]

theorem shutdown_eq {deliver : Nat → Delivery} {answer : Except ClientError Unit}
    {out : List Bytes} {c' : Client} (h : r.client.shutdown deliver = (answer, out, c')) :
    (r.shutdown deliver).client = c' ∧ (r.shutdown deliver).sent = r.sent ++ out := by
  rw [shutdown, h]
  cases answer <;> exact ⟨rfl, rfl⟩

/-- What lasts, and is kept by the sender and by the end of a session, is kept by all turns. -/
theorem lasting_turns {P : Client → Prop} (hP : Client.Lasting P)
    (hsender : ∀ c deliver, P c → P (c.runSender deliver).2)
    (hshutdown : ∀ c deliver, P c → P (c.shutdown deliver).2.2) (h : P r.client) (ts : List Turn) :
    P (r.turns ts).client := by
  refine List.foldlRecOn (motive := fun r : Run => P r.client) ts turn h fun r h t _ => ?_
  cases t with
  | shutdown deliver =>
    rcases heq : r.client.shutdown deliver with ⟨answer, out, c⟩
    have hc := hshutdown r.client deliver h
    rw [heq] at hc
    change P (r.shutdown deliver).client
    rwa [(shutdown_eq heq).1]
  | call call =>
    by_cases hcall : ∃ deliver, call = .runSender deliver
    · obtain ⟨deliver, rfl⟩ := hcall
      exact hsender r.client deliver h
    · exact lasting_step hP h call fun deliver heq => hcall ⟨deliver, heq⟩

/-- A session is closed exactly if it was asked to end or the transport has failed. -/
theorem latched_after (settings : ClientSettings) (ts : List Turn) :
    (after settings ts).client.Latched :=
  lasting_turns Client.lasting_latched (fun _ deliver h => (h.runSender deliver).1)
    (fun _ _ h => (h.shutdown rfl).1) (Client.latched_start settings) ts

theorem placed_after (settings : ClientSettings) (ts : List Turn) :
    (after settings ts).client.Placed :=
  lasting_turns Client.lasting_placed
    (fun _ deliver h => (Client.Onward.runSender h deliver).placed)
    (fun _ _ h => (Client.Onward.shutdown h rfl).placed) (Client.placed_start settings) ts

/-! ### A session that is closed -/

/-- A call that asks first is refused by a closed session, and changes nothing. -/
theorem step_of_closed (hclosed : r.client.closed = true) {call : Call}
    (hchecked : call.isChecked = true) :
    r.step call = { r with faults := r.faults ++ [.sessionClosed] } := by
  have hperform {α : Type} {call : EStateM ClientError Client α} {note : α → Run → Run}
      (hcall : call r.client = .error .sessionClosed r.client) :
      r.perform call note = { r with faults := r.faults ++ [.sessionClosed] } := by
    simp only [perform, hcall]
  have hrefused {α : Type} (f : PUnit → EStateM ClientError Client α) :
      (Client.ensureOpen >>= f) r.client = .error .sessionClosed r.client :=
    Client.ensureOpen_bind_of_closed hclosed
  cases call with
  | send | finish | discard | threadGone | runSender => cases hchecked
  | dispatch thread id args => exact hperform (Step.bind_of_error (hrefused _))
  | _ =>
    rw [step]
    exact hperform (hrefused _)

/-- A call that ends no streams takes none from a thread, and nor does any call of a closed
session. -/
theorem onward_step (hplaced : r.client.Placed) (call : Call)
    (hstays : r.client.closed = true ∨ call.endsStreams = false) :
    Client.Onward r.client (r.step call).client := by
  cases call with
  | objectFreed | flush | threadEnd =>
    rw [step_of_closed (hstays.resolve_right Bool.noConfusion) rfl]
    exact .refl hplaced
  | send | discard => exact .refl hplaced
  | threadGone thread => exact .threadGone hplaced thread
  | runSender deliver => exact .runSender hplaced deliver
  | finish thread n =>
    cases hd : r.drafts n with
    | none =>
      rw [step_finish_of_none hd]
      exact .refl hplaced
    | some d =>
      rw [step_finish_of_some hd]
      exact keeps_perform (fun _ _ => rfl) (Client.Onward.keeps_finishEvent thread d.writer)
        (.refl hplaced)
  | register name =>
    exact keeps_perform (fun _ _ => rfl) (Client.Onward.keeps_register name) (.refl hplaced)
  | dispatch thread id args =>
    exact keeps_perform (fun _ _ => rfl) (Client.Onward.keeps_dispatch thread id args)
      (.refl hplaced)
  | «begin» n id ordering =>
    exact keeps_perform (fun _ _ => rfl) (Client.keeps_beginEvent id ordering) (.refl hplaced)
  | classInfo | stringInfo | threadInfo =>
    exact keeps_perform (fun _ _ => rfl) (Client.Onward.keeps_tell _) (.refl hplaced)

private theorem sent_perform {call : EStateM ClientError Client α} {note : α → Run → Run}
    (hnote : ∀ a r, (note a r).sent = r.sent) : (r.perform call note).sent = r.sent := by
  unfold perform
  split
  · exact hnote _ _
  · rfl

/-- Frames are sent by the sender alone. -/
private theorem sent_step (call : Call) (hcall : ∀ deliver, call ≠ .runSender deliver) :
    (r.step call).sent = r.sent := by
  cases call with
  | send | discard | threadGone => rfl
  | runSender deliver => exact absurd rfl (hcall deliver)
  | finish thread n =>
    cases hd : r.drafts n with
    | none => rw [step_finish_of_none hd]
    | some d =>
      rw [step_finish_of_some hd]
      exact sent_perform fun _ _ => rfl
  | _ => exact sent_perform fun _ _ => rfl

/-- A session that was closed, and one that comes after it: nothing more was sent, and no stream
began again. -/
structure Late (r r' : Run) : Prop where
  latched : r'.client.Latched
  closed : r'.client.closed = true
  sent : r'.sent = r.sent
  onward : Client.Onward r.client r'.client

private theorem Late.turn {r' : Run} (h : r.Late r') (t : Turn) : r.Late (r'.turn t) := by
  cases t with
  | shutdown deliver =>
    rcases heq : r'.client.shutdown deliver with ⟨answer, out, c⟩
    obtain ⟨hclient, hsent⟩ := shutdown_eq heq
    obtain ⟨hlatched, hclosed, hnothing⟩ := h.latched.shutdown heq
    have honward := h.onward.trans (.shutdown h.onward.placed heq)
    rw [hnothing h.closed, List.append_nil, h.sent] at hsent
    rw [← hclient] at hlatched hclosed honward
    exact ⟨hlatched, hclosed, hsent, honward⟩
  | call call =>
    have honward := h.onward.trans (onward_step h.onward.placed call (.inl h.closed))
    by_cases hcall : ∃ deliver, call = .runSender deliver
    · obtain ⟨deliver, rfl⟩ := hcall
      obtain ⟨hlatched, hquiet⟩ := h.latched.runSender deliver
      obtain ⟨hnothing, hclosed⟩ := hquiet h.closed
      refine ⟨hlatched, hclosed, ?_, honward⟩
      change r'.sent ++ (r'.client.runSender deliver).1 = r.sent
      rw [hnothing, List.append_nil, h.sent]
    · have hsender (deliver : Nat → Delivery) : call ≠ .runSender deliver :=
        fun heq => hcall ⟨deliver, heq⟩
      exact {
        latched := lasting_step Client.lasting_latched h.latched call hsender
        closed := (congrArg (·.2.1) (gate_step r' call hsender)).trans h.closed
        sent := (sent_step call hsender).trans h.sent
        onward := honward }

/-- A closed session stays closed and sends nothing more, and its streams do not begin again. -/
theorem late_turns (hlatched : r.client.Latched) (hplaced : r.client.Placed)
    (hclosed : r.client.closed = true) (later : List Turn) : r.Late (r.turns later) :=
  List.foldlRecOn (motive := fun r' : Run => r.Late r') later turn
    ⟨hlatched, hclosed, rfl, .refl hplaced⟩ fun _ h t _ => h.turn t

/-! ### Records that are finished late -/

/-- What becomes of a record that is finished: it is accepted exactly if it can be kept back.
Otherwise the call fails, as the session is closed or as something is wrong with the record. -/
structure FinishesLate (r r' : Run) (thread : ThreadId) (d : Draft) : Prop where
  taken : r.client.KeepsBack thread d.writer → r'.faults = r.faults ∧ r'.accepted =
    r.accepted ++ [(r.client.streamFor thread d.writer.ordering, ⟨d.method, d.args⟩)]
  refused : ¬ r.client.KeepsBack thread d.writer → r'.accepted = r.accepted ∧
    (r'.faults = r.faults ++ [.sessionClosed] ∨ ∃ e, r'.faults = r.faults ++ [.wire e])

private theorem finishesLate (hlatched : r.client.Latched) (hplaced : r.client.Placed)
    (hclosed : r.client.closed = true) {n : Nat} {d : Draft} (hdraft : r.drafts n = some d)
    (hfault : d.writer.fault = none) (thread : ThreadId) :
    r.FinishesLate (r.step (.finish thread n)) thread d := by
  rw [step_finish_of_some hdraft]
  have hfinish : Client.OnlyIf (r.client.KeepsBack thread d.writer) _ :=
    Client.finishEvent_onlyIf hplaced (hlatched.refusing hclosed) hfault
  have hclient : (r.setDraft n none).client = r.client := rfl
  unfold perform
  rw [hclient]
  cases heq : Client.finishEvent thread d.writer r.client with
  | ok a c =>
    rw [heq] at hfinish
    obtain ⟨hkeeps⟩ := hfinish
    exact ⟨fun _ => ⟨rfl, rfl⟩, fun h => absurd hkeeps h⟩
  | error e c =>
    rw [heq] at hfinish
    cases hfinish with
    | closed hnot => exact ⟨fun h => absurd h hnot, fun _ => ⟨rfl, .inl rfl⟩⟩
    | wire hnot => exact ⟨fun h => absurd h hnot, fun _ => ⟨rfl, .inr ⟨_, rfl⟩⟩⟩

/-- What a closed session does. -/
structure Refuses (r : Run) : Prop where
  /-- It was asked to end, or the transport has failed. -/
  cause : r.client.ending = true ∨ r.client.outbox.failure ≠ none
  /-- Calls that ask first are refused and change nothing. -/
  checked : ∀ call, call.isChecked = true →
    r.step call = { r with faults := r.faults ++ [.sessionClosed] }
  /-- A record that was begun before is accepted if it can be kept back. -/
  finishes : ∀ thread n d, r.drafts n = some d → d.writer.fault = none →
    r.FinishesLate (r.step (.finish thread n)) thread d
  /-- Nothing more is sent, whatever is accepted. -/
  silent : ∀ later, (r.turns later).client.closed = true ∧ (r.turns later).sent = r.sent
  /-- A record whose stream has ended is never kept back. -/
  ended : ∀ thread w, r.client.Shut thread w.ordering →
    ∀ later, ¬ (r.turns later).client.KeepsBack thread w

/-- The session is asked to end for the first time, and ends in order. -/
structure EndsInOrder (r : Run) (deliver : Nat → Delivery) : Prop where
  first : r.client.ending = false
  answer : (r.client.shutdown deliver).1 = .ok ()

/-- **A session that is closed** refuses every call that asks first, and stays closed. Finishing a
record succeeds exactly if the record can be kept back, but nothing that is accepted then is ever
sent. After an end in order that is so only for records on the stream of a thread that had none:
the shared streams have ended, and so have those that threads had. -/
theorem closed_refuses (settings : ClientSettings) (ts : List Turn)
    (hclosed : (after settings ts).client.closed = true) :
    (after settings ts).Refuses ∧ ∀ earlier deliver later,
      ts = earlier ++ .shutdown deliver :: later → (after settings earlier).EndsInOrder deliver →
      (∀ thread i, (after settings ts).client.Shut thread (some i)) ∧
        ∀ thread, (after settings earlier).client.streamOf? thread ≠ none →
          (after settings ts).client.Shut thread none := by
  have hlatched := latched_after settings ts
  have hplaced := placed_after settings ts
  have hlate (later : List Turn) := late_turns hlatched hplaced hclosed later
  constructor
  · exact {
      cause := hlatched.closed_iff.1 hclosed
      checked := fun call hchecked => step_of_closed hclosed hchecked
      finishes := fun thread n d hdraft hfault =>
        finishesLate hlatched hplaced hclosed hdraft hfault thread
      silent := fun later => ⟨(hlate later).closed, (hlate later).sent⟩
      ended := fun thread w hshut later => ((hlate later).onward.shut hplaced hshut).not_keepsBack }
  · rintro earlier deliver later rfl ⟨hfirst, hanswer⟩
    rcases heq : (after settings earlier).client.shutdown deliver with ⟨answer, out, c⟩
    rw [heq] at hanswer
    subst hanswer
    obtain ⟨hc, -⟩ := shutdown_eq heq
    have hplacedBefore := placed_after settings earlier
    obtain ⟨hlatched', hclosed', -⟩ := (latched_after settings earlier).shutdown heq
    have hplaced' := (Client.Onward.shutdown hplacedBefore heq).placed
    obtain ⟨hshared, hown⟩ := Client.shut_of_shutdown hplacedBefore hfirst heq
    have hafter : after settings (earlier ++ .shutdown deliver :: later) =
        ((after settings earlier).shutdown deliver).turns later := after_append ..
    rw [← hc] at hlatched' hplaced' hclosed' hshared hown
    have honward := (late_turns hlatched' hplaced' hclosed' later).onward
    rw [hafter]
    refine ⟨fun thread i => honward.shut hplaced' (hshared thread i), fun thread hsome => ?_⟩
    cases hp : (after settings earlier).client.streamOf[thread]? with
    | none => exact absurd (congrArg (Option.map StreamRef.own) hp) hsome
    | some p => exact honward.shut hplaced' (hown thread p hp)

/-! ### A record that is lost -/

/-- A record is begun. -/
def begun : List Turn := [.call (.register "X.m"), .call (.begin 0 1 none)]

/-- A record is begun, and then the session ends. -/
def endedMeanwhile : List Turn := begun ++ [.shutdown fun _ => .sent]

/-- What is sent at the end: the name of the method, and that the session ends. -/
def endedFrames : List Bytes :=
  [[3, 10, 0, 0, 0, 1, 0, 16, 3, 0, 0, 0, 88, 46, 109], [0, 0, 0, 0, 0]]

private theorem begun_holds :
    ((after {} begun).faults = [] ∧ (after {} begun).accepted = [] ∧ (after {} begun).sent = [] ∧
      (after {} begun).client.holdings = ({}, ∅, 0)) ∧
    (after {} begun).drafts 0 = some ⟨⟨.start 1, none, none⟩, 1, []⟩ ∧
    (after {} begun).client.Idle ∧
    (after {} begun).client.outbox.waiting.toList ++ [[0, 0, 0, 0, 0]] = endedFrames := by
  refine ⟨⟨rfl, rfl, rfl, rfl⟩, rfl, ⟨fun s hs => ?_, nofun⟩, by decide +kernel⟩
  obtain ⟨i, -, rfl⟩ := Array.mem_map.1 (Array.mem_toList_iff.1 hs)
  rfl

private theorem endedMeanwhile_eq :
    ∃ c, (after {} begun).client.shutdown (fun _ => .sent) = (.ok (), endedFrames, c) ∧
      after {} endedMeanwhile = { after {} begun with client := c, sent := endedFrames } := by
  obtain ⟨⟨-, -, hsent, -⟩, -, hidle, hframes⟩ := begun_holds
  have hnone : (after {} begun).client.frees.take.1 = .ok none := rfl
  obtain ⟨c, heq⟩ := Client.shutdown_of_idle hidle rfl hnone rfl rfl
  have hclose : MessageKind.close.byteOf :: [0, 0, 0, 0] = [0, 0, 0, 0, 0] := rfl
  rw [Option.toList_none, List.append_nil, hclose, hframes] at heq
  refine ⟨c, heq, ?_⟩
  rw [endedMeanwhile, after_append, turns_shutdown, shutdown_of_ok heq, hsent, List.nil_append]

private theorem endedMeanwhile_holds :
    ((after {} endedMeanwhile).faults = [] ∧ (after {} endedMeanwhile).accepted = [] ∧
      (after {} endedMeanwhile).sent = endedFrames) ∧
    (after {} endedMeanwhile).drafts 0 = some ⟨⟨.start 1, none, none⟩, 1, []⟩ ∧
    (after {} endedMeanwhile).client.closed = true ∧
    (after {} endedMeanwhile).client.holdings = ({}, ∅, 0) := by
  obtain ⟨c, heq, hafter⟩ := endedMeanwhile_eq
  obtain ⟨⟨hfaults, haccepted, -, hholdings⟩, hdraft, -⟩ := begun_holds
  rw [hafter]
  exact ⟨⟨hfaults, haccepted, rfl⟩, hdraft, ((latched_after {} begun).shutdown heq).2.1,
    (Client.holdings_shutdown rfl heq).trans hholdings⟩

theorem closed_refuses_endedMeanwhile :
    (after {} endedMeanwhile).client.closed = true ∧ (after {} endedMeanwhile).Refuses ∧
      ∀ thread, (after {} endedMeanwhile).client.Shut thread (some 0) := by
  obtain ⟨c, heq, -⟩ := endedMeanwhile_eq
  obtain ⟨-, -, hclosed, -⟩ := endedMeanwhile_holds
  obtain ⟨hrefuses, hends⟩ := closed_refuses {} endedMeanwhile hclosed
  refine ⟨hclosed, hrefuses, fun thread => ?_⟩
  exact (hends begun (fun _ => .sent) [] rfl ⟨rfl, congrArg (·.1) heq⟩).1 thread 0

/-- A thread that has no stream finishes its record. -/
private theorem finish_of_none (hlatched : r.client.Latched) (hplaced : r.client.Placed)
    (hclosed : r.client.closed = true) (hholdings : r.client.holdings = ({}, ∅, 0))
    (hdraft : r.drafts 0 = some ⟨⟨.start 1, none, none⟩, 1, []⟩) :
    (r.step (.finish 0 0)).faults = r.faults ∧
      (r.step (.finish 0 0)).accepted = r.accepted ++ [(.own 0, ⟨1, []⟩)] := by
  obtain ⟨hsettings, hrest⟩ := Prod.mk.inj hholdings
  obtain ⟨hstreams, hsize⟩ := Prod.mk.inj hrest
  have hnone : r.client.streamOf? 0 = none := by
    rw [Client.streamOf?, hstreams]
    rfl
  have hstream : r.client.streamFor 0 none = .own 0 := by
    rw [Client.streamFor, hnone, hsize]
    rfl
  have hkeeps : r.client.KeepsBack 0 ⟨.start 1, none, none⟩ := by
    refine ⟨?_, fun h => absurd rfl h⟩
    simp only [Client.Room, Client.target, hnone, hsize, hsettings]
    exact ⟨_, rfl, by decide⟩
  have htaken := (finishesLate hlatched hplaced hclosed hdraft rfl 0).taken hkeeps
  rwa [hstream] at htaken

/-- **A record that is accepted too late is lost.** The session has ended in order. The thread,
which had no stream, then finishes the record that it had begun: no fault is told, and the record
is accepted, but it is never sent. -/
theorem late_record_lost :
    (after {} endedMeanwhile).client.closed = true ∧ (after {} endedMeanwhile).faults = [] ∧
      ((after {} endedMeanwhile).step (.finish 0 0)).faults = [] ∧
      ((after {} endedMeanwhile).step (.finish 0 0)).accepted = [(.own 0, ⟨1, []⟩)] ∧
      ∀ later, (((after {} endedMeanwhile).step (.finish 0 0)).turns later).sent = endedFrames := by
  obtain ⟨⟨hfaults, haccepted, hsent⟩, hdraft, hclosed, hholdings⟩ := endedMeanwhile_holds
  have hlatched := latched_after {} endedMeanwhile
  have hplaced := placed_after {} endedMeanwhile
  have hlate := late_turns hlatched hplaced hclosed
  obtain ⟨hnoFault, htaken⟩ := finish_of_none hlatched hplaced hclosed hholdings hdraft
  rw [haccepted] at htaken
  exact ⟨hclosed, hfaults, hnoFault.trans hfaults, htaken,
    fun later => (hlate (.call (.finish 0 0) :: later)).sent.trans hsent⟩

end Run

end TraceRelay
