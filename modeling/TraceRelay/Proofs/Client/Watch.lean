import TraceRelay.Proofs.Client.Flow
import TraceRelay.Proofs.Client.Gate
import TraceRelay.Proofs.Client.Leftover

/-!
# The end of a session, watched

The thread that ends a session first lets all streams go to the queue, with the announcement of the
end behind them, shuts the queue, and waits for the sender. What it answers depends on what the
sender met and, if that is nothing, on what the thread met itself. Beside threads that interrupt
each other it is written down here what was handed to the transport, which thread ends the session,
and the fault that this thread met.

A thread may have taken hold of the queue just before it was shut. Its frame is still accepted, and
the sender goes on until no thread has hold of the queue any more.

## Main definitions

* `Client.report` : what the end of a session answers.
* `Watch` : threads, the sender, and the thread that ends the session.
* `Watch.Event`, `Watch.step`, `Watch.run` : what happens.
* `Watch.answer?` : what the end of the session has answered.
* `Client.Grows` : what a job can do to the outbox.
* `Machine.Goes` : what happens when a thread does its next job.

## Main results

* `Client.shutdown_eq_report` : an end that nobody interrupts answers in the same way.
* `Client.Lasting.keeps_perform`, `Client.grows_perform` : each job.
* `Job.ends_of_left` : the queue is shut by the thread that ends the session, and by no other.
-/

namespace TraceRelay

/-! ### What the end answers -/

namespace Client

/-- What the end of a session answers when the sender has come to its end: the failure of the
transport, or else how the streams were drained. -/
def report (drained : Except ClientError Unit) (c : Client) : Except ClientError Unit :=
  match c.outbox.failure with
  | some cause => .error (.transport cause)
  | none => drained

/-- The first fault, or none, as an answer. -/
def drained : Option ClientError → Except ClientError Unit
  | some e => .error e
  | none => .ok ()

/-- The fault of a step. -/
def fault? {α : Type} : EStateM.Result ClientError Client α → Option ClientError
  | .ok .. => none
  | .error e _ => some e

/-- **An end that nobody interrupts** drains the streams, runs the sender, and answers when nothing
waits any more or the transport has failed. -/
theorem shutdown_eq_report {c : Client} (hending : c.ending = false) (deliver : Nat → Delivery) :
    let after := ((Step.final (drain c)).runSender deliver).2
    (c.shutdown deliver).1 =
      if after.outbox.failure = none ∧ after.outbox.waiting.isEmpty = false then
        .error .drainTimeout
      else after.report (drained (fault? (drain c))) := by
  intro after
  have hshutdown : c.shutdown deliver =
      match after.outbox.failure with
      | some e => (.error (.transport e), ((Step.final (drain c)).runSender deliver).1, after)
      | none =>
        if after.outbox.waiting.isEmpty then
          (drained (fault? (drain c)), ((Step.final (drain c)).runSender deliver).1, after)
        else (.error .drainTimeout, ((Step.final (drain c)).runSender deliver).1,
          { after with outbox := after.outbox.abort }) := by
    simp only [after, shutdown, drain, hending, Bool.false_eq_true, if_false]
    cases closeAll { c with ending := true, closed := true } <;> rfl
  rw [hshutdown, report]
  cases after.outbox.failure with
  | some cause => simp
  | none => cases after.outbox.waiting.isEmpty <;> simp

end Client

/-! ### Threads, the sender, and the end -/

/-- Threads that share a client, the sender, and the thread that ends the session. -/
structure Watch where
  machine : Machine
  /-- What was handed to the transport, first to last. -/
  tried : List Attempt := []
  /-- Whether the sender has found that nothing will come any more. -/
  finished : Bool := false
  /-- The thread that was the first to end the session. -/
  closer : Option ThreadId := none
  /-- The first fault that this thread met while it drained the streams. -/
  fault : Option ClientError := none

namespace Machine

/-- The fault that the next job of a thread meets. -/
def fault? (parts : Parts) (thread : ThreadId) (m : Machine) : Option ClientError :=
  match m.jobs thread with
  | [] => none
  | job :: _ =>
    if job.locks && m.holder.any (· != thread) then none
    else Client.fault? (job.perform parts thread m.clock m.client)

/-- Whether the next job of a thread ends a session that was not ended before. -/
def ends (thread : ThreadId) (m : Machine) : Bool :=
  match m.jobs thread with
  | .beginEnd :: _ => !m.client.ending
  | _ => false

/-- The outbox is replaced. -/
def withOutbox (o : Outbox) (m : Machine) : Machine :=
  { m with client := { m.client with outbox := o } }

end Machine

namespace Watch

/-- What happens. -/
inductive Event where
  /-- A thread that has nothing to do makes a call. -/
  | call (thread : ThreadId) (request : Request)
  /-- A thread does its next job. -/
  | go (thread : ThreadId)
  /-- A thread that took hold of the queue before it was shut does its next job. -/
  | late (thread : ThreadId)
  /-- A thread that has nothing to do is gone. -/
  | exit (thread : ThreadId)
  /-- The sender hands frames to the transport. -/
  | sender (deliver : Nat → Delivery)
  /-- The sender finds that nothing waits and nothing will come any more. -/
  | finish
  /-- The time is over, and the sender is stopped. -/
  | stop
  /-- The session is given up without notice. -/
  | abandon

/-- The outbox of the session. -/
def outbox (w : Watch) : Outbox := w.machine.client.outbox

/-- Whether the sender still takes frames from the queue. -/
def isSending (w : Watch) : Bool := !w.finished && w.outbox.failure.isNone && !w.outbox.aborted

/-- Whether a thread is the one that ends the session, and is still draining the streams. -/
def isDraining (thread : ThreadId) (w : Watch) : Bool :=
  w.closer == some thread && (w.machine.jobs thread).any Job.isAlways

/-- The outbox is replaced. -/
def withOutbox (o : Outbox) (w : Watch) : Watch := { w with machine := w.machine.withOutbox o }

/-- The queue is open or shut. -/
def withQueue (accepting : Bool) (w : Watch) : Watch := w.withOutbox { w.outbox with accepting }

/-- A thread does its next job. -/
def go (parts : Parts) (thread : ThreadId) (w : Watch) : Watch :=
  { w with
    machine := w.machine.move parts (.go thread)
    closer := if w.machine.ends thread then some thread else w.closer
    fault := if w.isDraining thread then w.fault.or (w.machine.fault? parts thread) else w.fault }

/-- What happens at a moment. -/
def step (parts : Parts) (w : Watch) : Event → Watch
  | .call thread request => { w with machine := w.machine.move parts (.call thread request) }
  | .go thread => w.go parts thread
  | .late thread =>
    if w.isSending then
      let w' := (w.withQueue true).go parts thread
      w'.withQueue (w.outbox.accepting && w'.outbox.accepting)
    else w.go parts thread
  | .exit thread => { w with machine := w.machine.move parts (.exit thread) }
  | .sender deliver =>
    { w with
      machine := w.machine.move parts (.sender deliver)
      tried := w.tried ++ w.outbox.attempts deliver }
  | .finish =>
    { w with finished := w.finished || (!w.outbox.accepting && w.outbox.waiting.isEmpty) }
  | .stop => w.withOutbox w.outbox.abort
  | .abandon => w.withOutbox w.outbox.close

/-- A session before its first call. -/
def start (settings : ClientSettings) : Watch := { machine := .start settings }

/-- What happens one moment after the other. -/
def run (parts : Parts) (w : Watch) (events : List Event) : Watch := events.foldl (step parts) w

/-- What the first thread that ended the session has answered. It answers when it has drained the
streams and the sender has come to its end, unless the time was over before. -/
def answer? (w : Watch) : Option (Except ClientError Unit) :=
  match w.closer with
  | none => none
  | some thread =>
    if w.isDraining thread || w.outbox.aborted then none
    else if w.finished || w.outbox.failure.isSome then
      some (w.machine.client.report (Client.drained w.fault))
    else none

end Watch

/-! ### What jobs do to the outbox -/

namespace Client

open Step (Keeps)

/-- **What lasts is kept by each job**, if it is by the end of the session as well. -/
theorem Lasting.keeps_perform {P : Client → Prop} (h : Lasting P) {job : Job}
    (hend : job = .beginEnd → ∀ c, P c → P { c with ending := true, closed := true })
    (hshut : job = .closeOutbox → ∀ c, P c → P { c with outbox := c.outbox.close })
    (parts : Parts) (thread : ThreadId) (now : Nat) : Keeps P (job.perform parts thread now) := by
  have hlookUp (occasion : Occasion) (part : Nat) (found : List (ThreadId × StreamRef))
      (since : Nat) : Keeps P (Job.lookUp parts occasion part found since) := by
    refine .bind .get fun c => ?_
    split <;> exact .pure _
  cases job with
  | check request called => exact .bind keeps_ensureOpen fun _ => .pure _
  | register name =>
    refine .bind .get fun c => .bind ?_ fun _ =>
      .bind (.modify fun c hc => h.methods c _ hc) fun _ => .pure _
    unfold MethodTable.register
    split
    · exact .pure _
    · split
      · exact .bind (.throw _) fun _ => .bind (h.keeps_enqueueMessage _) fun _ => .pure _
      · exact .bind (h.keeps_enqueueMessage _) fun _ => .pure _
  | known id =>
    refine .bind .get fun c => ?_
    split
    · exact .pure _
    · exact .bind (.throw _) fun _ => .pure _
  | finish w r =>
    rw [Job.perform]
    split
    · exact .throw _
    · exact .bind (h.keeps_obtain thread) fun ref => .pure _
    · refine .bind .get fun c => ?_
      split <;> exact .pure _
  | append ref b r => exact .bind (h.keeps_appendTo ref b) fun _ => .pure _
  | post m => exact .bind (h.keeps_enqueueMessage m) fun _ => .pure _
  | free t called => exact .bind (h.keeps_onFrees _) fun _ => .bind .get fun c => .pure _
  | beginEnd =>
    refine .bind .get fun c => ?_
    split
    · exact .pure _
    · exact .bind (.modify (hend rfl)) fun _ => .pure _
  | sealAll occasion => exact hlookUp occasion 0 [] now
  | collect occasion part found since => exact hlookUp occasion part found since
  | visit other ref =>
    refine .bind .get fun c => ?_
    split
    · exact .pure _
    · exact .bind (h.keeps_sealStream ref) fun _ => .pure _
  | «seal» ref => exact .bind (h.keeps_sealStream ref) fun _ => .pure _
  | close ref => exact .bind (h.keeps_closeStream ref) fun _ => .pure _
  | detach other =>
    refine .bind (h.keeps_detach other) fun ref? => ?_
    cases ref? <;> exact .pure _
  | tellEnd ref =>
    exact .bind .get fun c => .bind (h.keeps_enqueueMessage _) fun _ => .pure _
  | sealFrees occasion since =>
    rw [Job.perform]
    split
    · exact .bind (.modify fun c hc => h.frees c _ hc) fun _ =>
        .bind h.keeps_sealFrees fun _ => .pure _
    · exact .bind h.keeps_sealFrees fun _ => .pure _
  | closeOutbox => exact .bind (.modify (hshut rfl)) fun _ => .pure _

/-- A client whose outbox can only have got more frames, and these only if it accepted any. -/
structure Grows (c c' : Client) : Prop where
  waiting : c.outbox.waiting.toList <+: c'.outbox.waiting.toList
  failure : c'.outbox.failure = c.outbox.failure
  aborted : c'.outbox.aborted = c.outbox.aborted
  shut : c.outbox.accepting = false →
    c'.outbox.accepting = false ∧ c'.outbox.waiting.toList = c.outbox.waiting.toList
  closed : c.closed = true → c'.closed = true

variable {c : Client}

theorem lasting_grows (c : Client) : Lasting c.Grows where
  setStream _ ref _ h := by
    cases ref <;> exact ⟨h.waiting, h.failure, h.aborted, h.shut, h.closed⟩
  obtained _ _ _ h := ⟨h.waiting, h.failure, h.aborted, h.shut, h.closed⟩
  detached _ _ h := ⟨h.waiting, h.failure, h.aborted, h.shut, h.closed⟩
  frees _ _ h := ⟨h.waiting, h.failure, h.aborted, h.shut, h.closed⟩
  methods _ _ h := ⟨h.waiting, h.failure, h.aborted, h.shut, h.closed⟩
  push d frame haccepting h := by
    refine ⟨?_, h.failure, h.aborted, fun hshut => ?_, h.closed⟩
    · rw [Fifo.toList_push]
      exact h.waiting.trans (List.prefix_append _ _)
    · rw [(h.shut hshut).1] at haccepting
      cases haccepting

/-- No job takes frames from the outbox or lets it accept frames again. -/
theorem grows_perform (c : Client) (job : Job) (parts : Parts) (thread : ThreadId) (now : Nat) :
    c.Grows (Step.final (job.perform parts thread now c)) := by
  refine (lasting_grows c).keeps_perform (fun _ d h => ?_) (fun _ d h => ?_) parts thread now c
    ⟨List.prefix_rfl, rfl, rfl, fun h => ⟨h, rfl⟩, id⟩
  · exact ⟨h.waiting, h.failure, h.aborted, h.shut, fun _ => rfl⟩
  · exact ⟨h.waiting, h.failure, h.aborted, fun hshut => ⟨rfl, (h.shut hshut).2⟩, h.closed⟩

/-- Whether a session was asked to end is changed by the job alone that ends it. -/
theorem ending_perform (c : Client) {job : Job} (hjob : job ≠ .beginEnd) (parts : Parts)
    (thread : ThreadId) (now : Nat) :
    (Step.final (job.perform parts thread now c)).ending = c.ending := by
  have hlasting : Lasting fun d => d.ending = c.ending := {
    setStream _ ref _ h := by
      cases ref <;> exact h
    obtained _ _ _ h := h
    detached _ _ h := h
    frees _ _ h := h
    methods _ _ h := h
    push _ _ _ h := h }
  exact hlasting.keeps_perform (fun heq => absurd heq hjob) (fun _ _ h => h) parts thread now c rfl

end Client

/-! ### What jobs leave -/

namespace Request

theorem isAlways_rest (thread : ThreadId) (called : Nat) (request : Request) :
    ∀ job ∈ request.rest thread called, job.isAlways = false := by
  cases request with
  | dispatch id args => exact List.forall_mem_cons.mpr ⟨rfl, List.forall_mem_singleton.mpr rfl⟩
  | _ => exact List.forall_mem_singleton.mpr rfl

theorem isAlways_jobs (thread : ThreadId) (called : Nat) (request : Request) :
    ∀ job ∈ request.jobs thread called, job.isAlways = false := by
  cases request with
  | finish id ordering args => exact isAlways_rest thread called (.finish id ordering args)
  | shutdown => exact isAlways_rest thread called .shutdown
  | _ => exact List.forall_mem_singleton.mpr rfl

end Request

namespace Job

variable {parts : Parts} {thread : ThreadId} {now : Nat} {c c' : Client} {job : Job}
  {more : List Job}

private theorem isAlways_lookUp {occasion : Occasion} {part since : Nat}
    {found : List (ThreadId × StreamRef)}
    (h : lookUp parts occasion part found since c = .ok more c') :
    ∀ next ∈ more, next.isAlways = false := by
  obtain ⟨-, found', -, ⟨-, rfl⟩ | ⟨-, rfl⟩⟩ := lookUp_cases h
  · exact List.forall_mem_singleton.mpr rfl
  · refine List.forall_mem_append.mpr ⟨fun next hnext => ?_, List.forall_mem_singleton.mpr rfl⟩
    cases occasion <;> rcases List.mem_append.mp hnext with hnext | hnext <;>
      obtain ⟨_, -, rfl⟩ := List.mem_map.mp hnext <;> rfl

/-- A session that was not asked to end before ends now, or else it has done so already. -/
theorem perform_beginEnd (parts : Parts) (thread : ThreadId) (now : Nat) (c : Client) :
    beginEnd.perform parts thread now c =
      if c.ending then .ok [] c
      else .ok [.sealAll .shutdown, .post .close, .closeOutbox]
        { c with ending := true, closed := true } := by
  rw [perform, Step.get_bind]
  cases c.ending <;> rfl

/-- **The queue is shut by the thread that ends the session**, and by no other. -/
theorem ends_of_left (hplaced : c.Placed) (h : job.perform parts thread now c = .ok more c')
    {next : Job} (hnext : next ∈ more) (halways : next.isAlways = true) :
    job = .beginEnd ∧ c.ending = false := by
  have hnone (hall : ∀ next ∈ more, next.isAlways = false) : False := by
    rw [hall next hnext] at halways
    cases halways
  cases leaves_perform hplaced h with
  | endedBefore => cases hnext
  | ends =>
    rw [perform_beginEnd] at h
    cases hending : c.ending with
    | false => exact ⟨rfl, rfl⟩
    | true =>
      rw [hending] at h
      cases h
  | passed request called => exact (hnone (Request.isAlways_rest thread called request)).elim
  | looksUp occasion hlook => exact (hnone (isAlways_lookUp hlook)).elim
  | looksOn occasion part found since hlook => exact (hnone (isAlways_lookUp hlook)).elim
  | found | full | orphaned => exact (hnone (List.forall_mem_singleton.mpr rfl)).elim
  | foundShared | detached =>
    exact (hnone (List.forall_mem_cons.mpr ⟨rfl, List.forall_mem_singleton.mpr rfl⟩)).elim
  | _ => cases hnext

/-- A message that was put into the outbox waits there. -/
theorem waiting_post {message : Message}
    (h : (Job.post message).perform parts thread now c = .ok more c') :
    more = [] ∧ ∃ frame, c'.outbox.waiting.toList = c.outbox.waiting.toList ++ [frame] := by
  obtain ⟨_, d, hpost, hpure⟩ := Step.bind_eq_ok_iff.mp h
  obtain ⟨rfl, rfl⟩ := Step.pure_eq_ok_iff.mp hpure
  refine ⟨rfl, ?_⟩
  have hsends := Client.enqueueMessage_sends message c
  rw [hpost] at hsends
  cases hsends with
  | nothing hnone => cases hbytes : message.toBytes <;> simp [hbytes] at hnone
  | sent => exact ⟨_, Fifo.toList_push _ _⟩

end Job

/-! ### The next job of a thread -/

namespace Machine

variable {parts : Parts} {m : Machine} {thread : ThreadId}

theorem ends_iff {job : Job} {rest : List Job} (hjobs : m.jobs thread = job :: rest) :
    m.ends thread = true ↔ job = .beginEnd ∧ m.client.ending = false := by
  rw [ends, hjobs]
  cases job <;> simp

/-- Whether the session was asked to end is as it was, unless the job ends it. -/
theorem ending_of_not_ends (parts : Parts) {job : Job} {rest : List Job}
    (hjobs : m.jobs thread = job :: rest) (hends : m.ends thread = false) :
    (Step.final (job.perform parts thread m.clock m.client)).ending = m.client.ending := by
  by_cases hjob : job = .beginEnd
  · subst hjob
    have hending : m.client.ending = true := by
      rw [← Bool.not_eq_false]
      intro hnot
      rw [(ends_iff hjobs).mpr ⟨rfl, hnot⟩] at hends
      cases hends
    rw [Job.perform_beginEnd, if_pos hending]
    rfl
  · exact Client.ending_perform m.client hjob parts thread m.clock

/-- The end of the session is announced by the job that puts it into the queue. -/
theorem log_noted_close {more : List Job} {c : Client}
    (hperform : (Job.post .close).perform parts thread m.clock m.client = .ok more c) :
    ∃ frame, (m.noted (.post .close) true c).log = m.log ++ [⟨frame, .told .close⟩] := by
  obtain ⟨-, frame, hwaiting⟩ := Job.waiting_post hperform
  refine ⟨frame, ?_⟩
  change m.log ++ List.map _ (c.outbox.waiting.toList.drop _) = _
  rw [hwaiting, List.drop_left]
  rfl

/-- What happens when a thread does its next job. -/
inductive Goes (parts : Parts) (thread : ThreadId) (m : Machine) : Machine → Prop
  | waits (hfault : m.fault? parts thread = none) (hends : m.ends thread = false) :
    Goes parts thread m m
  | done {job : Job} {rest more : List Job} {c : Client} {holder : Option ThreadId}
    (hjobs : m.jobs thread = job :: rest) (hfault : m.fault? parts thread = none)
    (hperform : job.perform parts thread m.clock m.client = .ok more c) : Goes parts thread m
      { m.noted job true c with jobs := Function.update m.jobs thread (more ++ rest), holder }
  | failed {job : Job} {rest : List Job} {e : ClientError} {c : Client} {holder : Option ThreadId}
    (hjobs : m.jobs thread = job :: rest) (hfault : m.fault? parts thread = some e)
    (hperform : job.perform parts thread m.clock m.client = .error e c) : Goes parts thread m
      { m.noted job false c with
        jobs := Function.update m.jobs thread (rest.filter Job.isAlways), holder }

theorem go_goes (parts : Parts) (thread : ThreadId) (m : Machine) :
    Goes parts thread m (m.go parts thread) := by
  cases hjobs : m.jobs thread with
  | nil =>
    have hgo : m.go parts thread = m := by simp only [go, hjobs]
    rw [hgo]
    exact .waits (by simp only [fault?, hjobs]) (by simp only [ends, hjobs])
  | cons job rest =>
    by_cases hblocked : (job.locks && m.holder.any (· != thread)) = true
    · have hgo : m.go parts thread = m := by simp only [go, hjobs, if_pos hblocked]
      rw [hgo]
      refine .waits (by simp only [fault?, hjobs, if_pos hblocked]) ?_
      cases job with
      | beginEnd => cases hblocked
      | _ => simp only [ends, hjobs]
    · cases hperform : job.perform parts thread m.clock m.client with
      | ok more c =>
        simp only [go, hjobs, if_neg hblocked, hperform]
        exact .done hjobs (by simp only [fault?, hjobs, if_neg hblocked, hperform]; rfl) hperform
      | error e c =>
        simp only [go, hjobs, if_neg hblocked, hperform]
        exact .failed hjobs (by simp only [fault?, hjobs, if_neg hblocked, hperform]; rfl) hperform

end Machine

end TraceRelay
