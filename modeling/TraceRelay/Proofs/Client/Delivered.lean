import TraceRelay.Proofs.Client.Overtaking
import TraceRelay.Proofs.Client.Watch

/-!
# What the transport gets

Whatever threads do, however they interrupt each other and the sender, and however the transport
answers: the frames that are sent are whole, and they are the front part of the queue. Nothing is
handed to the transport behind a frame that failed, and the failure closes the session. The first
thread that ends the session learns what became of the queue: it is answered with success only if
all frames were sent, the announcement of the end among them, and with the failure of the transport
if any frame failed, whatever faults the thread met itself.

## Main definitions

* `Announced` : the end of the session was put into the queue.
* `Closing` : how far the thread has come that ends the session.
* `Watch.queue` : the frames that were put into the queue.
* `Watch.Sound` : what is true between two moments.

## Main results

* `Watch.Sound.go`, `Watch.Sound.sender`, `Watch.Sound.withOutbox`, `Watch.Sound.step` : what
  happens at a moment.
* `Watch.queue_delivered` : what the transport gets, and what the end of the session answers.
-/

namespace TraceRelay

/-- The end of the session was put into the queue. -/
def Announced (log : List Departure) : Prop := ∃ d ∈ log, d.load = .told .close

theorem Announced.append {log : List Departure} (h : Announced log) (more : List Departure) :
    Announced (log ++ more) := by
  obtain ⟨d, hd, hload⟩ := h
  exact ⟨d, List.mem_append_left more hd, hload⟩

/-- How far the thread has come that ends the session: what was put into the queue, the first fault
that it met, and what it has still to do. -/
inductive Closing (log : List Departure) : Option ClientError → List Job → Prop
  | draining {front behind : List Job} (hfront : ∀ job ∈ front, job.isAlways = false)
    (hbehind : ∀ job ∈ behind, job.isAlways = false) :
    Closing log none (front ++ .post .close :: .closeOutbox :: behind)
  | announced {behind : List Job} (hclose : Announced log)
    (hbehind : ∀ job ∈ behind, job.isAlways = false) : Closing log none (.closeOutbox :: behind)
  | faulted (e : ClientError) : Closing log (some e) [.closeOutbox]
  | drained {fault : Option ClientError} {jobs : List Job} (hclose : fault = none → Announced log)
    (hjobs : ∀ job ∈ jobs, job.isAlways = false) : Closing log fault jobs

namespace Closing

variable {log log' : List Departure} {fault : Option ClientError} {jobs rest more : List Job}
  {job : Job} {parts : Parts} {thread : ThreadId} {now : Nat} {c c' : Client} {e : ClientError}

theorem grow (h : Closing log fault jobs) (hlog : Announced log → Announced log') :
    Closing log' fault jobs := by
  cases h with
  | draining hfront hbehind => exact .draining hfront hbehind
  | announced hclose hbehind => exact .announced (hlog hclose) hbehind
  | faulted e => exact .faulted e
  | drained hclose hjobs => exact .drained (fun hnone => hlog (hclose hnone)) hjobs

/-- The thread does its next job. -/
theorem done (h : Closing log fault (job :: rest)) (hplaced : c.Placed) (hending : c.ending = true)
    (hperform : job.perform parts thread now c = .ok more c')
    (hlog : Announced log → Announced log') (hpost : job = .post .close → Announced log') :
    Closing log' fault (more ++ rest) := by
  have hmore : ∀ next ∈ more, next.isAlways = false := by
    intro next hnext
    by_contra halways
    obtain ⟨-, hnot⟩ := Job.ends_of_left hplaced hperform hnext (by simpa using halways)
    rw [hending] at hnot
    cases hnot
  generalize hall : job :: rest = all at h
  cases h with
  | @draining front behind hfront hbehind =>
    cases front with
    | nil =>
      obtain ⟨rfl, rfl⟩ := List.cons.inj hall
      obtain ⟨rfl, -⟩ := Job.waiting_post hperform
      exact .announced (hpost rfl) hbehind
    | cons first front =>
      rw [List.cons_append] at hall
      obtain ⟨rfl, rfl⟩ := List.cons.inj hall
      rw [← List.append_assoc]
      exact .draining (List.forall_mem_append.mpr ⟨hmore, (List.forall_mem_cons.mp hfront).2⟩)
        hbehind
  | announced hclose hbehind =>
    obtain ⟨rfl, rfl⟩ := List.cons.inj hall
    exact .drained (fun _ => hlog hclose) (List.forall_mem_append.mpr ⟨hmore, hbehind⟩)
  | faulted e =>
    obtain ⟨rfl, rfl⟩ := List.cons.inj hall
    exact .drained nofun (List.forall_mem_append.mpr ⟨hmore, List.forall_mem_nil _⟩)
  | drained hclose hjobs =>
    subst hall
    exact .drained (fun hnone => hlog (hclose hnone))
      (List.forall_mem_append.mpr ⟨hmore, (List.forall_mem_cons.mp hjobs).2⟩)

/-- The next job of the thread fails. -/
theorem failed (h : Closing log fault (job :: rest))
    (hperform : job.perform parts thread now c = .error e c')
    (hlog : Announced log → Announced log') :
    Closing log' (if (job :: rest).any Job.isAlways then fault.or (some e) else fault)
      (rest.filter Job.isAlways) := by
  have hnone {jobs : List Job} (hjobs : ∀ job ∈ jobs, job.isAlways = false) :
      jobs.filter Job.isAlways = [] :=
    List.filter_eq_nil_iff.mpr fun job hjob => by simp [hjobs job hjob]
  generalize hall : job :: rest = all at h ⊢
  cases h with
  | @draining front behind hfront hbehind =>
    have hany : (front ++ .post .close :: .closeOutbox :: behind).any Job.isAlways = true := by
      simp [Job.isAlways]
    have hrest : rest.filter Job.isAlways = [.closeOutbox] := by
      cases front with
      | nil =>
        obtain ⟨-, rfl⟩ := List.cons.inj hall
        rw [List.filter_cons_of_pos rfl, hnone hbehind]
      | cons first front =>
        rw [List.cons_append] at hall
        obtain ⟨-, rfl⟩ := List.cons.inj hall
        rw [List.filter_append, hnone (List.forall_mem_cons.mp hfront).2,
          List.filter_cons_of_neg (by simp [Job.isAlways]), List.filter_cons_of_pos rfl,
          hnone hbehind, List.nil_append]
    rw [if_pos hany, hrest]
    exact .faulted e
  | announced | faulted =>
    obtain ⟨rfl, -⟩ := List.cons.inj hall
    cases hperform
  | drained hclose hjobs =>
    subst hall
    have hany : (job :: rest).any Job.isAlways = false := by
      rw [List.any_eq_false]
      exact fun job hjob => by simp [hjobs job hjob]
    rw [if_neg (by simp [hany]), hnone (List.forall_mem_cons.mp hjobs).2]
    exact .drained (fun hnone => hlog (hclose hnone)) (List.forall_mem_nil _)

end Closing

/-! ### Machines -/

namespace Machine

variable {parts : Parts} {m : Machine}

/-- Threads do not rely on the outbox. -/
theorem Orderly.withOutbox (h : m.Orderly parts) (o : Outbox) :
    (m.withOutbox o).Orderly parts where
  streams := h.streams.same ⟨rfl, rfl, rfl⟩
  frees := h.frees
  fit t job hjob := by
    have hfits := h.fit t job hjob
    cases job <;> exact hfits
  sorted := h.sorted
  sinceEarlier := h.sinceEarlier
  calledEarlier := h.calledEarlier
  pendingEarlier := h.pendingEarlier
  guarded := h.guarded
  locked := h.locked
  ending := h.ending

theorem Logged.withOutbox (h : m.Logged) {o : Outbox}
    (ho : o.waiting.toList <:+ m.client.outbox.waiting.toList) : (m.withOutbox o).Logged where
  waiting := ho.trans h.waiting
  carried := h.carried
  told := h.told
  reported := h.reported
  behind := h.behind

theorem Orderly.move (h : m.Orderly parts) (hlogged : m.Logged) (move : Move) :
    (m.move parts move).Orderly parts ∧ (m.move parts move).Logged := by
  obtain ⟨next, hturn, hmove⟩ := h.toRight.turn_move h.fit parts move
  rw [hmove]
  exact ⟨h.turn hturn, hlogged.turn h hturn⟩

end Machine

namespace Watch

open Machine (Goes)

variable {parts : Parts} {w : Watch} {thread : ThreadId}

/-- The frames that were put into the queue, in order. -/
def queue (w : Watch) : List Bytes := w.machine.log.map (·.frame)

theorem isDraining_eq_false (hcloser : w.closer ≠ some thread) : w.isDraining thread = false := by
  simp [isDraining, hcloser]

/-- A job that succeeds adds no fault. -/
theorem fault_of_none (w : Watch) (thread : ThreadId) :
    (if w.isDraining thread then w.fault.or none else w.fault) = w.fault := by
  rw [Option.or_none, ite_self]

/-- What is true between two moments. -/
structure Sound (parts : Parts) (w : Watch) : Prop where
  orderly : w.machine.Orderly parts
  logged : w.machine.Logged
  flow : w.outbox.Flow w.queue w.tried
  closed : w.outbox.failure.isSome = true → w.machine.client.closed = true
  finished : w.finished = true → w.outbox.accepting = false ∧ w.outbox.waiting.toList = []
  ending : w.machine.client.ending = w.closer.isSome
  fault : w.closer = none → w.fault = none
  always : ∀ t, ∀ job ∈ w.machine.jobs t, job.isAlways = true → w.closer = some t
  closing : ∀ t, w.closer = some t → Closing w.machine.log w.fault (w.machine.jobs t)

namespace Sound

theorem start (parts : Parts) (settings : ClientSettings) : Sound parts (.start settings) where
  orderly := Machine.orderly_start parts settings
  logged := Machine.logged_start settings
  flow := .start
  closed := nofun
  finished := nofun
  ending := rfl
  fault _ := rfl
  always _ _ hjob := absurd hjob List.not_mem_nil
  closing := nofun

/-! ### Outside of jobs -/

/-- Something happens to the outbox that the threads do not notice. -/
theorem withOutbox (h : Sound parts w) {o : Outbox} (hflow : o.Flow w.queue w.tried)
    (hwaiting : o.waiting.toList <:+ w.outbox.waiting.toList)
    (hfailure : o.failure = w.outbox.failure) (hshut : w.finished = true → o.accepting = false) :
    Sound parts (w.withOutbox o) where
  orderly := h.orderly.withOutbox o
  logged := h.logged.withOutbox hwaiting
  flow := hflow
  closed hfailed := h.closed (hfailure ▸ hfailed)
  finished hfinished := ⟨hshut hfinished, List.suffix_nil.mp ((h.finished hfinished).2 ▸ hwaiting)⟩
  ending := h.ending
  fault := h.fault
  always := h.always
  closing := h.closing

/-- The sender hands frames to the transport. -/
theorem sender (h : Sound parts w) (deliver : Nat → Delivery) :
    Sound parts (w.step parts (.sender deliver)) := by
  obtain ⟨horderly, hlogged⟩ := h.orderly.move h.logged (.sender deliver)
  exact {
    orderly := horderly
    logged := hlogged
    flow := h.flow.pump deliver
    closed := fun hfailed => by
      change (w.machine.client.closed || (w.outbox.pump deliver).2.failure.isSome) = true
      exact Bool.or_eq_true_iff.mpr (.inr hfailed)
    finished := fun hfinished => by
      obtain ⟨hshut, hwaiting⟩ := h.finished hfinished
      obtain ⟨-, hempty, -, haccepting⟩ := Outbox.pump_of_idle deliver hwaiting
      exact ⟨haccepting.trans hshut, hempty⟩
    ending := h.ending
    fault := h.fault
    always := h.always
    closing := h.closing }

/-- Something happens that changes neither the outbox nor the log, and gives jobs only to threads
that have none. -/
theorem aside (h : Sound parts w) {m : Machine} (horderly : m.Orderly parts) (hlogged : m.Logged)
    (houtbox : m.client.outbox = w.outbox) (hclosed : m.client.closed = w.machine.client.closed)
    (hending : m.client.ending = w.machine.client.ending) (hlog : m.log = w.machine.log)
    (hjobs : ∀ t, m.jobs t = w.machine.jobs t ∨
      w.machine.jobs t = [] ∧ ∀ job ∈ m.jobs t, job.isAlways = false) :
    Sound parts { w with machine := m } where
  orderly := horderly
  logged := hlogged
  flow := by
    change m.client.outbox.Flow (m.log.map (·.frame)) w.tried
    rw [houtbox, hlog]
    exact h.flow
  closed hfailed := by
    change m.client.outbox.failure.isSome = true at hfailed
    rw [houtbox] at hfailed
    exact hclosed.trans (h.closed hfailed)
  finished := by
    change w.finished = true →
      m.client.outbox.accepting = false ∧ m.client.outbox.waiting.toList = []
    rw [houtbox]
    exact h.finished
  ending := hending.trans h.ending
  fault := h.fault
  always t job hjob halways := by
    rcases hjobs t with heq | ⟨-, hnone⟩
    · exact h.always t job (heq ▸ hjob) halways
    · rw [hnone job hjob] at halways
      cases halways
  closing t ht := by
    have hclosing := h.closing t ht
    change Closing m.log w.fault (m.jobs t)
    rw [hlog]
    rcases hjobs t with heq | ⟨hidle, hnone⟩
    · exact heq ▸ hclosing
    · generalize w.machine.jobs t = jobs at hidle hclosing
      generalize w.fault = fault at hclosing ⊢
      cases hclosing with
      | draining => simp at hidle
      | announced | faulted => cases hidle
      | drained hclose => exact .drained hclose hnone

/-- A thread that has nothing to do makes a call. -/
theorem call (h : Sound parts w) (thread : ThreadId) (request : Request) :
    Sound parts (w.step parts (.call thread request)) := by
  obtain ⟨horderly, hlogged⟩ := h.orderly.move h.logged (.call thread request)
  by_cases hidle : (w.machine.jobs thread).isEmpty = true
  · have hmove : w.machine.move parts (.call thread request) =
        { w.machine with
          jobs := Function.update w.machine.jobs thread (request.jobs thread w.machine.clock)
          clock := w.machine.clock + 1 } := by
      simp only [Machine.move, if_pos hidle]
    refine h.aside horderly hlogged ?_ ?_ ?_ ?_ fun t => ?_
    all_goals rw [hmove]
    · rfl
    by_cases ht : t = thread
    · subst ht
      refine .inr ⟨List.isEmpty_iff.mp hidle, ?_⟩
      simp only [Function.update_self]
      exact request.isAlways_jobs t w.machine.clock
    · exact .inl (Function.update_of_ne ht _ _)
  · have hmove : w.machine.move parts (.call thread request) =
        { w.machine with clock := w.machine.clock + 1 } := by
      simp only [Machine.move, if_neg hidle]
    refine h.aside horderly hlogged ?_ ?_ ?_ ?_ fun t => .inl ?_
    all_goals rw [hmove]
    rfl

/-- A thread is gone, and leaves its stream behind. -/
theorem exit (h : Sound parts w) (thread : ThreadId) :
    Sound parts (w.step parts (.exit thread)) := by
  obtain ⟨horderly, hlogged⟩ := h.orderly.move h.logged (.exit thread)
  have hgone (c : Client) : (c.threadGone thread).outbox = c.outbox ∧
      (c.threadGone thread).closed = c.closed ∧ (c.threadGone thread).ending = c.ending := by
    unfold Client.threadGone
    split
    next ref _ => cases ref <;> exact ⟨rfl, rfl, rfl⟩
    · exact ⟨rfl, rfl, rfl⟩
  obtain ⟨houtbox, hclosed, hending⟩ := hgone w.machine.client
  by_cases hidle : (w.machine.jobs thread).isEmpty = true
  · have hmove : w.machine.move parts (.exit thread) =
        { w.machine with
          client := w.machine.client.threadGone thread
          clock := w.machine.clock + 1 } := by
      simp only [Machine.move, if_pos hidle]
    refine h.aside horderly hlogged ?_ ?_ ?_ ?_ fun t => .inl ?_
    all_goals rw [hmove]
    · exact houtbox
    · exact hclosed
    · exact hending
  · have hmove : w.machine.move parts (.exit thread) =
        { w.machine with clock := w.machine.clock + 1 } := by
      simp only [Machine.move, if_neg hidle]
    refine h.aside horderly hlogged ?_ ?_ ?_ ?_ fun t => .inl ?_
    all_goals rw [hmove]
    rfl

/-! ### Jobs -/

/-- What a job leaves in the outbox, whether it succeeds or fails. -/
theorem noted (h : Sound parts w) (job : Job) (ok : Bool) {c : Client}
    (hgrows : w.machine.client.Grows c) :
    c.outbox.Flow ((w.machine.noted job ok c).log.map (·.frame)) w.tried ∧
      (c.outbox.failure.isSome = true → c.closed = true) ∧
      (w.finished = true → c.outbox.accepting = false ∧ c.outbox.waiting.toList = []) := by
  refine ⟨?_, fun hfailed => ?_, fun hfinished => ?_⟩
  · have hframes : (w.machine.noted job ok c).log.map (·.frame) = w.queue ++
        c.outbox.waiting.toList.drop w.outbox.waiting.toList.length := by
      change (w.machine.log ++ List.map _ _).map Departure.frame = _
      rw [List.map_append, List.map_map]
      exact congrArg (w.queue ++ ·) (List.map_id _)
    have hwaiting := List.prefix_iff_eq_append.mp hgrows.waiting
    rw [hframes]
    refine h.flow.push hwaiting.symm hgrows.failure hgrows.aborted
      (fun hshut => (hgrows.shut hshut).1) fun hstopped => ?_
    rw [(hgrows.shut (h.flow.accepting_eq_false hstopped)).2]
    exact List.drop_length
  · exact hgrows.closed (h.closed (hgrows.failure ▸ hfailed))
  · obtain ⟨hshut, hempty⟩ := h.finished hfinished
    exact ⟨(hgrows.shut hshut).1, (hgrows.shut hshut).2.trans hempty⟩

/-- A thread has done a job, or failed to. -/
theorem turned (h : Sound parts w) {job : Job} {ok : Bool} {c : Client} {left : List Job}
    {m : Machine} {closer : Option ThreadId} {fault : Option ClientError}
    (horderly : m.Orderly parts) (hlogged : m.Logged) (hgrows : w.machine.client.Grows c)
    (hclient : m.client = c) (hlog : m.log = (w.machine.noted job ok c).log)
    (hjobs : m.jobs = Function.update w.machine.jobs thread left)
    (hending : c.ending = closer.isSome) (hfault : closer = none → fault = none)
    (hcloser : ∀ t, w.closer = some t → closer = some t)
    (hothers : ∀ t, t ≠ thread → closer = some t → w.closer = some t ∧ fault = w.fault)
    (halways : ∀ job ∈ left, job.isAlways = true → closer = some thread)
    (hclosing : closer = some thread → Closing m.log fault left) :
    Sound parts { w with machine := m, closer, fault } := by
  subst hclient
  obtain ⟨hflow, hclosed, hfinished⟩ := h.noted job ok hgrows
  rw [← hlog] at hflow
  refine ⟨horderly, hlogged, hflow, hclosed, hfinished, hending, hfault, ?_, ?_⟩
  · intro t job' hjob' htrue
    change job' ∈ m.jobs t at hjob'
    rw [hjobs] at hjob'
    rcases Machine.mem_update hjob' with ⟨rfl, hleft⟩ | ⟨-, hold⟩
    · exact halways job' hleft htrue
    · exact hcloser t (h.always t job' hold htrue)
  · intro t ht
    change Closing m.log fault (m.jobs t)
    rw [hjobs]
    by_cases heq : t = thread
    · subst heq
      rw [Function.update_self]
      exact hclosing ht
    · obtain ⟨hold, rfl⟩ := hothers t heq ht
      rw [Function.update_of_ne heq, hlog]
      exact (h.closing t hold).grow (·.append _)

/-- A thread does its next job. -/
theorem go (h : Sound parts w) (thread : ThreadId) : Sound parts (w.go parts thread) := by
  have hmove := h.orderly.move h.logged (.go thread)
  change Machine.Orderly parts { w.machine.go parts thread with clock := w.machine.clock + 1 } ∧
    Machine.Logged { w.machine.go parts thread with clock := w.machine.clock + 1 } at hmove
  obtain ⟨horderly, hlogged⟩ := hmove
  have hgoes := Machine.go_goes parts thread w.machine
  change Sound parts { w with
    machine := { w.machine.go parts thread with clock := w.machine.clock + 1 }
    closer := if w.machine.ends thread then some thread else w.closer
    fault := if w.isDraining thread then w.fault.or (w.machine.fault? parts thread) else w.fault }
  generalize w.machine.go parts thread = next at hgoes horderly hlogged ⊢
  have hplaced := h.orderly.streams.placed
  cases hgoes with
  | waits hfault hends =>
    rw [hends, hfault, fault_of_none]
    exact h.aside horderly hlogged rfl rfl rfl rfl fun t => .inl rfl
  | @done job rest more c holder hjobs hfault hperform =>
    rw [hfault, fault_of_none]
    have hgrows := Client.grows_perform w.machine.client job parts thread w.machine.clock
    have hsame := Machine.ending_of_not_ends parts hjobs
    rw [hperform] at hgrows hsame
    have hends := Machine.ends_iff hjobs
    cases hnow : w.machine.ends thread with
    | true =>
      obtain ⟨rfl, hending⟩ := hends.mp hnow
      rw [Job.perform_beginEnd, hending] at hperform
      cases hperform
      have hnone : w.closer = none := by simpa [h.ending] using hending
      have hrest : ∀ job ∈ rest, job.isAlways = false := by
        intro job hjob
        rw [← Bool.not_eq_true]
        intro htrue
        have hmem : job ∈ w.machine.jobs thread := by rw [hjobs]; exact List.mem_cons_of_mem _ hjob
        cases hnone.symm.trans (h.always thread job hmem htrue)
      refine h.turned horderly hlogged hgrows rfl rfl rfl rfl nofun ?_ ?_ (fun _ _ _ => rfl) ?_
      · intro t ht
        cases hnone.symm.trans ht
      · intro t hne ht
        exact absurd (Option.some.inj ht).symm hne
      · intro _
        rw [h.fault hnone]
        have hfront : ∀ job ∈ [Job.sealAll .shutdown], job.isAlways = false :=
          List.forall_mem_singleton.mpr rfl
        exact .draining hfront hrest
    | false =>
      refine h.turned horderly hlogged hgrows rfl rfl rfl ((hsame hnow).trans h.ending) h.fault
        (fun _ => id) (fun _ _ ht => ⟨ht, rfl⟩) ?_ fun hcloser => ?_
      · intro next hnext halways
        rcases List.mem_append.mp hnext with hmore | hrest
        · rw [hends.mpr (Job.ends_of_left hplaced hperform hmore halways)] at hnow
          cases hnow
        · exact h.always thread next (by rw [hjobs]; exact List.mem_cons_of_mem _ hrest) halways
      · change w.closer = some thread at hcloser
        have hclosing := h.closing thread hcloser
        rw [hjobs] at hclosing
        refine hclosing.done hplaced (by rw [h.ending, hcloser]; rfl) hperform (·.append _) ?_
        rintro rfl
        obtain ⟨frame, hlog⟩ := Machine.log_noted_close hperform
        change Announced (w.machine.noted (.post .close) true c).log
        rw [hlog]
        exact ⟨_, List.mem_append_right _ List.mem_cons_self, rfl⟩
  | @failed job rest e c holder hjobs hfault hperform =>
    have hgrows := Client.grows_perform w.machine.client job parts thread w.machine.clock
    have hsame := Machine.ending_of_not_ends parts hjobs
    rw [hperform] at hgrows hsame
    have hends : w.machine.ends thread = false := by
      rw [← Bool.not_eq_true, Machine.ends_iff hjobs]
      rintro ⟨rfl, hending⟩
      rw [Job.perform_beginEnd, hending] at hperform
      cases hperform
    rw [hends, hfault]
    refine h.turned horderly hlogged hgrows rfl rfl rfl ((hsame hends).trans h.ending)
      (fun hnone => ?_) (fun _ => id) (fun t hne ht => ⟨ht, ?_⟩) ?_ fun hcloser => ?_
    · rw [isDraining_eq_false (by rw [if_neg Bool.false_ne_true] at hnone; simp [hnone])]
      exact h.fault hnone
    · rw [isDraining_eq_false fun hthis => hne (Option.some.inj (ht.symm.trans hthis))]
      rfl
    · intro next hnext halways
      have hrest := (List.mem_filter.mp hnext).1
      exact h.always thread next (by rw [hjobs]; exact List.mem_cons_of_mem _ hrest) halways
    · change w.closer = some thread at hcloser
      have hclosing := h.closing thread hcloser
      have hdraining : w.isDraining thread = (job :: rest).any Job.isAlways := by
        rw [isDraining, hcloser, hjobs, beq_self_eq_true, Bool.true_and]
      rw [hjobs] at hclosing
      rw [hdraining]
      exact hclosing.failed hperform (·.append _)

/-- Whatever happens at a moment. -/
theorem step (h : Sound parts w) (event : Event) : Sound parts (w.step parts event) := by
  cases event with
  | call thread request => exact h.call thread request
  | go thread => exact h.go thread
  | exit thread => exact h.exit thread
  | sender deliver => exact h.sender deliver
  | late thread =>
    by_cases hsending : w.isSending = true
    · simp only [Watch.step, if_pos hsending]
      simp only [isSending, Bool.and_eq_true, Bool.not_eq_true', Option.isNone_iff_eq_none]
        at hsending
      obtain ⟨⟨hfinished, hfailure⟩, haborted⟩ := hsending
      have hnever {P : Prop} (htrue : w.finished = true) : P := by
        rw [hfinished] at htrue
        cases htrue
      have hopen : Sound parts (w.withQueue true) :=
        h.withOutbox (h.flow.withQueue fun _ => .inr ⟨hfailure, haborted⟩) (List.suffix_refl _) rfl
          hnever
      have hgone := hopen.go thread
      refine hgone.withOutbox (hgone.flow.withQueue fun hboth => .inl ?_) (List.suffix_refl _) rfl
        hnever
      exact (Bool.and_eq_true_iff.mp hboth).2
    · simp only [Watch.step, if_neg hsending]
      exact h.go thread
  | finish =>
    refine { h with finished := fun hfinished => ?_ }
    rcases Bool.or_eq_true_iff.mp hfinished with hbefore | hnow
    · exact h.finished hbefore
    · obtain ⟨hshut, hempty⟩ := Bool.and_eq_true_iff.mp hnow
      have hrefuses : w.outbox.accepting = false := by simpa using hshut
      exact ⟨hrefuses, List.length_eq_zero_iff.mp
        ((Fifo.length_toList _).trans (beq_iff_eq.mp hempty))⟩
  | stop =>
    refine h.withOutbox h.flow.abort ?_ rfl fun _ => rfl
    rw [show w.outbox.abort.waiting.toList = [] from Fifo.toList_empty]
    exact List.nil_suffix
  | abandon => exact h.withOutbox (h.flow.withQueue nofun) (List.suffix_refl _) rfl fun _ => rfl

theorem run (h : Sound parts w) (events : List Event) : Sound parts (w.run parts events) := by
  induction events generalizing w with
  | nil => exact h
  | cons event events ih => exact ih (h.step event)

/-! ### The answer -/

/-- A thread that has drained the streams and met no fault has announced the end. -/
theorem announced (h : Sound parts w) (hcloser : w.closer = some thread)
    (hdrained : w.isDraining thread = false) (hfault : w.fault = none) :
    Announced w.machine.log := by
  have hclosing := h.closing thread hcloser
  have halways : ∀ job ∈ w.machine.jobs thread, job.isAlways = false := by
    simpa [isDraining, hcloser] using hdrained
  generalize w.machine.jobs thread = jobs at hclosing halways
  generalize w.fault = fault at hclosing hfault
  cases hclosing with
  | draining => exact absurd (halways .closeOutbox (by simp)) (by decide)
  | announced hclose => exact hclose
  | faulted => cases hfault
  | drained hclose => exact hclose hfault

/-- An end with success: all frames were sent, and the announcement of the end is among them. -/
theorem of_answer_ok (h : Sound parts w) (hanswer : w.answer? = some (.ok ())) :
    w.tried = w.queue.map .sent ∧ Announced w.machine.log := by
  unfold answer? at hanswer
  split at hanswer
  · cases hanswer
  next thread hcloser =>
    split at hanswer
    · cases hanswer
    next hdrained =>
      simp only [Bool.or_eq_true, not_or, Bool.not_eq_true] at hdrained
      split at hanswer
      next hend =>
        have hreport := Option.some.inj hanswer
        unfold Client.report at hreport
        split at hreport
        · cases hreport
        next hfailure =>
          change w.outbox.failure = none at hfailure
          have hfault : w.fault = none := by
            cases hfault : w.fault with
            | none => rfl
            | some e =>
              rw [hfault] at hreport
              cases hreport
          have hfinished : w.finished = true := by simpa [hfailure] using hend
          exact ⟨h.flow.all_sent hfailure hdrained.2 (h.finished hfinished).2,
            h.announced hcloser hdrained.1 hfault⟩
      · cases hanswer

/-- An end after a frame has failed tells of the failure, whatever else went wrong. -/
theorem answer_of_failed (h : Sound parts w) {a : Attempt} {cause : TransportError}
    (hmem : a ∈ w.tried) (ha : a.failure = some cause) (hcloser : w.closer = some thread)
    (hdrained : w.isDraining thread = false) (haborted : w.outbox.aborted = false) :
    w.answer? = some (.error (.transport cause)) := by
  obtain ⟨hfailure, -⟩ := h.flow.failure_eq hmem ha
  have hreport : w.machine.client.report (Client.drained w.fault) = .error (.transport cause) := by
    unfold Client.report
    rw [show w.machine.client.outbox.failure = some cause from hfailure]
  simp [answer?, hcloser, hdrained, haborted, hfailure, hreport]

end Sound

/-- **What the transport gets.** Whatever threads do, however they interrupt each other and the
sender, and however the transport answers: each frame in the queue is that of a whole message, and
the frames that are sent, which are those that runs of the sender give out, are the front part of
the queue. Nothing is handed to the transport behind a frame that failed. A failure closes the
session, and it is what the first thread that ends the session is answered as soon as it has drained
the streams, whatever faults it met itself. It is answered with success only if all frames in the
queue were sent, and the announcement of the end is one of them. An end that nobody interrupts
answers in the same way, unless the time is over. -/
theorem queue_delivered (parts : Parts) (settings : ClientSettings) (events : List Event) :
    let w := (start settings).run parts events
    (∀ d ∈ w.machine.log, d.load.message.toBytes = .ok d.frame) ∧
    (∀ deliver, (w.machine.client.runSender deliver).1 =
      Attempt.framesSent (w.outbox.attempts deliver)) ∧
    Attempt.framesSent w.tried <+: w.queue ∧
    (∀ before a behind, w.tried = before ++ a :: behind → a.failure ≠ none → behind = []) ∧
    (∀ a ∈ w.tried, ∀ cause, a.failure = some cause → w.machine.client.closed = true ∧
      w.outbox.failure = some cause ∧ ∀ thread, w.closer = some thread →
        w.isDraining thread = false → w.outbox.aborted = false →
          w.answer? = some (.error (.transport cause))) ∧
    (w.answer? = some (.ok ()) → w.tried = w.queue.map .sent ∧ Announced w.machine.log) ∧
    ∀ (c : Client) (deliver : Nat → Delivery), c.ending = false →
      let after := ((Step.final c.drain).runSender deliver).2
      (c.shutdown deliver).1 =
        if after.outbox.failure = none ∧ after.outbox.waiting.isEmpty = false then
          .error .drainTimeout
        else after.report (Client.drained (Client.fault? c.drain)) := by
  intro w
  have h : Sound parts w := (Sound.start parts settings).run events
  refine ⟨h.logged.carried, fun deliver => (Outbox.framesSent_attempts deliver w.outbox).symm,
    h.flow.sent_prefix, fun before a behind => h.flow.behind_eq_nil, fun a hmem cause ha => ?_,
    h.of_answer_ok, fun c deliver hending => Client.shutdown_eq_report hending deliver⟩
  obtain ⟨hfailure, -⟩ := h.flow.failure_eq hmem ha
  exact ⟨h.closed (by rw [hfailure]; rfl), hfailure, fun thread => h.answer_of_failed hmem ha⟩

/-- Two methods are made known, and only the first announcement is sent. A record is still held back
when the thread ends the session, so that it meets a fault of its own. -/
def failing : List Event :=
  [.call 0 (.register "X.m"), .go 0, .go 0, .call 0 (.register "X.n"), .go 0, .go 0,
    .call 0 (.dispatch 1 []), .go 0, .go 0, .go 0, .go 0,
    .sender fun sent => if sent = 0 then .sent else .failed .closed,
    .call 0 .shutdown, .go 0, .go 0, .go 0, .go 0]

theorem queue_delivered_failing :
    ((start {}).run .whole failing).queue.length = 2 ∧
      Attempt.framesSent ((start {}).run .whole failing).tried <+:
        ((start {}).run .whole failing).queue ∧
      ((start {}).run .whole failing).fault.isSome = true ∧
      ((start {}).run .whole failing).answer? = some (.error (.transport .closed)) := by
  obtain ⟨-, -, hprefix, -, hfailed, -⟩ := queue_delivered .whole {} failing
  have hfails : ((start {}).run .whole failing).tried.any (·.failure == some .closed) = true := by
    decide +kernel
  obtain ⟨a, hmem, ha⟩ := List.any_eq_true.mp hfails
  obtain ⟨-, -, hanswer⟩ := hfailed a hmem .closed (beq_iff_eq.mp ha)
  exact ⟨by decide +kernel, hprefix, by decide +kernel,
    hanswer 0 (by decide +kernel) (by decide +kernel) (by decide +kernel)⟩

end Watch

end TraceRelay
