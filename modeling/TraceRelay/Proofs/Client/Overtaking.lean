import TraceRelay.Proofs.Client.Sender
import TraceRelay.Proofs.Client.Swept

/-!
# Frees and records under way together

Frees are sent behind the records that were looked up for them, but while the streams are looked up
and sent other threads go on. A record can be accepted, and the object that it names be reported as
freed, behind the back of a flush that has already passed the stream of the record: then the free
overtakes the record. So it does a record on a stream that was taken from its thread and has not
ended yet. In no other way can a free overtake a record.

## Main definitions

* `Machine.Turn` : what can happen at a moment.
* `Machine.Orderly` : what is true between two moments.
* `Load.Before` : what may leave behind frees.

## Main results

* `Machine.Orderly.turn` : what happens at a moment leaves the threads in order.
* `Machine.frees_behind_records` : which records frees do not overtake.
-/

namespace TraceRelay

/-- What may leave behind frees: records on streams that were about to end, and records that were
accepted after the looking up had begun. -/
def Load.Before : Load → Load → Prop
  | .frees _ since leaving _, .records ref entries =>
    ref ∉ leaving → ∀ e ∈ entries, since ≤ e.moment
  | _, _ => True

/-- A freed token goes before a record that names its object and was accepted before the object was
reported as freed. -/
def Load.Overtakes : Load → Load → Prop
  | .frees _ _ _ tokens, .records _ entries =>
    ∃ f ∈ tokens, ∃ e ∈ entries, e.moment < f.moment ∧ ∃ v ∈ e.record.args, v.token? = some f.token
  | _, _ => False

namespace Machine

variable {parts : Parts} {m next : Machine} {thread t : ThreadId} {job : Job} {c : Client}

/-! ### What happens at a moment -/

/-- What happens to a client outside of calls. -/
structure Aside (m : Machine) (c : Client) : Prop where
  shift : Shift m.clock m.client m.held c m.held
  frees : c.frees = m.client.frees
  waiting : c.outbox.waiting.toList <:+ m.client.outbox.waiting.toList
  closed : m.client.closed = true → c.closed = true

/-- What can happen at a moment, but for the time that passes. -/
inductive Turn (parts : Parts) (m : Machine) : Machine → Prop
  | idle : Turn parts m m
  | called (thread : ThreadId) (request : Request) (hidle : m.jobs thread = []) : Turn parts m
      { m with jobs := Function.update m.jobs thread (request.jobs thread m.clock) }
  | done {thread : ThreadId} {job : Job} {rest more : List Job} {c : Client}
    (hjobs : m.jobs thread = job :: rest)
    (hlock : job.locks = true → ∀ other, m.holder = some other → other = thread)
    (heffect : m.Effect job true c)
    (hleaves : Job.Leaves parts thread m.clock m.client c job more) : Turn parts m
      { m.noted job true c with
        jobs := Function.update m.jobs thread (more ++ rest)
        holder := m.holderAfter thread more job }
  | failed {thread : ThreadId} {job : Job} {rest : List Job} {c : Client}
    (hjobs : m.jobs thread = job :: rest) (heffect : m.Effect job false c) : Turn parts m
      { m.noted job false c with
        jobs := Function.update m.jobs thread (rest.filter Job.isAlways)
        holder := if m.holder = some thread then none else m.holder }
  | aside {c : Client} (hc : m.Aside c) : Turn parts m { m with client := c }

/-- All that threads have to do can be done. -/
def Fit (m : Machine) : Prop := ∀ t, ∀ job ∈ m.jobs t, job.Fits m.client

/-- The sender changes nothing but the outbox, and may close the session. -/
private theorem Right.aside_sender (deliver : Nat → Delivery) :
    m.Aside (m.client.runSender deliver).2 where
  shift := .same ⟨rfl, rfl, rfl⟩
  frees := rfl
  waiting := Outbox.waiting_pump deliver m.client.outbox
  closed h := by
    change (m.client.closed || _) = true
    rw [h, Bool.true_or]

/-- A thread that is gone leaves its stream behind. -/
private theorem Right.aside_gone (h : m.Right) (thread : ThreadId) :
    m.Aside (m.client.threadGone thread) := by
  have hquiet : m.Aside m.client := ⟨.same ⟨rfl, rfl, rfl⟩, rfl, List.suffix_refl _, id⟩
  cases hstream : m.client.streamOf[thread]? with
  | none =>
    rw [Client.threadGone_of_none hstream]
    exact hquiet
  | some p =>
    rw [Client.threadGone_of_some hstream]
    have href : m.client.Has (.own p) := h.streams.placed.inRange thread p hstream
    have hholds := h.streams.holds (.own p)
    have hended := h.streams.ended (.own p)
    have hshift : Shift m.clock m.client m.held
        (m.client.setStream (.own p) { m.client.stream (.own p) with orphaned := true })
        (Function.update m.held (.own p) (m.held (.own p))) :=
      .set ⟨rfl, rfl, rfl⟩ href rfl hholds (fun e he => .inl he) id hended
    rw [Function.update_eq_self] at hshift
    exact ⟨hshift, rfl, List.suffix_refl _, id⟩

/-- **What happens at a moment.** -/
theorem Right.turn_move (h : m.Right) (hfit : m.Fit) (parts : Parts) (move : Move) :
    ∃ next, Turn parts m next ∧ m.move parts move = { next with clock := m.clock + 1 } := by
  cases move with
  | call thread request =>
    rw [Machine.move]
    by_cases hidle : (m.jobs thread).isEmpty = true
    · exact ⟨_, .called thread request (List.isEmpty_iff.1 hidle), by simp only [if_pos hidle]⟩
    · exact ⟨m, .idle, by simp only [if_neg hidle]⟩
  | exit thread =>
    rw [Machine.move]
    by_cases hidle : (m.jobs thread).isEmpty = true
    · exact ⟨_, .aside (h.aside_gone thread), by simp only [if_pos hidle]⟩
    · exact ⟨m, .idle, by simp only [if_neg hidle]⟩
  | sender deliver => exact ⟨_, .aside (Right.aside_sender deliver), rfl⟩
  | go thread =>
    change ∃ next, Turn parts m next ∧
      { m.go parts thread with clock := m.clock + 1 } = { next with clock := m.clock + 1 }
    cases hjobs : m.jobs thread with
    | nil =>
      refine ⟨m, .idle, ?_⟩
      simp only [go, hjobs]
    | cons job rest =>
      have hmem : job ∈ m.jobs thread := by
        rw [hjobs]
        exact List.mem_cons_self
      have heffect := h.effect_perform parts thread (hfit thread job hmem)
      by_cases hblocked : (job.locks && m.holder.any (· != thread)) = true
      · refine ⟨m, .idle, ?_⟩
        simp only [go, hjobs, if_pos hblocked]
      · have hlock : job.locks = true → ∀ other, m.holder = some other → other = thread := by
          intro hlocks other hother
          simpa [hlocks, hother] using hblocked
        cases hperform : job.perform parts thread m.clock m.client with
        | ok more c =>
          rw [hperform] at heffect
          refine ⟨_, .done hjobs hlock heffect (Job.leaves_perform h.streams.placed hperform), ?_⟩
          simp only [go, hjobs, if_neg hblocked, hperform]
          rfl
        | error e c =>
          rw [hperform] at heffect
          refine ⟨_, .failed hjobs heffect, ?_⟩
          simp only [go, hjobs, if_neg hblocked, hperform]
          rfl

/-! ### What is true between two moments -/

/-- What is true between two moments. -/
structure Orderly (parts : Parts) (m : Machine) : Prop extends m.Right where
  fit : m.Fit
  sorted : ∀ t, (m.jobs t).Pairwise Job.Precedes
  sinceEarlier : ∀ t, ∀ job ∈ m.jobs t, ∀ since, job.since? = some since → since < m.clock
  calledEarlier : ∀ t, ∀ job ∈ m.jobs t, ∀ n, job.called? = some n → n < m.clock
  pendingEarlier : ∀ f ∈ m.pending, f.moment < m.clock
  /-- Before frees are sent, all streams are. -/
  guarded : ∀ t, Guarded parts m.client m.held (m.jobs t)
  /-- While streams are sent because there are enough frees, no more of them are taken. -/
  locked : ∀ t, ∀ job ∈ m.jobs t, job.occasion? = some .full → m.holder = some t ∧
    ∀ since, job.since? = some since → ∀ f ∈ m.pending, f.moment ≤ since
  /-- While the session ends, only frees are taken that were reported before. -/
  ending : ∀ t, ∀ job ∈ m.jobs t, job.occasion? = some .shutdown → m.client.closed = true ∧
    ∀ since, job.since? = some since → (∀ f ∈ m.pending, f.moment ≤ since) ∧
      ∀ t' token n, Job.free token n ∈ m.jobs t' → n ≤ since

theorem mem_update {jobs : ThreadId → List Job} {left : List Job}
    (h : job ∈ Function.update jobs thread left t) :
    t = thread ∧ job ∈ left ∨ t ≠ thread ∧ job ∈ jobs t := by
  rw [Function.update_apply] at h
  split at h
  · next heq => exact .inl ⟨heq, h⟩
  · next hne => exact .inr ⟨hne, h⟩

/-- Jobs that are done after a fault are no others than ending the outbox. -/
theorem eq_closeOutbox {rest : List Job} (h : job ∈ rest.filter Job.isAlways) :
    job ∈ rest ∧ job = .closeOutbox := by
  obtain ⟨hmem, halways⟩ := List.mem_filter.1 h
  cases job with
  | closeOutbox => exact ⟨hmem, rfl⟩
  | _ => cases halways

namespace Turn

variable {h : Turn parts m next}

/-- What happens to the streams. -/
theorem shift (h : Turn parts m next) : Shift m.clock m.client m.held next.client next.held := by
  cases h with
  | idle | called => exact .same ⟨rfl, rfl, rfl⟩
  | done _ _ heffect _ | failed _ heffect => exact heffect.shift
  | aside hc => exact hc.shift

theorem closed (h : Turn parts m next) (hclosed : m.client.closed = true) :
    next.client.closed = true := by
  cases h with
  | idle | called => exact hclosed
  | done _ _ heffect _ | failed _ heffect => exact heffect.closed hclosed
  | aside hc => exact hc.closed hclosed

theorem frees (h : Turn parts m next) (hfrees : m.client.frees.Holds (m.pending.map (·.token))) :
    next.client.frees.Holds (next.pending.map (·.token)) := by
  cases h with
  | idle | called => exact hfrees
  | done _ _ heffect _ | failed _ heffect => exact heffect.frees
  | aside hc =>
    rw [hc.frees]
    exact hfrees

/-- A job was there, or it belongs to a call that was made, or it is left of another. -/
theorem mem_jobs (h : Turn parts m next) (hjob : job ∈ next.jobs t) :
    job ∈ m.jobs t ∨ (∃ request : Request, job ∈ request.jobs t m.clock) ∨
      ∃ before ∈ m.jobs t, Job.Stems t m.clock m.client next.client before job := by
  cases h with
  | idle | aside => exact .inl hjob
  | called thread request hidle =>
    rcases mem_update hjob with ⟨rfl, hnew⟩ | ⟨-, hold⟩
    · exact .inr (.inl ⟨request, hnew⟩)
    · exact .inl hold
  | done hjobs hlock heffect hleaves =>
    rcases mem_update hjob with ⟨rfl, hnew⟩ | ⟨-, hold⟩
    · rw [hjobs]
      rcases List.mem_append.1 hnew with hmore | hrest
      · exact .inr (.inr ⟨_, List.mem_cons_self, hleaves.stems hmore⟩)
      · exact .inl (List.mem_cons_of_mem _ hrest)
    · exact .inl hold
  | failed hjobs heffect =>
    rcases mem_update hjob with ⟨rfl, hnew⟩ | ⟨-, hold⟩
    · rw [hjobs]
      exact .inl (List.mem_cons_of_mem _ (eq_closeOutbox hnew).1)
    · exact .inl hold

/-- A free that is held back was so before, or a job has taken it. -/
theorem mem_pending (h : Turn parts m next) {f : Reported} (hf : f ∈ next.pending) :
    f ∈ m.pending ∨ ∃ t, Job.free f.token f.moment ∈ m.jobs t := by
  have hnoted {thread : ThreadId} {job : Job} {rest : List Job} {ok : Bool} {c : Client}
      (hjobs : m.jobs thread = job :: rest) (hf : f ∈ (m.noted job ok c).pending) :
      f ∈ m.pending ∨ ∃ t, Job.free f.token f.moment ∈ m.jobs t := by
    cases job with
    | free token n =>
      simp only [noted] at hf
      split at hf
      · rcases List.mem_append.1 hf with hold | hnew
        · exact .inl hold
        · cases List.mem_singleton.1 hnew
          refine .inr ⟨thread, ?_⟩
          rw [hjobs]
          exact List.mem_cons_self
      · exact .inl hf
    | sealFrees => cases hf
    | _ => exact .inl hf
  cases h with
  | idle | called | aside => exact .inl hf
  | @done thread job rest more c hjobs => exact hnoted (c := c) hjobs hf
  | @failed thread job rest c hjobs => exact hnoted (c := c) hjobs hf

end Turn

/-- A call that was just made has not looked anything up. -/
private theorem mem_request {request : Request} {n : Nat} (h : job ∈ request.jobs t n) :
    job.since? = none ∧ job.occasion? = none ∧ (∀ k, job.called? = some k → k = n) ∧
      ∀ token k, job ≠ .free token k := by
  cases request with
  | finish | shutdown =>
    cases List.mem_singleton.1 h
    exact ⟨rfl, rfl, nofun, nofun⟩
  | _ =>
    cases List.mem_singleton.1 h
    exact ⟨rfl, rfl, fun k hk => (Option.some.inj hk).symm, nofun⟩

theorem isRoot_of_locks (h : job.locks = true) : job.isRoot = true := by
  cases job with
  | free | sealFrees => rfl
  | _ => cases h

theorem holderAfter_of_not_locks {more : List Job} (h : job.locks = false) :
    m.holderAfter thread more job = m.holder := by
  cases job with
  | free | sealFrees => cases h
  | _ => rfl

theorem pending_of_not_locks {ok : Bool} (h : job.locks = false) :
    (m.noted job ok c).pending = m.pending := by
  cases job with
  | free | sealFrees => cases h
  | _ => rfl

theorem mem_pending_of_failed {f : Reported} (hf : f ∈ (m.noted job false c).pending) :
    f ∈ m.pending := by
  cases job with
  | sealFrees => cases hf
  | _ => exact hf

namespace Orderly

variable (h : m.Orderly parts) (hturn : Turn parts m next)

include h hturn

theorem right_turn : Right { next with clock := m.clock + 1 } where
  streams := h.streams.shift hturn.shift
  frees := hturn.frees h.frees

theorem fit_turn : next.Fit := by
  intro t job hjob
  have hkept (hold : job ∈ m.jobs t) : job.Fits next.client := (h.fit t job hold).shift hturn.shift
  cases hturn with
  | idle | aside => exact hkept hjob
  | called thread request hidle =>
    rcases mem_update hjob with ⟨rfl, hnew⟩ | ⟨-, hold⟩
    · exact Job.fits_jobs t m.clock request _ job hnew
    · exact hkept hold
  | done hjobs hlock heffect hleaves =>
    rcases mem_update hjob with ⟨rfl, hnew⟩ | ⟨-, hold⟩
    · rw [hjobs] at hkept
      rcases List.mem_append.1 hnew with hmore | hrest
      · have hfits := h.fit t _ (hjobs ▸ List.mem_cons_self)
        exact hleaves.fits h.streams.placed hfits job hmore
      · exact hkept (List.mem_cons_of_mem _ hrest)
    · exact hkept hold
  | failed hjobs heffect =>
    rcases mem_update hjob with ⟨rfl, hnew⟩ | ⟨-, hold⟩
    · rw [hjobs] at hkept
      exact hkept (List.mem_cons_of_mem _ (eq_closeOutbox hnew).1)
    · exact hkept hold

theorem sorted_turn (t : ThreadId) : (next.jobs t).Pairwise Job.Precedes := by
  have hkept := h.sorted t
  cases hturn with
  | idle | aside => exact hkept
  | called thread request hidle =>
    simp only [Function.update_apply]
    split
    · exact Job.pairwise_jobs thread m.clock request
    · exact hkept
  | done hjobs hlock heffect hleaves =>
    simp only [Function.update_apply]
    split
    · next heq =>
      rw [heq, hjobs] at hkept
      exact hleaves.pairwise hkept
    · exact hkept
  | failed hjobs heffect =>
    simp only [Function.update_apply]
    split
    · next heq =>
      rw [heq, hjobs] at hkept
      exact (List.pairwise_cons.1 hkept).2.filter _
    · exact hkept

theorem sinceEarlier_turn (t : ThreadId) (job : Job) (hjob : job ∈ next.jobs t) (since : Nat)
    (hsince : job.since? = some since) : since < m.clock + 1 := by
  rcases hturn.mem_jobs hjob with hold | ⟨request, hnew⟩ | ⟨before, hbefore, hstems⟩
  · exact Nat.lt_succ_of_lt (h.sinceEarlier t job hold since hsince)
  · cases (mem_request hnew).1.symm.trans hsince
  · rcases hstems.since_eq hsince with hold | ⟨-, rfl⟩
    · exact Nat.lt_succ_of_lt (h.sinceEarlier t before hbefore since hold)
    · exact Nat.lt_succ_self _

theorem calledEarlier_turn (t : ThreadId) (job : Job) (hjob : job ∈ next.jobs t) (n : Nat)
    (hn : job.called? = some n) : n < m.clock + 1 := by
  rcases hturn.mem_jobs hjob with hold | ⟨request, hnew⟩ | ⟨before, hbefore, hstems⟩
  · exact Nat.lt_succ_of_lt (h.calledEarlier t job hold n hn)
  · exact Nat.lt_succ_of_le (Nat.le_of_eq ((mem_request hnew).2.2.1 n hn))
  · exact Nat.lt_succ_of_lt (h.calledEarlier t before hbefore n (hstems.called_eq hn))

theorem pendingEarlier_turn (f : Reported) (hf : f ∈ next.pending) : f.moment < m.clock + 1 := by
  rcases hturn.mem_pending hf with hold | ⟨t, hfree⟩
  · exact Nat.lt_succ_of_lt (h.pendingEarlier f hold)
  · exact Nat.lt_succ_of_lt (h.calledEarlier t _ hfree f.moment rfl)

theorem guarded_turn (t : ThreadId) : Guarded parts next.client next.held (next.jobs t) := by
  have hafter := h.streams.shift hturn.shift
  have hearlier (t : ThreadId) : ∀ job ∈ m.jobs t, ∀ since, job.since? = some since →
      since ≤ m.clock :=
    fun job hjob since hsince => Nat.le_of_lt (h.sinceEarlier t job hjob since hsince)
  have hkept : Guarded parts next.client next.held (m.jobs t) :=
    (h.guarded t).shift h.streams.placed hafter hturn.shift (hearlier t)
  have hshift := hturn.shift
  cases hturn with
  | idle | aside => exact hkept
  | called thread request hidle =>
    simp only [Function.update_apply]
    split
    · intro job hjob since hsince
      cases (mem_request hjob).1.symm.trans hsince
    · exact hkept
  | @done thread job rest more c hjobs hlock heffect hleaves =>
    simp only [Function.update_apply]
    split
    · next heq =>
      have hguarded := h.guarded thread
      have hbefore := hearlier thread
      rw [hjobs] at hguarded hbefore
      have hfits := h.fit thread job (hjobs ▸ List.mem_cons_self)
      exact hguarded.step hbefore h.streams hafter hshift hfits hleaves
    · exact hkept
  | failed hjobs heffect =>
    simp only [Function.update_apply]
    split
    · intro job hjob since hsince
      cases (eq_closeOutbox hjob).2
      cases hsince
    · exact hkept

theorem ending_turn (t : ThreadId) (job : Job) (hjob : job ∈ next.jobs t)
    (hoccasion : job.occasion? = some .shutdown) : next.client.closed = true ∧
      ∀ since, job.since? = some since → (∀ f ∈ next.pending, f.moment ≤ since) ∧
        ∀ t' token n, Job.free token n ∈ next.jobs t' → n ≤ since := by
  -- Frees that are taken from now on were reported before all of them were.
  have hlate {since : Nat} (hclosed : m.client.closed = true)
      (hpending : ∀ f ∈ m.pending, f.moment ≤ since)
      (hfrees : ∀ t' token n, Job.free token n ∈ m.jobs t' → n ≤ since) :
      (∀ f ∈ next.pending, f.moment ≤ since) ∧
        ∀ t' token n, Job.free token n ∈ next.jobs t' → n ≤ since := by
    refine ⟨fun f hf => ?_, fun t' token n hfree => ?_⟩
    · rcases hturn.mem_pending hf with hold | ⟨t', hfree⟩
      · exact hpending f hold
      · exact hfrees t' _ _ hfree
    · rcases hturn.mem_jobs hfree with hold | ⟨request, hnew⟩ | ⟨before, -, hstems⟩
      · exact hfrees t' token n hold
      · exact absurd rfl ((mem_request hnew).2.2.2 token n)
      · cases hclosed.symm.trans (hstems.opened rfl)
  rcases hturn.mem_jobs hjob with hold | ⟨request, hnew⟩ | ⟨before, hbefore, hstems⟩
  · obtain ⟨hclosed, hsince⟩ := h.ending t job hold hoccasion
    refine ⟨hturn.closed hclosed, fun since hs => ?_⟩
    exact hlate hclosed (hsince since hs).1 (hsince since hs).2
  · cases (mem_request hnew).2.1.symm.trans hoccasion
  · rcases hstems.shutdown_eq hoccasion with hshutdown | ⟨hclosed, rfl⟩
    · obtain ⟨hclosed, hsince⟩ := h.ending t before hbefore hshutdown
      refine ⟨hturn.closed hclosed, fun since hs => ?_⟩
      rcases hstems.since_eq hs with hold | ⟨-, rfl⟩
      · exact hlate hclosed (hsince since hold).1 (hsince since hold).2
      · exact hlate hclosed (fun f hf => Nat.le_of_lt (h.pendingEarlier f hf))
          fun t' token n hfree => Nat.le_of_lt (h.calledEarlier t' _ hfree n rfl)
    · exact ⟨hclosed, nofun⟩

theorem locked_turn (t : ThreadId) (job : Job) (hjob : job ∈ next.jobs t)
    (hoccasion : job.occasion? = some .full) : next.holder = some t ∧
      ∀ since, job.since? = some since → ∀ f ∈ next.pending, f.moment ≤ since := by
  cases hturn with
  | idle | aside => exact h.locked t job hjob hoccasion
  | called thread request hidle =>
    rcases mem_update hjob with ⟨rfl, hnew⟩ | ⟨-, hold⟩
    · cases (mem_request hnew).2.1.symm.trans hoccasion
    · exact h.locked t job hold hoccasion
  | @failed thread before rest c hjobs heffect =>
    rcases mem_update hjob with ⟨rfl, hnew⟩ | ⟨hne, hold⟩
    · cases (eq_closeOutbox hnew).2
      cases hoccasion
    · obtain ⟨hholder, hsince⟩ := h.locked t job hold hoccasion
      refine ⟨?_, fun since hs f hf => hsince since hs f (mem_pending_of_failed (c := c) hf)⟩
      change (if m.holder = some thread then none else m.holder) = some t
      rw [hholder, if_neg fun heq => hne (Option.some.inj heq)]
  | @done thread before rest more c hjobs hlock heffect hleaves =>
    have hmem : before ∈ m.jobs thread := hjobs ▸ List.mem_cons_self
    cases hlocks : before.locks with
    | false =>
      -- Nothing happens to the frees.
      change m.holderAfter thread more before = some t ∧
        ∀ since, job.since? = some since → ∀ f ∈ (m.noted before true c).pending, f.moment ≤ since
      rw [holderAfter_of_not_locks hlocks, pending_of_not_locks hlocks]
      rcases mem_update hjob with ⟨rfl, hnew⟩ | ⟨-, hold⟩
      · rcases List.mem_append.1 hnew with hmore | hrest
        · rcases (hleaves.stems hmore).full_eq hoccasion with hfull | ⟨token, n, rfl⟩
          · obtain ⟨hholder, hsince⟩ := h.locked t before hmem hfull
            refine ⟨hholder, fun since hs => ?_⟩
            rcases (hleaves.stems hmore).since_eq hs with hold | ⟨-, rfl⟩
            · exact hsince since hold
            · exact fun f hf => Nat.le_of_lt (h.pendingEarlier f hf)
          · cases hlocks
        · exact h.locked t job (hjobs ▸ List.mem_cons_of_mem _ hrest) hoccasion
      · exact h.locked t job hold hoccasion
    | true =>
      rcases mem_update hjob with ⟨rfl, hnew⟩ | ⟨hne, hold⟩
      · rcases List.mem_append.1 hnew with hmore | hrest
        · cases hleaves with
          | full token n =>
            cases List.mem_singleton.1 hmore
            exact ⟨rfl, nofun⟩
          | freed | sentFrees => cases hmore
          | _ => cases hlocks
        · -- Behind a job that takes or sends frees, there are only those that end the session.
          have hsorted := h.sorted t
          rw [hjobs] at hsorted
          have htail := (List.pairwise_cons.1 hsorted).1 job hrest (isRoot_of_locks hlocks)
          cases (Job.none_of_tail htail).symm.trans hoccasion
      · exact absurd (hlock hlocks t (h.locked t job hold hoccasion).1) hne

/-- **What happens at a moment leaves the threads in order.** -/
theorem turn : Orderly parts { next with clock := m.clock + 1 } where
  toRight := h.right_turn hturn
  fit t job := h.fit_turn hturn t job
  sorted t := h.sorted_turn hturn t
  sinceEarlier t job := h.sinceEarlier_turn hturn t job
  calledEarlier t job := h.calledEarlier_turn hturn t job
  pendingEarlier f := h.pendingEarlier_turn hturn f
  guarded t := h.guarded_turn hturn t
  locked t job := h.locked_turn hturn t job
  ending t job := h.ending_turn hturn t job

end Orderly

/-! ### What went to the outbox -/

/-- What is true of the frames that went to the outbox. -/
structure Logged (m : Machine) : Prop where
  waiting : m.client.outbox.waiting.toList <:+ m.log.map (·.frame)
  carried : ∀ d ∈ m.log, d.load.message.toBytes = .ok d.frame
  told : ∀ d ∈ m.log, ∀ message, d.load = .told message → message.isTold = true
  reported : ∀ d ∈ m.log, ∀ occasion since leaving tokens,
    d.load = .frees occasion since leaving tokens → since < m.clock ∧
      (occasion ≠ .flush → ∀ f ∈ tokens, f.moment ≤ since) ∧
      ∀ ref, ref ∉ leaving → ∀ e ∈ m.held ref, since ≤ e.moment
  behind : m.log.Pairwise fun d d' => d.load.Before d'.load

/-- What went to the outbox until the next moment, and what waits there then. -/
inductive Posts (m : Machine) : List Departure → List Bytes → Prop
  | nothing {waiting : List Bytes} (h : waiting <:+ m.client.outbox.waiting.toList) :
    Posts m m.log waiting
  | frame {thread : ThreadId} {job : Job} {rest : List Job} {ok : Bool} {frame : Bytes}
    (hjobs : m.jobs thread = job :: rest)
    (hframe : (m.load ok job).message.toBytes = .ok frame) :
    Posts m (m.log ++ [⟨frame, m.load ok job⟩]) (m.client.outbox.waiting.toList ++ [frame])

/-- Nothing goes to the outbox, or the frame of a job does. -/
theorem Turn.posts (h : Turn parts m next) :
    m.Posts next.log next.client.outbox.waiting.toList := by
  have hnoted {thread : ThreadId} {job : Job} {rest : List Job} {ok : Bool} {c : Client}
      (hjobs : m.jobs thread = job :: rest) (heffect : m.Effect job ok c) :
      m.Posts (m.noted job ok c).log c.outbox.waiting.toList := by
    obtain ⟨frame, hwaiting, hframe⟩ := heffect.frames
    simp only [noted, hwaiting, List.drop_left]
    cases frame with
    | none =>
      simp only [Option.toList_none, List.map_nil, List.append_nil]
      exact .nothing (List.suffix_refl _)
    | some bs => exact .frame hjobs (hframe bs rfl)
  cases h with
  | idle | called => exact .nothing (List.suffix_refl _)
  | aside hc => exact .nothing hc.waiting
  | done hjobs hlock heffect hleaves => exact hnoted hjobs heffect
  | failed hjobs heffect => exact hnoted hjobs heffect

/-- The records of a frame were held back, or one of them was taken just now. -/
private theorem mem_of_load {ok : Bool} {ref : StreamRef} {entries : List Accepted}
    (h : m.load ok job = .records ref entries) {e : Accepted} (he : e ∈ entries) :
    e ∈ m.held ref ∨ e.moment = m.clock := by
  have hpage : m.page? ok job = some (ref, entries) := by
    unfold load at h
    split at h
    · next hpage =>
      cases h
      exact hpage
    all_goals cases h
  cases job with
  | append ref' b r =>
    cases hpage
    rcases List.mem_append.1 he with hold | hnew
    · exact .inl hold
    · rw [taken] at hnew
      split at hnew
      · exact .inr (congrArg Accepted.moment (List.mem_singleton.1 hnew))
      · cases hnew
  | visit | «seal» | close =>
    cases hpage
    exact .inl he
  | _ => cases hpage

/-- Only the jobs that send frees do so. -/
private theorem eq_of_load_frees {ok : Bool} {occasion : Occasion} {since : Nat}
    {leaving : List StreamRef} {tokens : List Reported}
    (h : m.load ok job = .frees occasion since leaving tokens) :
    job = .sealFrees occasion since ∧ leaving = m.client.leaving ∧ tokens = m.pending := by
  cases job with
  | sealFrees =>
    cases h
    exact ⟨rfl, rfl, rfl⟩
  | _ => cases h

private theorem isTold_of_load {ok : Bool} {message : Message} (hfits : job.Fits c)
    (h : m.load ok job = .told message) : message.isTold = true := by
  cases job with
  | post =>
    cases h
    exact hfits
  | append | visit | «seal» | close | sealFrees => cases h
  | _ =>
    cases h
    rfl

private theorem not_covers_of_tail {other : Job} (h : other.isTail = true) (ref : StreamRef) :
    ¬ other.Covers parts c ref := by
  cases other with
  | post | closeOutbox => exact id
  | _ => cases h

/-- When frees are sent, what is held back was accepted after the looking up had begun. -/
private theorem Orderly.reported (h : m.Orderly parts) {rest : List Job} {occasion : Occasion}
    {since : Nat} (hjobs : m.jobs thread = .sealFrees occasion since :: rest) :
    since < m.clock ∧ (occasion ≠ .flush → ∀ f ∈ m.pending, f.moment ≤ since) ∧
      ∀ ref, ref ∉ m.client.leaving → ∀ e ∈ m.held ref, since ≤ e.moment := by
  have hmem : Job.sealFrees occasion since ∈ m.jobs thread := hjobs ▸ List.mem_cons_self
  refine ⟨h.sinceEarlier thread _ hmem since rfl, fun hoccasion => ?_, fun ref hstays => ?_⟩
  · cases occasion with
    | full => exact (h.locked thread _ hmem rfl).2 since rfl
    | flush => exact absurd rfl hoccasion
    | shutdown => exact ((h.ending thread _ hmem rfl).2 since rfl).1
  · have hguarded := h.guarded thread
    have hsorted := h.sorted thread
    rw [hjobs] at hguarded hsorted
    have hrest : ∀ other ∈ rest, ∀ ref, ¬ other.Covers parts m.client ref := fun other hother =>
      not_covers_of_tail ((List.pairwise_cons.1 hsorted).1 other hother rfl)
    exact (hguarded.settled hrest ref).resolve_left hstays

/-- **What happens at a moment leaves the frames in order.** -/
theorem Logged.turn (hlogged : m.Logged) (h : m.Orderly parts) (hturn : Turn parts m next) :
    Logged { next with clock := m.clock + 1 } := by
  -- What is held back after frees was accepted late enough, and is so at the next moment.
  have hkept {since : Nat} {leaving : List StreamRef} (hsince : since < m.clock)
      (hheld : ∀ ref, ref ∉ leaving → ∀ e ∈ m.held ref, since ≤ e.moment) (ref : StreamRef)
      (href : ref ∉ leaving) (e : Accepted) (he : e ∈ next.held ref) : since ≤ e.moment := by
    rcases hturn.shift.entries he with hold | hnow
    · exact hheld ref href e hold
    · rw [hnow]
      exact Nat.le_of_lt hsince
  have hposts := hturn.posts
  generalize hlog : next.log = log at hposts
  generalize hwaiting : next.client.outbox.waiting.toList = waiting at hposts
  cases hposts with
  | nothing hback =>
    exact {
      waiting := by
        change next.client.outbox.waiting.toList <:+ _
        rw [hwaiting]
        exact hback.trans hlogged.waiting
      carried := hlogged.carried
      told := hlogged.told
      reported := fun d hd occasion since leaving tokens hload => by
        obtain ⟨hsince, htokens, hheld⟩ := hlogged.reported d hd occasion since leaving tokens hload
        exact ⟨Nat.lt_succ_of_lt hsince, htokens, hkept hsince hheld⟩
      behind := hlogged.behind }
  | @frame thread job rest ok frame hjobs hframe =>
    have hfits : job.Fits m.client := h.fit thread job (hjobs ▸ List.mem_cons_self)
    exact {
      waiting := by
        change next.client.outbox.waiting.toList <:+ _
        rw [hwaiting, List.map_append]
        obtain ⟨front, hfront⟩ := hlogged.waiting
        refine ⟨front, ?_⟩
        rw [← List.append_assoc, hfront]
        rfl
      carried := List.forall_mem_append.2 ⟨hlogged.carried, List.forall_mem_singleton.2 hframe⟩
      told := List.forall_mem_append.2 ⟨hlogged.told, List.forall_mem_singleton.2 fun message =>
        isTold_of_load hfits⟩
      reported := by
        refine List.forall_mem_append.2 ⟨fun d hd => ?_, List.forall_mem_singleton.2 ?_⟩
        · intro occasion since leaving tokens hload
          obtain ⟨hsince, htokens, hheld⟩ :=
            hlogged.reported d hd occasion since leaving tokens hload
          exact ⟨Nat.lt_succ_of_lt hsince, htokens, hkept hsince hheld⟩
        · intro occasion since leaving tokens hload
          obtain ⟨rfl, rfl, rfl⟩ := eq_of_load_frees hload
          obtain ⟨hsince, htokens, hheld⟩ := h.reported hjobs
          exact ⟨Nat.lt_succ_of_lt hsince, htokens, hkept hsince hheld⟩
      behind := by
        refine List.pairwise_append.2 ⟨hlogged.behind, List.pairwise_singleton _ _, ?_⟩
        intro d hd d' hd'
        cases List.mem_singleton.1 hd'
        cases hload : d.load with
        | frees occasion since leaving tokens =>
          obtain ⟨hsince, -, hheld⟩ := hlogged.reported d hd occasion since leaving tokens hload
          cases hnew : m.load ok job with
          | records ref entries =>
            intro href e he
            rcases mem_of_load hnew he with hold | hnow
            · exact hheld ref href e hold
            · rw [hnow]
              exact Nat.le_of_lt hsince
          | _ => trivial
        | _ => trivial }

/-! ### All moments -/

/-- Before the first call everything is in order. -/
theorem orderly_start (parts : Parts) (settings : ClientSettings) :
    (start settings).Orderly parts := by
  have hshared := Client.stream_start settings
  exact {
    streams := {
      placed := Client.placed_start settings
      ordering := fun ref href => by
        cases ref with
        | shared i => exact congrArg RecordStream.ordering (hshared i)
        | own p => exact absurd href (Nat.not_lt_zero p)
      holds := fun ref => by
        cases ref with
        | shared i =>
          change RecordStream.Holds (({ settings } : Client).stream (.shared i)) []
          rw [hshared]
          rfl
        | own p => rfl
      ended := fun ref hclosed => rfl
      earlier := fun ref e he => absurd he List.not_mem_nil }
    frees := FreeBatch.holds_empty
    fit := fun t job hjob => absurd hjob List.not_mem_nil
    sorted := fun t => .nil
    sinceEarlier := fun t job hjob => absurd hjob List.not_mem_nil
    calledEarlier := fun t job hjob => absurd hjob List.not_mem_nil
    pendingEarlier := fun f hf => absurd hf List.not_mem_nil
    guarded := fun t job hjob => absurd hjob List.not_mem_nil
    locked := fun t job hjob => absurd hjob List.not_mem_nil
    ending := fun t job hjob => absurd hjob List.not_mem_nil }

theorem logged_start (settings : ClientSettings) : (start settings).Logged where
  waiting := List.suffix_refl _
  carried _ hd := absurd hd List.not_mem_nil
  told _ hd := absurd hd List.not_mem_nil
  reported _ hd := absurd hd List.not_mem_nil
  behind := .nil

/-- Whatever happens, in whatever order, threads and frames stay in order. -/
theorem orderly_play (parts : Parts) (settings : ClientSettings) (moves : List Move) :
    ((start settings).play parts moves).Orderly parts ∧
      ((start settings).play parts moves).Logged := by
  suffices h : ∀ m : Machine, m.Orderly parts → m.Logged →
      (m.play parts moves).Orderly parts ∧ (m.play parts moves).Logged from
    h _ (orderly_start parts settings) (logged_start settings)
  induction moves with
  | nil => exact fun m h hlogged => ⟨h, hlogged⟩
  | cons move moves ih =>
    intro m h hlogged
    obtain ⟨next, hturn, hmove⟩ := h.toRight.turn_move h.fit parts move
    rw [play, List.foldl_cons, hmove]
    exact ih _ (h.turn hturn) (hlogged.turn h hturn)

/-- **Which records frees do not overtake.** Whatever threads do, and however they interrupt each
other: the frames that went to the outbox carry what is written down of them. Behind frees, the only
records that were accepted before one of these objects was reported as freed are such as are on a
stream that had been taken from its thread and was about to end, or the object was reported after
the streams had begun to be looked up. The latter happens only when a flush was asked for. -/
theorem frees_behind_records (parts : Parts) (settings : ClientSettings) (moves : List Move) :
    let m := (start settings).play parts moves
    m.client.outbox.waiting.toList <:+ m.log.map (·.frame) ∧
    (∀ d ∈ m.log, d.load.message.toBytes = .ok d.frame) ∧
    (∀ d ∈ m.log, ∀ message, d.load = .told message → message.isTold = true) ∧
    ∀ before frame occasion since leaving tokens behind,
      m.log = before ++ ⟨frame, .frees occasion since leaving tokens⟩ :: behind →
      (occasion ≠ .flush → ∀ f ∈ tokens, f.moment ≤ since) ∧
      ∀ d ∈ behind, ∀ ref entries, d.load = .records ref entries → ref ∉ leaving →
        ∀ f ∈ tokens, f.moment ≤ since → ∀ e ∈ entries, f.moment ≤ e.moment := by
  obtain ⟨-, hlogged⟩ := orderly_play parts settings moves
  refine ⟨hlogged.waiting, hlogged.carried, hlogged.told, ?_⟩
  intro before frame occasion since leaving tokens behind hlog
  have hreported := hlogged.reported
  have hbehind := hlogged.behind
  rw [hlog] at hreported hbehind
  obtain ⟨-, htokens, -⟩ := hreported _ (List.mem_append_right _ List.mem_cons_self) _ _ _ _ rfl
  refine ⟨htokens, fun d hd ref entries hload href f _ hmoment e he => ?_⟩
  have hbefore := (List.pairwise_cons.1 (List.pairwise_append.1 hbehind).2.1).1 d hd
  rw [hload] at hbefore
  exact Nat.le_trans hmoment (hbefore href e he)

/-! ### Shared streams that nobody uses -/

/-- A shared stream that holds nothing is sent in one moment, in which nothing else happens. -/
private theorem move_of_sharedIdle (parts : Parts) {thread : ThreadId} {i : UInt8} {rest : List Job}
    (hidle : m.client.SharedIdle) (hheld : m.held (.shared i) = [])
    (hjobs : m.jobs thread = .seal (.shared i) :: rest) :
    m.move parts (.go thread) =
      { m with jobs := Function.update m.jobs thread rest, clock := m.clock + 1 } := by
  have hperform : (Job.seal (.shared i)).perform parts thread m.clock m.client =
      .ok [] m.client := by
    rw [Job.perform, Step.bind_of_ok (hidle.sealStream i)]
    rfl
  have hnoted : m.noted (.seal (.shared i)) true m.client = m := by
    have hupdate : Function.update m.held (.shared i) [] = m.held := by
      rw [← hheld, Function.update_eq_self]
    simp only [noted, page?, hidle.batch_stream, Option.isNone_none, if_true, hupdate,
      List.drop_length, List.map_nil, List.append_nil]
  have hgo : m.go parts thread = { m with jobs := Function.update m.jobs thread rest } := by
    rw [go, hjobs]
    simp only [Job.locks, Bool.false_and, Bool.false_eq_true, if_false, hperform, hnoted,
      List.nil_append, holderAfter]
  rw [move]
  simp only [hgo]

private theorem play_seals_of_sharedIdle (parts : Parts) {thread : ThreadId} (is : List Nat)
    {rest : List Job} (hidle : m.client.SharedIdle) (hheld : ∀ i, m.held (.shared i) = [])
    (hjobs : m.jobs thread = is.map (fun i => .seal (.shared (.ofNat i))) ++ rest) :
    m.play parts (List.replicate is.length (.go thread)) =
      { m with jobs := Function.update m.jobs thread rest, clock := m.clock + is.length } := by
  induction is generalizing m with
  | nil =>
    have hsame : Function.update m.jobs thread rest = m.jobs := by
      rw [← List.nil_append rest, ← List.map_nil, ← hjobs]
      exact Function.update_eq_self ..
    rw [hsame]
    rfl
  | cons i is ih =>
    have hfirst := move_of_sharedIdle parts hidle (hheld _) hjobs
    rw [List.length_cons, List.replicate_succ, play, List.foldl_cons, hfirst]
    refine (ih (m := { m with jobs := Function.update m.jobs thread _, clock := m.clock + 1 })
      hidle hheld (Function.update_self ..)).trans ?_
    simp only [Function.update_idem, Nat.add_assoc, Nat.add_comm 1]

/-- Where nobody uses the shared streams, a thread that is to send all of them passes over them. -/
private theorem play_of_sharedIdle (parts : Parts) {thread : ThreadId} {rest : List Job}
    (hidle : m.client.SharedIdle) (hheld : ∀ i, m.held (.shared i) = [])
    (hjobs : m.jobs thread = Client.sharedRefs.map .seal ++ rest) :
    m.play parts (List.replicate Message.sharedOrderings (.go thread)) = { m with
      jobs := Function.update m.jobs thread rest
      clock := m.clock + Message.sharedOrderings } := by
  have hplay := play_seals_of_sharedIdle parts (List.range Message.sharedOrderings) hidle hheld
    (by rw [hjobs, Client.sharedRefs, List.map_map]; rfl)
  rwa [List.length_range] at hplay

private theorem play_append (parts : Parts) (m : Machine) (moves moves' : List Move) :
    m.play parts (moves ++ moves') = (m.play parts moves).play parts moves' :=
  List.foldl_append

/-! ### Frees that overtake records -/

/-- A flush that is under way while other threads go on. The stream of thread 2 was taken from it
before the flush, but has not ended; its record names object 6, which thread 1 reports as freed.
Thread 1 gets a stream when the flush has looked them up; its record names object 5, which it
reports as freed. -/
def flushUnderWay : List Move :=
  List.flatten [
    [.call 0 (.register "X.m"), .go 0, .go 0],
    [.call 2 (.dispatch 1 [.object ⟨6⟩]), .go 2, .go 2, .go 2, .go 2],
    [.call 2 .threadEnd, .go 2, .go 2],
    [.call 1 (.objectFreed ⟨6⟩), .go 1, .go 1],
    [.call 0 .flush, .go 0, .go 0],
    [.call 1 (.dispatch 1 [.object ⟨5⟩]), .go 1, .go 1, .go 1, .go 1],
    [.call 1 (.objectFreed ⟨5⟩), .go 1, .go 1],
    List.replicate (Message.sharedOrderings + 1) (.go 0),
    [.go 2, .go 2],
    [.call 1 .threadEnd, .go 1, .go 1, .go 1, .go 1]]

/-- The frame of the frees, among which is object 5 because it was reported meanwhile. -/
def freesUnderWay : Departure :=
  ⟨[2, 20, 0, 0, 0, 2, 0, 0, 0, 6, 0, 0, 0, 0, 0, 0, 0, 5, 0, 0, 0, 0, 0, 0, 0],
    .frees .flush 16 [.own 0] [⟨⟨6⟩, 11⟩, ⟨⟨5⟩, 22⟩]⟩

/-- The frames behind the frees. -/
def behindUnderWay : List Departure :=
  [⟨[1, 24, 0, 0, 0, 0, 1, 0, 0, 0, 0, 0, 0, 1, 0, 0, 0, 1, 0, 1, 32, 6, 0, 0, 0, 0, 0, 0, 0],
      .records (.own 0) [⟨⟨1, [.object ⟨6⟩]⟩, 7⟩]⟩,
    ⟨[7, 8, 0, 0, 0, 0, 1, 0, 0, 0, 0, 0, 0], .told (.threadEnd 256)⟩,
    ⟨[1, 24, 0, 0, 0, 1, 1, 0, 0, 0, 0, 0, 0, 1, 0, 0, 0, 1, 0, 1, 32, 5, 0, 0, 0, 0, 0, 0, 0],
      .records (.own 1) [⟨⟨1, [.object ⟨5⟩]⟩, 21⟩]⟩,
    ⟨[7, 8, 0, 0, 0, 1, 1, 0, 0, 0, 0, 0, 0], .told (.threadEnd 257)⟩]

/-- Until the flush comes to the shared streams, to pass over them, and from then on. -/
private theorem flushUnderWay_split : flushUnderWay = flushUnderWay.take 25 ++
    (List.replicate Message.sharedOrderings (.go 0) ++
      [.go 0, .go 2, .go 2, .call 1 .threadEnd, .go 1, .go 1, .go 1, .go 1]) := by
  have hdrop : flushUnderWay.drop 25 = List.replicate (Message.sharedOrderings + 1) (.go 0) ++
      [.go 2, .go 2, .call 1 .threadEnd, .go 1, .go 1, .go 1, .go 1] := rfl
  rw [List.replicate_succ', List.append_assoc] at hdrop
  exact (List.take_append_drop 25 flushUnderWay).symm.trans (congrArg (_ ++ ·) hdrop)

private theorem jobs_flushUnderWay : ((start {}).play .whole (flushUnderWay.take 25)).jobs 0 =
    Client.sharedRefs.map .seal ++ [.sealFrees .flush 16] := by
  have hjobs : ((start {}).play .whole (flushUnderWay.take 25)).jobs 0 =
      (Job.visits [] .flush ++ [.sealFrees .flush 16]) ++ [] := rfl
  rw [hjobs, List.append_nil]
  rfl

private theorem held_flushUnderWay (i : UInt8) :
    ((start {}).play .whole (flushUnderWay.take 25)).held (.shared i) = [] := rfl

private theorem sharedIdle_flushUnderWay :
    ((start {}).play .whole (flushUnderWay.take 25)).client.SharedIdle := by
  have hshared : ((start {}).play .whole (flushUnderWay.take 25)).client.shared =
      (start {}).client.shared := rfl
  rw [Client.SharedIdle, hshared]
  exact Client.sharedIdle_start {}

private theorem log_flushUnderWay : ((start {}).play .whole flushUnderWay).log =
    [⟨[3, 10, 0, 0, 0, 1, 0, 16, 3, 0, 0, 0, 88, 46, 109], .told (.registerMethod 1 "X.m")⟩] ++
      freesUnderWay :: behindUnderWay := by
  rw [flushUnderWay_split, play_append, play_append,
    play_of_sharedIdle .whole sharedIdle_flushUnderWay held_flushUnderWay jobs_flushUnderWay]
  decide +kernel

/-- Object 6 was reported as freed before the flush looked up the streams, so it does not overtake
the record on the stream that thread 1 got later. -/
theorem frees_behind_records_flushUnderWay :
    ((start {}).play .whole flushUnderWay).log =
      [⟨[3, 10, 0, 0, 0, 1, 0, 16, 3, 0, 0, 0, 88, 46, 109], .told (.registerMethod 1 "X.m")⟩] ++
        freesUnderWay :: behindUnderWay ∧ 11 ≤ 21 := by
  refine ⟨log_flushUnderWay, ?_⟩
  obtain ⟨-, -, -, hfrees⟩ := frees_behind_records .whole {} flushUnderWay
  obtain ⟨-, hbehind⟩ := hfrees _ _ _ _ _ _ _ log_flushUnderWay
  refine hbehind _ (List.mem_cons_of_mem _ (List.mem_cons_of_mem _ List.mem_cons_self)) (.own 1) _
    rfl ?_ ⟨⟨6⟩, 11⟩ List.mem_cons_self ?_ ⟨⟨1, [.object ⟨5⟩]⟩, 21⟩ List.mem_cons_self
  · decide
  · decide

/-- **Frees overtake records** while other threads go on. -/
theorem frees_overtake_records : ¬ ((start {}).play .whole flushUnderWay).log.Pairwise
    fun d d' => ¬ d.load.Overtakes d'.load := by
  intro h
  rw [log_flushUnderWay] at h
  have hbehind := (List.pairwise_cons.1 (List.pairwise_append.1 h).2.1).1
  -- Thread 1 had its record accepted before it reported object 5 as freed.
  refine hbehind _ (List.mem_cons_of_mem _ (List.mem_cons_of_mem _ List.mem_cons_self)) ?_
  exact ⟨⟨⟨5⟩, 22⟩, List.mem_cons_of_mem _ List.mem_cons_self, _, List.mem_cons_self, by decide,
    .object ⟨5⟩, List.mem_cons_self, rfl⟩

end Machine

end TraceRelay
