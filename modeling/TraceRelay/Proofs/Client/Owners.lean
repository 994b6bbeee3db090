import TraceRelay.Proofs.Client.Chronicle

/-!
# Streams and their threads

A thread gets a stream with its first record, and a new one with its first record after it gave up
the one before. So each stream is one of a single thread, and so are the records that go to it.

## Main definitions

* `Run.Had` : streams that threads had.

## Main results

* `Run.Had.unique`, `Run.Emitted.had` : a stream is one of a single thread, and so are its records.
* `Run.fresh_turns` : a thread without a stream gets a new one.
* `Run.accepting_after`, `Run.streamOf_threadEnd` : sessions that are open, and threads that end.
-/

namespace TraceRelay

/-- A sender that does not fail leaves the outbox open. -/
theorem Outbox.accepting_pump {deliver : Nat → Delivery} {o : Outbox}
    (h : (o.pump deliver).2.failure = none) : (o.pump deliver).2.accepting = o.accepting := by
  unfold pump at h ⊢
  dsimp only at h ⊢
  split at h
  · cases hfailure : o.failure <;> rw [hfailure] at h <;> cases h
  · rfl

namespace Run

variable {r : Run} {settings : ClientSettings} {ts : List Turn} {thread other : ThreadId} {p : Nat}

/-! ### Streams that threads had -/

/-- A thread had a stream, at some time. -/
def Had (settings : ClientSettings) (ts : List Turn) (thread : ThreadId) (p : Nat) : Prop :=
  ∃ earlier, earlier <+: ts ∧ (after settings earlier).client.streamOf[thread]? = some p

/-- What is known of the threads and streams of a session lasts, whatever happens. -/
theorem streams_turns {Q : Std.TreeMap ThreadId Nat → Nat → Prop}
    (hQ : Client.Lasting fun c => Q c.streamOf c.own.size)
    (h : Q r.client.streamOf r.client.own.size) (ts : List Turn) :
    Q (r.turns ts).client.streamOf (r.turns ts).client.own.size := by
  refine lasting_turns hQ (fun _ _ h => h) (fun c deliver h => ?_) h ts
  rcases heq : c.shutdown deliver with ⟨answer, out, c'⟩
  cases hending : c.ending with
  | true =>
    rw [Client.shutdown, hending] at heq
    cases heq
    exact h
  | false =>
    have hholdings := Client.holdings_shutdown hending heq
    have hstreams : c'.streamOf = c.streamOf := congrArg (·.2.1) hholdings
    have hsize : c'.own.size = c.own.size := congrArg (·.2.2) hholdings
    rwa [hstreams, hsize]

theorem size_turns (r : Run) (ts : List Turn) :
    r.client.own.size ≤ (r.turns ts).client.own.size :=
  streams_turns (Q := fun _ n => r.client.own.size ≤ n)
    (Client.lasting_streams (Q := fun _ n => r.client.own.size ≤ n)
      (fun _ _ _ => Nat.le_succ_of_le) fun _ _ _ => id) (Nat.le_refl _) ts

/-- A stream never goes from one thread to another. -/
theorem only_turns (A : ThreadId → Prop) (hlt : p < r.client.own.size)
    (h : ∀ thread : ThreadId, r.client.streamOf[thread]? = some p → A thread) (ts : List Turn) :
    ∀ thread : ThreadId, (r.turns ts).client.streamOf[thread]? = some p → A thread :=
  (streams_turns (Q := fun streamOf n =>
    p < n ∧ ∀ thread : ThreadId, streamOf[thread]? = some p → A thread)
    (Client.lasting_only p A) ⟨hlt, h⟩ ts).2

/-- A thread that has no stream gets one that there was not before. -/
theorem fresh_turns (hnone : r.client.streamOf[thread]? = none) (ts : List Turn)
    (hp : (r.turns ts).client.streamOf[thread]? = some p) : r.client.own.size ≤ p := by
  by_contra hlt
  refine only_turns (· ≠ thread) (Nat.not_le.1 hlt) (fun other hother heq => ?_) ts thread hp rfl
  cases hnone.symm.trans (heq ▸ hother)

/-- There are no fewer streams later. -/
theorem size_earlier_le {earlier : List Turn} (h : earlier <+: ts) :
    (after settings earlier).client.own.size ≤ (after settings ts).client.own.size := by
  obtain ⟨later, rfl⟩ := h
  rw [after_append]
  exact size_turns _ later

theorem Had.lt (h : Had settings ts thread p) : p < (after settings ts).client.own.size := by
  obtain ⟨earlier, hearlier, hp⟩ := h
  exact Nat.lt_of_lt_of_le ((placed_after settings earlier).inRange thread p hp)
    (size_earlier_le hearlier)

/-- **A stream is one of a single thread**, at all times. -/
theorem Had.unique (h : Had settings ts thread p) (h' : Had settings ts other p) :
    thread = other := by
  -- The thread that had the stream first is the only one that can have it.
  have hlater {thread other : ThreadId} {earlier earlier' : List Turn}
      (hp : (after settings earlier).client.streamOf[thread]? = some p)
      (hp' : (after settings earlier').client.streamOf[other]? = some p)
      (hearly : earlier <+: earlier') : other = thread := by
    obtain ⟨later, rfl⟩ := hearly
    have hplaced := placed_after settings earlier
    rw [after_append] at hp'
    exact only_turns (· = thread) (hplaced.inRange thread p hp)
      (fun t ht => hplaced.single t thread p ht hp) later other hp'
  obtain ⟨earlier, hearlier, hp⟩ := h
  obtain ⟨earlier', hearlier', hp'⟩ := h'
  rcases List.prefix_or_prefix_of_prefix hearlier hearlier' with hearly | hearly
  · exact (hlater hp hp' hearly).symm
  · exact hlater hp' hp hearly

/-! ### Records -/

/-- A record that was accepted on a stream was taken by it. -/
private theorem exists_of_perform {call : EStateM ClientError Client Unit} {ref ref' : StreamRef}
    {record record' : Record} (h : (r.perform call fun _ => accept ref record).accepted =
      r.accepted ++ [(ref', record')]) :
    ref = ref' ∧ ∃ c, call r.client = .ok ⟨⟩ c ∧
      (r.perform call fun _ => accept ref record).client = c := by
  unfold perform at h ⊢
  cases hresult : call r.client with
  | ok a c =>
    rw [hresult] at h
    have hlast := List.append_cancel_left (show r.accepted ++ _ = _ from h)
    cases hlast
    exact ⟨rfl, c, rfl, rfl⟩
  | error e c =>
    rw [hresult] at h
    cases List.self_eq_append_right.1 (show r.accepted = _ from h)

/-- A record that is accepted on the stream of a thread is one of the thread that has the stream
then. -/
theorem Emits.streamOf {t : Turn} {record : Record}
    (h : (after settings ts).Emits t thread (.own p) record) :
    (after settings (ts ++ [t])).client.streamOf[thread]? = some p := by
  obtain ⟨past, -, hintact⟩ := (chronicle settings ts).inOrder
  obtain ⟨call, rfl, hthread, haccepted⟩ := h
  have hnothing (hsame : ((after settings ts).step call).accepted = (after settings ts).accepted) :
      False := by
    rw [hsame] at haccepted
    cases List.self_eq_append_right.1 haccepted
  rw [after_concat]
  change ((after settings ts).step call).client.streamOf[thread]? = some p
  cases call with
  | dispatch other id args =>
    cases hthread
    obtain ⟨href, c, hok, hperform⟩ := exists_of_perform haccepted
    have hclient : ((after settings ts).step (.dispatch thread id args)).client = c := hperform
    obtain ⟨q, hstream, hq⟩ := hintact.streamOf_dispatch hok
    cases href.symm.trans hstream
    rwa [hclient]
  | finish other n =>
    cases hthread
    cases hd : (after settings ts).drafts n with
    | none => exact (hnothing (by rw [step_finish_of_none hd])).elim
    | some d =>
      have hstep := step_finish_of_some hd thread
      rw [hstep] at haccepted
      obtain ⟨href, c, hok, hclient⟩ :=
        exists_of_perform (r := (after settings ts).setDraft n none) haccepted
      rw [hstep, hclient]
      cases hordering : d.writer.ordering with
      | some i =>
        rw [hordering] at href
        cases href
      | none =>
        rw [hordering] at href
        obtain ⟨q, hstream, hq⟩ := hintact.streamOf_finishEvent hordering hok
        cases href.symm.trans hstream
        exact hq
  | threadEnd other =>
    refine (hnothing ?_).elim
    change ((after settings ts).perform _ _).accepted = _
    unfold perform
    split <;> rfl
  | _ => cases hthread

theorem Emitted.had {record : Record} (h : Emitted settings ts thread (.own p) record) :
    Had settings ts thread p := by
  obtain ⟨earlier, t, later, rfl, hemits⟩ := h
  exact ⟨earlier ++ [t], ⟨later, by rw [List.append_assoc]; rfl⟩, hemits.streamOf⟩

/-- Each stream has an owner. -/
theorem exists_owner (settings : ClientSettings) (ts : List Turn) :
    ∃ owner : Nat → ThreadId, ∀ thread p, Had settings ts thread p → thread = owner p := by
  refine ⟨fun p => Classical.epsilon fun thread => Had settings ts thread p, fun thread p h => ?_⟩
  exact h.unique (Classical.epsilon_spec (p := fun thread => Had settings ts thread p) ⟨thread, h⟩)

/-! ### Ends -/

/-- A session that is not closed accepts frames. -/
theorem accepting_after (h : (after settings ts).client.closed = false) :
    (after settings ts).client.outbox.accepting = true := by
  refine (lasting_turns (r := { client := { settings } })
    (Client.lasting_latched.and Client.lasting_open) ?_ ?_
    ⟨Client.latched_start settings, fun _ => rfl⟩ ts).2 h
  · rintro c deliver ⟨hlatched, hopen⟩
    refine ⟨(hlatched.runSender deliver).1, fun hstill => ?_⟩
    have hclosed : (c.closed || (c.outbox.pump deliver).2.failure.isSome) = false := hstill
    rw [Bool.or_eq_false_iff] at hclosed
    have hnone : (c.outbox.pump deliver).2.failure = none :=
      Option.not_isSome_iff_eq_none.1 (Bool.eq_false_iff.1 hclosed.2)
    exact (Outbox.accepting_pump hnone).trans (hopen hclosed.1)
  · rintro c deliver ⟨hlatched, -⟩
    obtain ⟨hlatched', hclosed, -⟩ := hlatched.shutdown (rfl : c.shutdown deliver = _)
    exact ⟨hlatched', fun hopen => by cases hclosed.symm.trans hopen⟩

/-- A session that is open was open before. -/
theorem open_earlier {earlier : List Turn} (h : earlier <+: ts)
    (hopen : (after settings ts).client.closed = false) :
    (after settings earlier).client.closed = false := by
  obtain ⟨later, rfl⟩ := h
  rw [after_append] at hopen
  cases hclosed : (after settings earlier).client.closed with
  | false => rfl
  | true =>
    have hlate := late_turns (latched_after settings earlier) (placed_after settings earlier)
      hclosed later
    cases hlate.closed.symm.trans hopen

/-- A thread that ends has no stream any more, whether the call succeeds or not. -/
theorem streamOf_threadEnd (hopen : r.client.closed = false) (thread : ThreadId) :
    (r.step (.threadEnd thread)).client.streamOf[thread]? = none := by
  have hfinal : (r.step (.threadEnd thread)).client =
      Step.final (Client.threadEnd thread r.client) := client_perform fun _ _ => rfl
  rw [hfinal, Client.threadEnd, Client.ensureOpen_bind hopen]
  cases hp : r.client.streamOf[thread]? with
  | none => rwa [Client.endStream_of_none hp]
  | some p =>
    have hstreams : (Step.final (Client.endStream thread r.client)).streamOf =
        r.client.streamOf.erase thread := congrArg (·.2.1) (Client.holdings_endStream hp)
    rw [hstreams, getElem?_erase, if_pos rfl]

/-- What holds before some turns and not after them is ended by one of the turns. -/
theorem exists_turn {P : Run → Prop} {ts : List Turn} (h : P r) (hnot : ¬ P (r.turns ts)) :
    ∃ earlier t later, ts = earlier ++ t :: later ∧ P (r.turns earlier) ∧
      ¬ P ((r.turns earlier).turn t) := by
  induction ts generalizing r with
  | nil => exact absurd h hnot
  | cons t ts ih =>
    by_cases hnext : P (r.turn t)
    · obtain ⟨earlier, t', later, rfl, hbefore, hends⟩ := ih hnext hnot
      exact ⟨t :: earlier, t', later, rfl, hbefore, hends⟩
    · exact ⟨[], t, ts, rfl, h, hnext⟩

end Run

end TraceRelay
