import TraceRelay.Proofs.Session.Journal

/-!
# How a byte string is read

A session reads the bytes that it receives as frames, one after the other, up to the first one that
closes it. If no frame does, then what stands behind the last whole one is nothing, or a fault, or a
frame that was cut off.

## Main definitions

* `Reading` : the messages that a byte string is read as, and what stands behind them.
* `Frame.Broken` : what is wrong where a frame should be.
* `Host.Concludes` : how a session ends that reads some messages.

## Main results

* `Frame.exists_reading`, `Reading.eq_acted` : every byte string is read in one way.
* `Host.exists_concludes` : how a session ends that receives a byte string.
* `Session.run_reads` : how a whole session ends, and what the analyses are told.
-/

namespace TraceRelay

/-- How a byte string is read: as the messages `ms`, which are written as `es`, and then what is
`behind` them. Only the last message may close the session, and if it does not, then no frame stands
behind it. -/
structure Reading (maxFrame : Nat) (bs : Bytes) (ms : List Message) (es : List Bytes)
    (behind : Bytes) : Prop where
  written : List.Forall₂ (fun m e => m.toBytes = .ok e ∧ e.length ≤ Message.headSize + maxFrame)
    ms es
  bytes : bs = es.flatten ++ behind
  close_last : .close ∉ ms.dropLast
  no_frame : .close ∉ ms → ∀ found, Frame.first maxFrame behind ≠ .ok (some found)

namespace Frame

/-- What is wrong with bytes where a frame should be: they are none, or too few for one. -/
inductive Broken (maxFrame : Nat) (bs : Bytes) : WireError → Prop where
  | malformed {e : WireError} (hfirst : first maxFrame bs = .error e) : Broken maxFrame bs e
  | cutOff (hsome : bs ≠ []) (hfirst : first maxFrame bs = .ok none) :
    Broken maxFrame bs (.truncated (needed maxFrame bs) bs.length)

variable {maxFrame : Nat}

/-- Only one thing is wrong with bytes. -/
theorem Broken.eq {bs : Bytes} {e e' : WireError} (h : Broken maxFrame bs e)
    (h' : Broken maxFrame bs e') : e = e' := by
  cases h with
  | malformed hfirst =>
    cases h' with
    | malformed hfirst' => exact Except.error.inj (hfirst.symm.trans hfirst')
    | cutOff _ hfirst' => cases hfirst.symm.trans hfirst'
  | cutOff _ hfirst =>
    cases h' with
    | malformed hfirst' => cases hfirst.symm.trans hfirst'
    | cutOff => rfl

/-- Nothing is wrong where there are no bytes. -/
theorem not_broken_nil (e : WireError) : ¬ Broken maxFrame [] e := by
  intro h
  cases h with
  | malformed hfirst => cases hfirst
  | cutOff hsome => exact hsome rfl

theorem closes_eq_true_iff {frames : List Frame} :
    closes frames = true ↔ .close ∈ (untilClose frames).map (·.message) := by
  induction frames with
  | nil => exact ⟨nofun, nofun⟩
  | cons frame frames ih =>
    by_cases hclose : frame.message = .close
    · simp [closes, untilClose, hclose]
    · rw [closes] at ih ⊢
      simp [untilClose, hclose, Ne.symm hclose, ih]

/-- The messages of a byte string that are acted on. -/
def acted (maxFrame : Nat) (bs : Bytes) : List Message :=
  (untilClose (all maxFrame bs).1).map (·.message)

/-- **Every byte string is read in some way**, as the frames that are acted on. If none of them
closes the session, then all frames are. -/
theorem exists_reading (maxFrame : Nat) (bs : Bytes) :
    ∃ es behind, Reading maxFrame bs (acted maxFrame bs) es behind ∧
      ((untilClose (all maxFrame bs).1).map (·.wireSize)).sum = es.flatten.length ∧
      (closes (all maxFrame bs).1 = false → (all maxFrame bs).2.2 = behind ∧
        first maxFrame behind = ((all maxFrame bs).2.1.elim (.ok none) .error)) := by
  unfold acted
  induction bs using all_induction maxFrame with
  | hfault bs e hfirst =>
    rw [all_of_error hfirst]
    refine ⟨[], bs, ⟨.nil, rfl, List.not_mem_nil, fun _ found hfound => ?_⟩, rfl,
      fun _ => ⟨rfl, hfirst⟩⟩
    cases hfirst.symm.trans hfound
  | hend bs hfirst =>
    rw [all_of_none hfirst]
    refine ⟨[], bs, ⟨.nil, rfl, List.not_mem_nil, fun _ found hfound => ?_⟩, rfl,
      fun _ => ⟨rfl, hfirst⟩⟩
    cases hfirst.symm.trans hfound
  | hframe bs frame rest hfirst ih =>
    obtain ⟨e, he, hwire, hmax, rfl⟩ := first_eq_some_iff.1 hfirst
    rw [all_of_some hfirst]
    dsimp only at ih ⊢
    by_cases hclose : frame.message = .close
    · refine ⟨[e], rest, ?_, ?_, fun hopen => ?_⟩
      · rw [untilClose, if_pos hclose]
        refine ⟨.cons ⟨he, hmax⟩ .nil, by simp, List.not_mem_nil, fun hopen => absurd ?_ hopen⟩
        exact hclose ▸ List.mem_cons_self
      · rw [untilClose, if_pos hclose]
        simp [hwire]
      · simp [closes, hclose] at hopen
    · obtain ⟨es, behind, hreading, hsizes, hopen⟩ := ih
      have hcloses : closes (frame :: (all maxFrame rest).1) = closes (all maxFrame rest).1 := by
        simp [closes, hclose]
      rw [hcloses, untilClose, if_neg hclose]
      refine ⟨e :: es, behind, ⟨.cons ⟨he, hmax⟩ hreading.written, ?_, ?_, ?_⟩, ?_, hopen⟩
      · rw [List.flatten_cons, List.append_assoc, ← hreading.bytes]
      · rw [List.map_cons]
        generalize (untilClose (all maxFrame rest).1).map (·.message) = ms at hreading
        cases ms with
        | nil => exact List.not_mem_nil
        | cons m ms =>
          rw [List.dropLast_cons_cons]
          exact List.not_mem_cons_of_ne_of_not_mem (Ne.symm hclose) hreading.close_last
      · intro hnone
        exact hreading.no_frame fun hmem => hnone (List.mem_cons_of_mem _ hmem)
      · rw [List.map_cons, List.sum_cons, hsizes, List.flatten_cons, List.length_append, hwire]

end Frame

/-- **A byte string is read in one way only.** -/
theorem Reading.eq_acted {maxFrame : Nat} {bs : Bytes} {ms : List Message} {es : List Bytes}
    {behind : Bytes} (h : Reading maxFrame bs ms es behind) : ms = Frame.acted maxFrame bs := by
  obtain ⟨hwritten, rfl, hlast, hnone⟩ := h
  induction hwritten with
  | nil =>
    have hnone := hnone List.not_mem_nil
    change [] = Frame.acted maxFrame behind
    unfold Frame.acted
    cases hfirst : Frame.first maxFrame behind with
    | error e => rw [Frame.all_of_error hfirst]; rfl
    | ok found =>
      cases found with
      | none => rw [Frame.all_of_none hfirst]; rfl
      | some found => exact absurd hfirst (hnone found)
  | @cons m e ms es he _ ih =>
    have hfirst : Frame.first maxFrame (e ++ (es.flatten ++ behind)) =
        .ok (some (⟨m, e.length⟩, es.flatten ++ behind)) :=
      Frame.first_eq_some_iff.2 ⟨e, he.1, rfl, he.2, rfl⟩
    rw [List.flatten_cons, List.append_assoc, Frame.acted, Frame.all_of_some hfirst,
      Frame.untilClose]
    cases ms with
    | nil =>
      by_cases hclose : m = .close
      · rw [if_pos hclose]
        rfl
      · rw [if_neg hclose, List.map_cons]
        exact congrArg (m :: ·) (ih List.not_mem_nil fun _ => hnone (by simpa using Ne.symm hclose))
    | cons m' ms =>
      rw [List.dropLast_cons_cons, List.mem_cons, not_or] at hlast
      rw [if_neg (Ne.symm hlast.1), List.map_cons]
      refine congrArg (m :: ·) (ih hlast.2 fun hopen => hnone fun hmem => ?_)
      exact (List.mem_cons.1 hmem).elim hlast.1 hopen

/-- Messages of which the last one closes the session are read from what is written for them. -/
theorem Reading.of_close {maxFrame : Nat} {ms : List Message} {es : List Bytes}
    (hwritten : List.Forall₂
      (fun m e => m.toBytes = .ok e ∧ e.length ≤ Message.headSize + maxFrame) ms es)
    (hlast : .close ∉ ms.dropLast) (hclose : .close ∈ ms) :
    Reading maxFrame es.flatten ms es [] :=
  ⟨hwritten, (List.append_nil _).symm, hlast, fun hopen => absurd hclose hopen⟩

/-! ### Sessions -/

theorem Frame.actions_untilClose (maxFrame : Nat) (bs : Bytes) :
    actions (untilClose (all maxFrame bs).1) = (acted maxFrame bs).flatMap Message.actions := by
  rw [acted, List.flatMap_map, actions]

/-- What is counted of messages and of the bytes that they were written as. -/
def Summary.ofMessages (ms : List Message) (es : List Bytes) (frees : Nat) : Summary where
  events := (ms.flatMap Message.records).length
  frees
  registrations := (ms.filterMap Message.announces?).length
  threadEnds := ms.countP Message.endsThread
  bytes := es.flatten.length
  closedCleanly := decide (.close ∈ ms)

theorem Summary.count_eq_ofMessages {frames : List Frame} {es : List Bytes}
    (hsizes : ((Frame.untilClose frames).map (·.wireSize)).sum = es.flatten.length) (frees : Nat) :
    { Summary.count (Frame.untilClose frames) with
      frees, closedCleanly := Frame.closes frames } =
      Summary.ofMessages ((Frame.untilClose frames).map (·.message)) es frees := by
  have hclosed : Frame.closes frames =
      decide (.close ∈ (Frame.untilClose frames).map (·.message)) := by
    rw [Bool.eq_iff_iff, decide_eq_true_iff, Frame.closes_eq_true_iff]
  rw [Summary.ofMessages, ← hclosed]
  simp [count, hsizes, Frame.announced, List.flatMap_map, List.filterMap_map, List.countP_map,
    Function.comp_def]

/-- How a session ends that reads the messages `ms`, with `behind` after them. An action fails, or
something is wrong behind the last message, or the session ends well. -/
inductive Host.Concludes {σ : Type} (maxFrame : Nat) (ms : List Message) (es : List Bytes)
    (behind : Bytes) (host : Host σ) : Except SessionError Summary × Host σ → Prop where
  | failed {e : SessionError} {host' : Host σ}
    (hacts : actAll (ms.flatMap Message.actions) host = .error e host') :
    Concludes maxFrame ms es behind host (.error e, host')
  | broken {w : WireError} {host' : Host σ}
    (hacts : actAll (ms.flatMap Message.actions) host = .ok () host') (hopen : .close ∉ ms)
    (hbroken : Frame.Broken maxFrame behind w) :
    Concludes maxFrame ms es behind host (.error (.wire w), host')
  | done {host' : Host σ} (hacts : actAll (ms.flatMap Message.actions) host = .ok () host')
    (hend : .close ∈ ms ∨ behind = []) :
    Concludes maxFrame ms es behind host
      (.ok (.ofMessages ms es host'.notifyExit.2.frees), host'.notifyExit.2)

/-- **How a session ends that receives a byte string**, told by how the byte string is read. -/
theorem Host.exists_concludes {σ : Type} (maxFrame : Nat) (bs : Bytes) :
    ∃ es behind, Reading maxFrame bs (Frame.acted maxFrame bs) es behind ∧ ∀ host : Host σ,
      Concludes maxFrame (Frame.acted maxFrame bs) es behind host (host.outcome maxFrame bs) := by
  obtain ⟨es, behind, hreading, hsizes, hopen⟩ := Frame.exists_reading maxFrame bs
  refine ⟨es, behind, hreading, fun host => ?_⟩
  have hcount := Summary.count_eq_ofMessages hsizes
  have hclose : Frame.closes (Frame.all maxFrame bs).1 = true ↔ _ := Frame.closes_eq_true_iff
  have hactions := Frame.actions_untilClose maxFrame bs
  rw [Frame.acted] at hreading hactions ⊢
  unfold outcome replay
  generalize Frame.all maxFrame bs = found at *
  obtain ⟨frames, fault, rest⟩ := found
  dsimp only at hcount hclose hactions hopen ⊢
  generalize (Frame.untilClose frames).map (·.message) = ms at hcount hclose hactions ⊢
  rw [hactions]
  cases hacts : actAll (ms.flatMap Message.actions) host with
  | error e host' =>
    rw [Step.bind_of_error hacts]
    exact .failed hacts
  | ok _ host' =>
    rw [Step.bind_of_ok hacts]
    cases hclosed : Frame.closes frames with
    | true =>
      rw [if_pos rfl]
      change Concludes maxFrame ms es behind host (.ok _, host'.notifyExit.2)
      rw [hclosed] at hcount
      rw [hcount]
      exact .done hacts (.inl (hclose.1 hclosed))
    | false =>
      obtain ⟨rfl, hfirst⟩ := hopen hclosed
      have hnone : .close ∉ ms := fun hmem => by rw [hclose.2 hmem] at hclosed; cases hclosed
      rw [if_neg Bool.false_ne_true]
      cases fault with
      | some w => exact .broken hacts hnone (.malformed hfirst)
      | none =>
        by_cases hempty : rest = []
        · simp only [if_pos hempty]
          change Concludes maxFrame ms es rest host (.ok _, host'.notifyExit.2)
          rw [hclosed, Frame.untilClose_of_not_closes hclosed] at hcount
          rw [hcount]
          exact .done hacts (.inr hempty)
        · simp only [if_neg hempty]
          exact .broken hacts hnone (.cutOff hempty hfirst)

/-- **A whole session**, told by how it reads what arrives. -/
theorem Session.run_reads {σ : Type} (registry : Registry σ) (state : σ) (maxFrame maxFreed : Nat)
    (arrivals : List (Except TransportError Bytes)) :
    let host := Host.start registry state maxFreed
    let ended := (start registry state maxFrame maxFreed).run arrivals
    let written := (start registry.journaled (state, []) maxFrame maxFreed).run arrivals
    (written.1 = ended.1 ∧ written.2.host.state.1 = ended.2.host.state) ∧
    ∃ ms es behind, Reading maxFrame (arrived arrivals) ms es behind ∧
      host.Concludes maxFrame ms es behind (ended.1, ended.2.host) ∧
      written.2.host.state.2 = host.entries (host.tellsAll (ms.flatMap Message.actions)) ++
        host.entries (if ended.1.isOk then [.exited] else []) := by
  intro host ended written
  obtain ⟨hresult, hhost⟩ := run_journaled registry state maxFrame maxFreed arrivals
  have hended := run_arrived registry state maxFrame maxFreed arrivals
  obtain ⟨es, behind, hreading, hconcludes⟩ :=
    Host.exists_concludes (σ := σ) maxFrame (arrived arrivals)
  have hcases := hconcludes host
  have hjournal := congrArg (fun host => host.state.2) hhost
  rw [Host.rounds, Frame.actions_untilClose, ← hended, List.flatMap_append] at hjournal
  rw [← hended] at hcases
  exact ⟨⟨hresult, congrArg (fun host => host.state.1) hhost⟩, _, es, behind, hreading, hcases,
    hjournal⟩

end TraceRelay
