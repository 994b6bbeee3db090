import TraceRelay.Proofs.Session.Faults

/-!
# The end of a session

Analyses are told of the end of a session if it ended well, and only then: all of them, once each,
in the order in which they were installed, and after every other call. A session ends well exactly
if no action failed and nothing is wrong behind the last message, and then all records reached their
analyses and none was refused.

## Main definitions

* `Registry.Serves` : calls of the analyses of which none is refused.
* `Journal.handled` : the records among calls.

## Main results

* `Host.actAll_serves` : actions that succeed make calls of which none is refused.
* `Session.run_exit` : how a session ends, and what the analyses are told then.
-/

namespace TraceRelay

variable {σ : Type}

/-! ### Calls that succeed -/

/-- The effect of a call. -/
def Analysis.take (a : Analysis σ) : Callback → EStateM HandlerError σ Unit
  | .handled heap i => a.handle heap i
  | .freed heap ref => modify (a.onFree heap ref)
  | .exited => modify a.onExit

namespace Registry

/-- Calls of the installed analyses, none of which is refused, lead from one state to another. -/
inductive Serves (r : Registry σ) : Journal → σ → σ → Prop where
  | nil (state : σ) : Serves r [] state state
  | cons {position : Nat} {installed : Installed σ} {c : Callback} {rest : Journal}
    {state state' state'' : σ} (hinstalled : r.installed[position]? = some installed)
    (hcall : installed.analysis.take c state = .ok () state')
    (hrest : Serves r rest state' state'') :
    Serves r ((position, c) :: rest) state state''

variable {r r' : Registry σ} {journal journal' : Journal} {state state' state'' : σ}

theorem Serves.append (h : r.Serves journal state state') (h' : r.Serves journal' state' state'') :
    r.Serves (journal ++ journal') state state'' := by
  induction h with
  | nil => exact h'
  | cons hinstalled hcall _ ih => exact .cons hinstalled hcall (ih h')

/-- What is bound does not matter. -/
theorem Serves.congr (h : r.Serves journal state state') (hsame : r'.installed = r.installed) :
    r'.Serves journal state state' := by
  induction h with
  | nil => exact .nil _
  | cons hinstalled hcall _ ih => exact .cons (hsame ▸ hinstalled) hcall ih

/-- All analyses are told of something that they cannot refuse. -/
theorem serves_all (r : Registry σ) (c : Callback) (f : Analysis σ → σ → σ)
    (hf : ∀ (a : Analysis σ) state, a.take c state = .ok () (f a state)) (state : σ) :
    r.Serves ((List.range r.installed.size).map fun position => (position, c)) state
      (r.analyses.foldl (fun state a => f a state) state) := by
  suffices hfirst : ∀ n ≤ r.installed.size,
      r.Serves ((List.range n).map fun position => (position, c)) state
        ((r.analyses.take n).foldl (fun state a => f a state) state) by
    have hall := hfirst r.installed.size (Nat.le_refl _)
    rwa [List.take_of_length_le (Nat.le_of_eq (Host.length_analyses r))] at hall
  intro n hn
  -- The analyses are told one after the other, from the first on.
  induction n with
  | zero => exact .nil state
  | succ n ih =>
    have hget : r.analyses[n]? = some r.installed[n].analysis := by
      simp [analyses, Nat.lt_of_succ_le hn]
    rw [List.range_succ, List.map_append, List.take_add_one, hget, List.foldl_append]
    exact (ih (Nat.le_of_succ_le hn)).append
      (.cons (Array.getElem?_eq_getElem (Nat.lt_of_succ_le hn)) (hf _ _) (.nil _))

end Registry

namespace Host

variable {host host' : Host σ}

/-- An action that succeeds makes calls of which none is refused. -/
theorem act_serves {a : Action} (hok : act a host = .ok () host') :
    host.registry.Serves (host.entries (host.tells a)) host.state host'.state := by
  obtain ⟨registry, heap, state, exited, frees⟩ := host
  cases a with
  | deliver ordering r =>
    obtain ⟨b, analysis, args, heap', state', hroute, hargs, hhandle, rfl⟩ :=
      exists_of_deliver ((deliver_eq_act ..).trans hok)
    obtain ⟨hbinding, installed, hinstalled, rfl⟩ := Registry.route?_eq_some_iff.1 hroute
    simp only at hbinding hargs
    simp only [tells, hbinding, hargs]
    exact .cons hinstalled hhandle (.nil _)
  | free t =>
    change EStateM.Result.ok () (notifyFree t _).2 = _ at hok
    obtain rfl := (EStateM.Result.ok.inj hok).2
    rcases hremove : heap.remove t with ⟨_ | ref, heap'⟩
    · simp only [tells, notifyFree, hremove]
      exact .nil state
    · simp only [tells, notifyFree, hremove, entries, Round.entries, List.flatMap_cons,
        List.flatMap_nil, List.append_nil]
      exact registry.serves_all _ (fun a => a.onFree heap' ref) (fun _ _ => rfl) state
  | bind id name =>
    change Host.bind id name _ = _ at hok
    unfold Host.bind at hok
    split at hok <;> cases hok
    exact .nil state
  | attach t data =>
    rw [← attach_eq_act, attach] at hok
    split at hok <;> cases hok
    exact .nil state

/-- **Actions that succeed** make calls of which none is refused. -/
theorem actAll_serves {as : List Action} (hok : actAll as host = .ok () host') :
    host.registry.Serves (host.entries (host.tellsAll as)) host.state host'.state := by
  induction as generalizing host with
  | nil =>
    cases hok
    exact .nil _
  | cons a as ih =>
    obtain ⟨⟨⟩, host₁, hfirst, hrest⟩ := Step.bind_eq_ok_iff.mp hok
    have hinstalled := installed_act a host
    rw [hfirst] at hinstalled
    have hserves := (ih hrest).congr hinstalled.symm
    rw [entries, show host₁.registry.installed = _ from hinstalled] at hserves
    rw [tellsAll, hfirst, entries, List.flatMap_append]
    exact (act_serves hfirst).append hserves

end Host

/-! ### Records and ends among calls -/

/-- The records among calls, each with the position of its analysis and the heap as it was shown. -/
def Journal.handled (journal : Journal) : List (Nat × Heap × Invocation) :=
  journal.filterMap fun
    | (position, .handled heap i) => some (position, heap, i)
    | _ => none

/-- The records among the calls of rounds. -/
theorem Journal.handled_entries (count : Nat) (rounds : List Round) :
    Journal.handled (rounds.flatMap (Round.entries count)) = rounds.filterMap Round.delivery? := by
  unfold Journal.handled
  rw [List.filterMap_flatMap, List.filterMap_eq_flatMap_toList]
  refine List.flatMap_congr fun round _ => ?_
  cases round with
  | handled => rfl
  | freed | exited =>
    simp only [Round.entries, Round.delivery?, Option.toList_none, List.filterMap_map,
      List.filterMap_eq_nil_iff]
    exact fun _ _ => rfl

theorem Host.entries_append (host : Host σ) (rounds rounds' : List Round) :
    host.entries (rounds ++ rounds') = host.entries rounds ++ host.entries rounds' :=
  List.flatMap_append

/-- The end of a session is no record. -/
theorem Host.handled_ended (host : Host σ) (rounds : List Round) (ended : Bool) :
    Journal.handled (host.entries rounds ++ host.entries (if ended then [.exited] else [])) =
      rounds.filterMap Round.delivery? := by
  rw [← entries_append, entries, Journal.handled_entries, List.filterMap_append]
  cases ended <;> exact List.append_nil _

/-- Each record of a message asks for one delivery. -/
theorem Message.length_deliveries (ms : List Message) :
    ((ms.flatMap Message.actions).filterMap Action.record?).length =
      (ms.flatMap Message.records).length := by
  rw [List.filterMap_flatMap, List.length_flatMap, List.length_flatMap]
  congr 1
  refine List.map_congr_left fun m _ => ?_
  cases m with
  | analyze ordering records =>
    simp [Message.actions, Message.records, List.filterMap_map, Function.comp_def, Action.record?]
  | objectFree tokens =>
    simp [Message.actions, Message.records, List.filterMap_map, Function.comp_def, Action.record?]
  | _ => rfl

/-- No action tells the analyses of the end. -/
theorem Host.exited_not_mem_tellsAll (as : List Action) (host : Host σ) :
    Round.exited ∉ host.tellsAll as := by
  have htells (a : Action) (host : Host σ) : Round.exited ∉ host.tells a := by
    unfold tells
    repeat' split
    all_goals simp
  induction as generalizing host with
  | nil => exact List.not_mem_nil
  | cons a as ih =>
    rw [tellsAll]
    split
    · exact fun hmem => (List.mem_append.1 hmem).elim (htells a host) (ih _)
    · exact htells a host

theorem Round.exited_not_mem_entries {count : Nat} {rounds : List Round}
    (h : Round.exited ∉ rounds) (position : Nat) :
    (position, Callback.exited) ∉ rounds.flatMap (Round.entries count) := by
  intro hmem
  obtain ⟨round, hround, hentry⟩ := List.mem_flatMap.1 hmem
  cases round with
  | handled => simp [Round.entries] at hentry
  | freed => simp [Round.entries] at hentry
  | exited => exact h hround

/-- The end of a session is told to all analyses, none of which can refuse it. -/
theorem Host.notifyExit_serves {host : Host σ} (hexited : host.exited = false) :
    host.registry.Serves (host.entries [.exited]) host.state host.notifyExit.2.state := by
  have hserves := host.registry.serves_all .exited (fun a => a.onExit) (fun _ _ => rfl) host.state
  rw [notifyExit, hexited, if_neg Bool.false_ne_true, entries, List.flatMap_singleton]
  exact hserves

namespace Session

/-- **The end of a session.** Whatever arrives, it is read as the frames of messages, of which only
the last one may close the session, and then of bytes behind them. If the session ends well then all
analyses were told of the end, once each, in the order in which they were installed and after all
other calls. None of these calls was refused. The counts are those of the calls, of the messages,
and of the bytes up to the end of the message that closes the session, or of all bytes if none does.
If the session fails then no analysis was told of the end. It fails exactly if its host cannot take
one of the actions that the messages ask for, or if it takes all of them, no message closes the
session and the bytes behind the last one are a fault or a part of a frame. -/
theorem run_exit (registry : Registry σ) (state : σ) (maxFrame maxFreed : Nat)
    (arrivals : List (Except TransportError Bytes)) :
    let host := Host.start registry state maxFreed
    let ended := (start registry state maxFrame maxFreed).run arrivals
    let written := (start registry.journaled (state, []) maxFrame maxFreed).run arrivals
    let journal := written.2.host.state.2
    written.1 = ended.1 ∧ written.2.host.state.1 = ended.2.host.state ∧
    ∃ ms es behind, Reading maxFrame (arrived arrivals) ms es behind ∧
      (∀ summary, ended.1 = .ok summary →
        (∃ calls : Journal, journal =
            calls ++ (List.range registry.installed.size).map (fun i => (i, .exited)) ∧
          ∀ position, (position, .exited) ∉ calls) ∧
        registry.Serves journal state ended.2.host.state ∧
        summary.events = journal.handled.length ∧
        summary.registrations = (ms.filterMap Message.announces?).length ∧
        summary.threadEnds = ms.countP Message.endsThread ∧
        summary.bytes = if .close ∈ ms then es.flatten.length else (arrived arrivals).length) ∧
      ∀ e,
        (ended.1 = .error e → ∀ position, (position, .exited) ∉ journal) ∧
        (ended.1 = .error e ↔
          (∃ before a after host', ms.flatMap Message.actions = before ++ a :: after ∧
            Host.actAll before host = .ok () host' ∧ host'.Refuses a e) ∨
          (∃ host', Host.actAll (ms.flatMap Message.actions) host = .ok () host') ∧ .close ∉ ms ∧
            ∃ w, Frame.Broken maxFrame behind w ∧ e = .wire w) := by
  intro host ended written journal
  obtain ⟨⟨hresult, hstate⟩, ms, es, behind, hreading, hcases, hjournal⟩ :=
    run_reads registry state maxFrame maxFreed arrivals
  change journal = _ at hjournal
  have hhandled := host.handled_ended (host.tellsAll (ms.flatMap Message.actions)) ended.1.isOk
  rw [← hjournal] at hhandled
  have hbytes := congrArg List.length hreading.bytes
  rw [List.length_append] at hbytes
  refine ⟨hresult, hstate, ms, es, behind, hreading, fun summary hok => ?_,
    fun e => ⟨fun herror position => ?_, hcases.eq_error_iff⟩⟩
  · rw [hok] at hjournal
    generalize hpair : (ended.1, ended.2.host) = pair at hcases
    cases hcases with
    | failed => cases hok.symm.trans (congrArg (·.1) hpair)
    | broken => cases hok.symm.trans (congrArg (·.1) hpair)
    | @done host' hacts hend =>
      obtain ⟨hsummary, hhost'⟩ := Prod.mk.inj hpair
      cases hok.symm.trans hsummary
      obtain ⟨hinstalled, hexited⟩ := Host.actAll_keeps (ms.flatMap Message.actions) host
      rw [hacts, Step.final] at hinstalled hexited
      have htold := Host.actAll_serves hacts
      have hexit := (Host.notifyExit_serves hexited).congr hinstalled.symm
      rw [Host.entries, hinstalled] at hexit
      refine ⟨⟨_, hjournal.trans (congrArg _ (List.append_nil _)), fun position => ?_⟩, ?_, ?_, rfl,
        rfl, ?_⟩
      · exact Round.exited_not_mem_entries (Host.exited_not_mem_tellsAll _ host) position
      · rw [hjournal, hhost']
        exact htold.append hexit
      · have hcarries := (Host.actAll_carries (Heap.Consistent.empty maxFreed) hacts).length_eq
        rwa [Message.length_deliveries, ← Round.map_delivery?, List.length_map, ← hhandled]
          at hcarries
      · rcases hend with hclose | rfl
        · rw [if_pos hclose]
          rfl
        · rw [hbytes]
          exact (ite_self _).symm
  · rw [hjournal, herror, ← Host.entries_append]
    refine Round.exited_not_mem_entries (fun hmem => ?_) position
    exact Host.exited_not_mem_tellsAll _ host
      ((List.mem_append.1 hmem).resolve_right List.not_mem_nil)

theorem run_exit_twoThreads :
    ∃ summary, ∃ calls : Journal,
      ((start Run.canvasRegistry {} 64 8).run [.ok Run.twoThreadsFrames.flatten]).1 =
        .ok summary ∧
      ((start Run.canvasRegistry.journaled ({}, []) 64 8).run
        [.ok Run.twoThreadsFrames.flatten]).2.host.state.2 = calls ++ [(0, .exited)] ∧
      calls.handled.length = 2 := by
  have hrun : ((start Run.canvasRegistry {} 64 8).run [.ok Run.twoThreadsFrames.flatten]).1 =
      .ok { events := 2, registrations := 1, threadEnds := 1, bytes := 104,
            closedCleanly := true } := by
    decide +kernel
  obtain ⟨-, -, ms, es, behind, -, hok, -⟩ := run_exit Run.canvasRegistry {} 64 8
    [.ok Run.twoThreadsFrames.flatten]
  obtain ⟨⟨calls, hjournal, -⟩, -, hevents, -⟩ := hok _ hrun
  have hone : (List.range Run.canvasRegistry.installed.size).map (fun i => (i, Callback.exited)) =
      [(0, .exited)] := rfl
  rw [hone] at hjournal
  refine ⟨_, calls, hrun, hjournal, ?_⟩
  rw [hjournal, Journal.handled, List.filterMap_append, List.length_append] at hevents
  exact hevents.symm

end Session

end TraceRelay
