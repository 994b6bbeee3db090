import TraceRelay.Proofs.Heap.Removals
import TraceRelay.Proofs.Session.Arguments
import TraceRelay.Proofs.Session.Journal

/-!
# How often analyses are told that an object went

The actions of a session use the heap in a known way: a record resolves its tokens, data is attached
to one token, and each token of a free message is removed. So the objects of which analyses are told
that they went are the ones that go during these calls of the heap.

## Main definitions

* `Action.heapCalls` : the calls of the heap that an action makes.

## Main results

* `Host.act_heap`, `Host.actAll_heap` : what actions do to the heap, and which objects go.
* `Session.run_frees_once` : analyses are told at most once that an object went.
-/

namespace TraceRelay

/-! ### Actions -/

/-- The calls of the heap that an action makes if nothing fails. -/
def Action.heapCalls : Action → List HeapCall
  | deliver _ r => Argument.calls r.args
  | free t => [.remove t]
  | bind _ _ => []
  | attach t data => [.attach t data]

variable {σ : Type}

namespace Host

/-- What an action does to the heap: it makes the calls in `made`, during which the objects go of
which the analyses are told. -/
structure Uses (made : List HeapCall) (told : List Round) (host host' : Host σ) : Prop where
  heap : host'.heap = host.heap.after made
  freed : told.filterMap Round.freed? = host.heap.removals made
  frees : host'.frees = host.frees + (told.filterMap Round.freed?).length

theorem Uses.append {made made' : List HeapCall} {told told' : List Round}
    {host host' host'' : Host σ} (h : Uses made told host host')
    (h' : Uses made' told' host' host'') :
    Uses (made ++ made') (told ++ told') host host'' where
  heap := by rw [h'.heap, h.heap, Heap.after_append]
  freed := by rw [List.filterMap_append, h.freed, h'.freed, Heap.removals_append, h.heap]
  frees := by
    rw [h'.frees, h.frees, List.filterMap_append, List.length_append, Nat.add_assoc]

theorem removals_calls (vs : List Value) {made : List HeapCall} (hmade : made <+: Argument.calls vs)
    (h : Heap) : h.removals made = [] := by
  refine Heap.removals_eq_nil (fun c hc t => ?_) h
  obtain ⟨t', -, rfl⟩ := List.mem_map.mp (hmade.subset hc)
  exact nofun

/-- **One action.** -/
theorem act_heap (a : Action) (host : Host σ) :
    ∃ made, made <+: a.heapCalls ∧ Uses made (host.tells a) host (Step.final (act a host)) ∧
      ∀ host', act a host = .ok () host' → made = a.heapCalls := by
  obtain ⟨registry, heap, state, exited, frees⟩ := host
  cases a with
  | deliver ordering r =>
    obtain ⟨made, hmade, hheap, hall⟩ := Argument.heap_resolveAll r.args heap
    have hnone := removals_calls r.args hmade heap
    rw [← deliver_eq_act]
    simp only [deliver, tells]
    cases hroute : registry.route? r.method with
    | none =>
      rw [Registry.route?_eq_none_iff.1 hroute]
      exact ⟨[], List.nil_prefix, ⟨rfl, rfl, rfl⟩, fun _ hok => by cases hok⟩
    | some found =>
      obtain ⟨binding, analysis⟩ := found
      rw [(Registry.route?_eq_some_iff.1 hroute).1]
      cases hargs : Argument.resolveAll r.args heap with
      | error e heap' =>
        rw [hargs] at hheap
        exact ⟨made, hmade, ⟨hheap, hnone.symm, rfl⟩, fun _ hok => by cases hok⟩
      | ok args heap' =>
        rw [hargs] at hheap
        refine ⟨made, hmade, ?_, fun _ _ => hall args heap' hargs⟩
        dsimp only
        split <;> exact ⟨hheap, hnone.symm, rfl⟩
  | free t =>
    refine ⟨[.remove t], List.prefix_rfl, ?_, fun _ _ => rfl⟩
    change Uses _ _ _ (notifyFree t _).2
    rcases hremove : heap.remove t with ⟨_ | ref, heap'⟩ <;>
      exact ⟨by simp [notifyFree, hremove, Heap.next, Heap.call, Step.final],
        by simp [tells, hremove, Heap.removals, Heap.removed?, Round.freed?],
        by simp [tells, notifyFree, hremove, Round.freed?]⟩
  | bind id name =>
    refine ⟨[], List.nil_prefix, ?_, fun _ _ => rfl⟩
    change Uses _ _ _ (Step.final (Host.bind id name _))
    unfold Host.bind
    dsimp only
    split <;> exact ⟨rfl, rfl, rfl⟩
  | attach t data =>
    refine ⟨[.attach t data], List.prefix_rfl, ?_, fun _ _ => rfl⟩
    rw [← attach_eq_act]
    unfold attach
    dsimp only
    cases hattach : Heap.attach t data heap <;>
      exact ⟨by simp [Heap.next, Heap.call, hattach, Step.final], rfl, rfl⟩

/-- **Actions, one after the other.** If none fails then all of them make their calls. -/
theorem actAll_heap (as : List Action) (host : Host σ) :
    ∃ made, made <+: as.flatMap Action.heapCalls ∧
      Uses made (host.tellsAll as) host (Step.final (actAll as host)) ∧
      ∀ host', actAll as host = .ok () host' → made = as.flatMap Action.heapCalls := by
  induction as generalizing host with
  | nil => exact ⟨[], List.nil_prefix, ⟨rfl, rfl, rfl⟩, fun _ _ => rfl⟩
  | cons a as ih =>
    obtain ⟨made, hmade, huses, hall⟩ := act_heap a host
    simp only [actAll, tellsAll, List.flatMap_cons]
    cases h : act a host with
    | error e host' =>
      rw [h] at huses
      rw [Step.bind_of_error h]
      exact ⟨made, hmade.trans (List.prefix_append _ _), huses, fun _ hok => by cases hok⟩
    | ok _ host' =>
      rw [h] at huses
      obtain ⟨made', hmade', huses', hall'⟩ := ih host'
      rw [Step.bind_of_ok h]
      obtain rfl := hall host' h
      exact ⟨a.heapCalls ++ made', (List.prefix_append_right_inj _).mpr hmade', huses.append huses',
        fun host'' hok => by rw [hall' host'' hok]⟩

/-- The end of a session is told, and changes nothing of the heap. -/
private theorem Uses.exit {made : List HeapCall} {told : List Round} {host host' : Host σ}
    (h : Uses made told host host') :
    Uses made (told ++ [.exited]) host host'.notifyExit.2 := by
  have hkept : host'.notifyExit.2.heap = host'.heap ∧ host'.notifyExit.2.frees = host'.frees := by
    unfold notifyExit
    split <;> exact ⟨rfl, rfl⟩
  have htold : (told ++ [Round.exited]).filterMap Round.freed? = told.filterMap Round.freed? := by
    rw [List.filterMap_append]
    exact List.append_nil _
  exact ⟨hkept.1.trans h.heap, htold.trans h.freed, by rw [hkept.2, h.frees, htold]⟩

/-- **A whole session** makes the calls that its frames ask for, until something fails. -/
theorem outcome_heap (maxFrame : Nat) (bs : Bytes) (host : Host σ) :
    let asked := (Frame.actions (Frame.untilClose (Frame.all maxFrame bs).1)).flatMap
      Action.heapCalls
    ∃ made, made <+: asked ∧
      Uses made (host.rounds maxFrame bs) host (host.outcome maxFrame bs).2 ∧
      ∀ summary, (host.outcome maxFrame bs).1 = .ok summary →
        summary.frees = (host.outcome maxFrame bs).2.frees ∧ made = asked := by
  obtain ⟨made, hmade, huses, hall⟩ := actAll_heap
    (Frame.actions (Frame.untilClose (Frame.all maxFrame bs).1)) host
  refine ⟨made, hmade, ?_⟩
  rcases replay_cases maxFrame bs host with ⟨e, h⟩ | ⟨closed, host', hacts, h⟩
  · simp only [rounds, outcome, h, Except.isOk, Except.toBool, Bool.false_eq_true, if_false,
      List.append_nil]
    exact ⟨huses, fun _ hok => by cases hok⟩
  · rw [hacts] at huses
    simp only [rounds, outcome, h, Except.isOk, Except.toBool, if_true]
    refine ⟨huses.exit, fun summary hok => ?_⟩
    cases hok
    exact ⟨rfl, hall host' hacts⟩

end Host

namespace Session

/-- **Analyses are told at most once that an object went.** Whatever arrives, what the analyses are
told comes in rounds. A round about an object that went calls all installed analyses, once each, in
the order in which they were installed. There is at most one such round for each object and none for
a detached one: the objects are those that the calls of the heap remove, which the session makes one
after the other as its frames ask for them, up to the first failure. If the session ends well then
the number of these rounds is counted. -/
theorem run_frees_once (registry : Registry σ) (state : σ) (maxFrame maxFreed : Nat)
    (arrivals : List (Except TransportError Bytes)) :
    let ended := (start registry state maxFrame maxFreed).run arrivals
    let written := (start registry.journaled (state, []) maxFrame maxFreed).run arrivals
    let asked := (Frame.actions
      (Frame.untilClose (Frame.all maxFrame (arrived arrivals)).1)).flatMap Action.heapCalls
    written.1 = ended.1 ∧ written.2.host.heap = ended.2.host.heap ∧
      written.2.host.state.1 = ended.2.host.state ∧
      ∃ (rounds : List Round) (made : List HeapCall),
        written.2.host.state.2 = rounds.flatMap (Round.entries registry.installed.size) ∧
        made <+: asked ∧ ended.2.host.heap = ({ maxFreed } : Heap).after made ∧
        rounds.filterMap Round.freed? = ({ maxFreed } : Heap).removals made ∧
        (rounds.filterMap Round.freed?).Nodup ∧
        (∀ ref ∈ rounds.filterMap Round.freed?,
          ∃ o, ended.2.host.heap.object? ref = some o ∧ o.isDetached = false) ∧
        ∀ summary, ended.1 = .ok summary →
          summary.frees = (rounds.filterMap Round.freed?).length ∧ made = asked := by
  intro ended written asked
  obtain ⟨hresult, hhost⟩ := run_journaled registry state maxFrame maxFreed arrivals
  have hended := run_arrived registry state maxFrame maxFreed arrivals
  obtain ⟨made, hmade, huses, hall⟩ :=
    Host.outcome_heap maxFrame (arrived arrivals) (Host.start registry state maxFreed)
  rw [← hended] at huses hall
  have hempty := Heap.Consistent.empty maxFreed
  refine ⟨hresult, congrArg Host.heap hhost, congrArg (fun host => host.state.1) hhost,
    _, made, congrArg (fun host => host.state.2) hhost, hmade, huses.heap, huses.freed, ?_,
    fun ref hmem => ?_, fun summary hok => ?_⟩
  · rw [huses.freed]
    exact hempty.nodup_removals made
  · rw [huses.freed] at hmem
    rw [huses.heap]
    exact hempty.not_detached_of_mem_removals hmem
  · obtain ⟨hfrees, heq⟩ := hall summary hok
    refine ⟨hfrees.trans (huses.frees.trans ?_), heq⟩
    exact Nat.zero_add _

end Session

end TraceRelay
