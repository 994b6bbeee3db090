import TraceRelay.Proofs.Heap.Remembered
import TraceRelay.Proofs.Session.Deliveries

/-!
# References and ends of objects among actions

An action refers to an object with a token among the arguments of a record, or with the token of the
object that it describes. It ends an object with a token that is reported as freed. The calls of the
heap that the action makes do the same, and none of them fails if the action succeeds.

## Main definitions

* `Action.Refers`, `Action.Frees` : an action refers to the object of an id, or ends it.

## Main results

* `Action.refers_iff`, `Action.frees_iff` : what the calls of the heap do.
* `Host.answers_actAll` : no call of the heap fails if all actions succeed.
-/

namespace TraceRelay

namespace Action

/-- An action refers to the object of an id: a record names it, or data describes it. -/
inductive Refers : Action → ObjectId → Prop where
  | argument {ordering : UInt64} {r : Record} {v : Value} {t : Token} {id : ObjectId}
    (hv : v ∈ r.args) (ht : v.token? = some t) (hnames : t.Names id) :
    Refers (.deliver ordering r) id
  | subject {t : Token} {data : ObjectInfo} {id : ObjectId} (hnames : t.Names id) :
    Refers (.attach t data) id

/-- An action reports that the object of an id is gone. -/
def Frees (a : Action) (id : ObjectId) : Prop := ∃ t, a = .free t ∧ t.Names id

variable {a : Action} {c : HeapCall} {id : ObjectId}

/-- Only the end of an object removes its id. -/
theorem free_of_removes (hmem : c ∈ a.heapCalls) (hremoves : c.Removes id) :
    ∃ t, a = .free t ∧ t.Names id := by
  obtain ⟨t, rfl, hnull, hid⟩ := hremoves
  cases a with
  | deliver ordering r =>
    obtain ⟨t', -, heq⟩ := List.mem_map.1 hmem
    cases heq
  | free t' =>
    cases List.mem_singleton.1 hmem
    exact ⟨t, rfl, hnull, hid⟩
  | bind => cases hmem
  | attach => cases List.mem_singleton.1 hmem

theorem frees_iff : a.Frees id ↔ ∃ c ∈ a.heapCalls, c.Removes id := by
  constructor
  · rintro ⟨t, rfl, hnull, hid⟩
    exact ⟨.remove t, List.mem_singleton_self _, t, rfl, hnull, hid⟩
  · rintro ⟨c, hmem, hremoves⟩
    exact free_of_removes hmem hremoves

theorem refers_iff : a.Refers id ↔ ∃ c ∈ a.heapCalls, c.Refers id := by
  constructor
  · intro h
    cases h with
    | @argument ordering r v t _ hv ht hnames =>
      exact ⟨.resolve t, List.mem_map_of_mem (List.mem_filterMap.2 ⟨v, hv, ht⟩), t, rfl, hnames⟩
    | @subject t data _ hnames => exact ⟨.attach t data, List.mem_singleton_self _, t, rfl, hnames⟩
  · rintro ⟨c, hmem, t, hnamed, hnames⟩
    cases a with
    | deliver ordering r =>
      obtain ⟨t', ht', rfl⟩ := List.mem_map.1 hmem
      obtain ⟨v, hv, ht⟩ := List.mem_filterMap.1 ht'
      cases hnamed
      exact .argument hv ht hnames
    | free t' =>
      cases List.mem_singleton.1 hmem
      cases hnamed
    | bind => cases hmem
    | attach t' data =>
      cases List.mem_singleton.1 hmem
      cases hnamed
      exact .subject hnames

theorem exists_frees_iff {as : List Action} :
    (∃ a ∈ as, a.Frees id) ↔ ∃ c ∈ as.flatMap heapCalls, c.Removes id := by
  simp only [frees_iff, List.mem_flatMap]
  exact ⟨fun ⟨a, ha, c, hc, h⟩ => ⟨c, ⟨a, ha, hc⟩, h⟩, fun ⟨c, ⟨a, ha, hc⟩, h⟩ => ⟨a, ha, c, hc, h⟩⟩

theorem exists_refers_iff {as : List Action} :
    (∃ a ∈ as, a.Refers id) ↔ ∃ c ∈ as.flatMap heapCalls, c.Refers id := by
  simp only [refers_iff, List.mem_flatMap]
  exact ⟨fun ⟨a, ha, c, hc, h⟩ => ⟨c, ⟨a, ha, hc⟩, h⟩, fun ⟨c, ⟨a, ha, hc⟩, h⟩ => ⟨a, ha, c, hc, h⟩⟩

end Action

/-! ### Calls that do not fail -/

namespace Heap

theorem answers_append {h : Heap} {calls calls' : List HeapCall} :
    h.Answers (calls ++ calls') ↔ h.Answers calls ∧ (h.after calls).Answers calls' := by
  induction calls generalizing h with
  | nil => exact (and_iff_right trivial).symm
  | cons c calls ih => rw [List.cons_append, Answers, Answers, ih, and_assoc, after_cons]

end Heap

/-- No call fails if all values are resolved. -/
theorem Argument.answers_of_resolveAll {vs : List Value} {args : List Argument} {h h' : Heap}
    (hok : resolveAll vs h = .ok args h') : h.Answers (calls vs) := by
  induction vs generalizing h h' args with
  | nil => trivial
  | cons v vs ih =>
    obtain ⟨arg, h₁, hfirst, hrest⟩ := Step.bind_eq_ok_iff.mp hok
    obtain ⟨args', h₂, hvs, -⟩ := Step.bind_eq_ok_iff.mp hrest
    have hheap := heap_resolve v h
    rw [hfirst, Step.final] at hheap
    rw [calls_cons, Heap.answers_append, ← hheap]
    refine ⟨?_, ih hvs⟩
    cases hv : v.token? with
    | none => trivial
    | some t =>
      rw [resolve_of_some hv] at hfirst
      obtain ⟨found, _, hfound, -⟩ := Step.bind_eq_ok_iff.mp hfirst
      refine ⟨⟨found, ?_⟩, trivial⟩
      rw [Heap.answer, show Heap.call (.resolve t) h = _ from hfound]

variable {σ : Type}

/-- **No call of the heap fails** if all actions succeed. -/
theorem Host.answers_actAll {as : List Action} {host host' : Host σ}
    (hok : actAll as host = .ok () host') : host.heap.Answers (as.flatMap Action.heapCalls) := by
  induction as generalizing host with
  | nil => trivial
  | cons a as ih =>
    obtain ⟨⟨⟩, host₁, hfirst, hrest⟩ := Step.bind_eq_ok_iff.mp hok
    have hone : actAll [a] host = .ok () host₁ := (Step.bind_of_ok hfirst).trans rfl
    have hheap := heap_actAll hone
    rw [List.flatMap_singleton] at hheap
    rw [List.flatMap_cons, Heap.answers_append, ← hheap]
    refine ⟨?_, ih hrest⟩
    cases a with
    | deliver ordering r =>
      rw [← deliver_eq_act, deliver] at hfirst
      split at hfirst
      · cases hfirst
      split at hfirst
      · cases hfirst
      next args heap hargs => exact Argument.answers_of_resolveAll hargs
    | free t => exact ⟨⟨_, rfl⟩, trivial⟩
    | bind => trivial
    | attach t data =>
      rw [← attach_eq_act, attach] at hfirst
      split at hfirst
      next found heap hattach =>
        refine ⟨⟨found, ?_⟩, trivial⟩
        rw [Heap.answer, show Heap.call (.attach t data) host.heap = _ from hattach]
      · cases hfirst

end TraceRelay
