import TraceRelay.Proofs.Session.Frees

/-!
# Which records reach their analyses

As long as nothing fails, each record reaches the analysis of its method, in the order in which
records are asked for. The heap that the analysis is shown is the one after all calls that were
asked for until then.

## Main definitions

* `Round.handled?`, `Round.delivery?`, `Action.record?` : the records among rounds and actions.
* `Invocation.Carries` : a call of an analysis carries a record.

## Main results

* `Host.actAll_carries` : the records of actions reach their analyses.
* `Host.delivery_of_split` : the heap that an analysis is shown.
-/

namespace TraceRelay

variable {σ : Type}

/-! ### Records -/

/-- A record that went to an analysis, with the heap as it was shown. -/
def Round.handled? : Round → Option (Heap × Invocation)
  | handled _ heap i => some (heap, i)
  | _ => none

/-- A record that went to an analysis, with the position of the analysis. -/
def Round.delivery? : Round → Option (Nat × Heap × Invocation)
  | handled position heap i => some (position, heap, i)
  | _ => none

theorem Round.map_delivery? (rounds : List Round) :
    (rounds.filterMap Round.delivery?).map (·.2) = rounds.filterMap Round.handled? := by
  rw [List.map_filterMap]
  refine List.filterMap_congr fun round _ => ?_
  cases round <;> rfl

/-- A record that is to be delivered. -/
def Action.record? : Action → Option (UInt64 × Record)
  | deliver ordering r => some (ordering, r)
  | _ => none

/-- A call of an analysis carries a record: the arguments stand for the values of the record in the
heap that is shown. -/
structure Invocation.Carries (heap : Heap) (i : Invocation) (ordering : UInt64) (r : Record) :
    Prop where
  methodId : i.methodId = r.method
  ordering : i.ordering = ordering
  args : List.Forall₂ (Argument.Stands heap) r.args i.args

theorem getElem?_of_forall₂ {α β : Type} {R : α → β → Prop} {xs : List α} {ys : List β}
    (h : List.Forall₂ R xs ys) {n : Nat} {x : α} (hx : xs[n]? = some x) :
    ∃ y, ys[n]? = some y ∧ R x y := by
  obtain ⟨hlt, rfl⟩ := List.getElem?_eq_some_iff.1 hx
  have hlt' : n < ys.length := h.length_eq ▸ hlt
  exact ⟨ys[n], List.getElem?_eq_getElem hlt', h.get hlt hlt'⟩

/-- An argument that names an id is the object that the id stands for. -/
theorem Invocation.Carries.object {heap : Heap} {i : Invocation} {ordering : UInt64} {r : Record}
    (h : i.Carries heap ordering r) {k : Nat} {v : Value} (hv : r.args[k]? = some v) {t : Token}
    (ht : v.token? = some t) {id : ObjectId} (hnames : t.Names id) :
    ∃ ref, i.args[k]? = some (.object (some ref)) ∧ (heap.standing id).ref? = some ref := by
  obtain ⟨arg, harg, hstands⟩ := getElem?_of_forall₂ h.args hv
  obtain ⟨hnull, rfl⟩ := hnames
  cases hstands with
  | plain hnone => cases ht.symm.trans hnone
  | null ht' hnull' =>
    cases ht.symm.trans ht'
    rw [hnull] at hnull'
    cases hnull'
  | object ht' _ href =>
    cases ht.symm.trans ht'
    exact ⟨_, harg, href⟩

namespace Host

variable {host host' : Host σ}

/-- What the analyses are told of a record. -/
theorem tells_deliver (ordering : UInt64) (r : Record) (host : Host σ) :
    host.tells (.deliver ordering r) = [] ∨ ∃ b heap args,
      host.registry.binding? r.method = some b ∧ host.tells (.deliver ordering r) =
        [.handled b.position heap
          { method := b.method, methodId := r.method, ordering, args }] := by
  unfold tells
  dsimp only
  split
  · exact .inl rfl
  next b hbinding =>
    split
    · exact .inl rfl
    next args heap _ => exact .inr ⟨b, heap, args, hbinding, rfl⟩

/-- What the analyses are told of a record that was delivered. -/
theorem tells_of_deliver {ordering : UInt64} {r : Record}
    (hok : act (.deliver ordering r) host = .ok () host') :
    ∃ b args, host.registry.binding? r.method = some b ∧
      Argument.resolveAll r.args host.heap = .ok args host'.heap ∧
      host.tells (.deliver ordering r) = [.handled b.position host'.heap
        { method := b.method, methodId := r.method, ordering, args }] := by
  obtain ⟨b, analysis, args, heap, state, hroute, hargs, -, rfl⟩ :=
    exists_of_deliver ((deliver_eq_act ..).trans hok)
  have hbinding := (Registry.route?_eq_some_iff.1 hroute).1
  exact ⟨b, args, hbinding, hargs, by simp only [tells, hbinding, hargs]⟩

/-- **One record** that was delivered. -/
theorem act_deliver (h : host.heap.Consistent) {ordering : UInt64} {r : Record}
    (hok : act (.deliver ordering r) host = .ok () host') :
    ∃ position i, host.tells (.deliver ordering r) = [.handled position host'.heap i] ∧
      i.Carries host'.heap ordering r := by
  obtain ⟨b, args, -, hargs, htells⟩ := tells_of_deliver hok
  exact ⟨_, _, htells, rfl, rfl, Argument.resolveAll_stands h hargs⟩

/-- An action of another kind delivers no record. -/
theorem handled_tells_of_none {a : Action} (ha : a.record? = none) (host : Host σ) :
    (host.tells a).filterMap Round.handled? = [] := by
  cases a with
  | deliver => cases ha
  | bind | attach => rfl
  | free t =>
    unfold tells
    dsimp only
    split <;> rfl

/-- Each action leaves the heap consistent. -/
theorem consistent_act (h : host.heap.Consistent) (a : Action) :
    (Step.final (act a host)).heap.Consistent := by
  obtain ⟨made, -, huses, -⟩ := act_heap a host
  rw [huses.heap]
  exact h.after made

theorem consistent_actAll (h : host.heap.Consistent) (as : List Action) :
    (Step.final (actAll as host)).heap.Consistent := by
  obtain ⟨made, -, huses, -⟩ := actAll_heap as host
  rw [huses.heap]
  exact h.after made

/-- The heap after actions of which none failed. -/
theorem heap_actAll {as : List Action} (hok : Host.actAll as host = .ok () host') :
    host'.heap = host.heap.after (as.flatMap Action.heapCalls) := by
  obtain ⟨made, -, huses, hall⟩ := actAll_heap as host
  rw [hok] at huses
  rw [← hall host' hok]
  exact huses.heap

/-- **Records reach their analyses**, in the order in which they are asked for. -/
theorem actAll_carries {as : List Action} (h : host.heap.Consistent)
    (hok : actAll as host = .ok () host') :
    List.Forall₂ (fun (asked : UInt64 × Record) (shown : Heap × Invocation) =>
        shown.2.Carries shown.1 asked.1 asked.2)
      (as.filterMap Action.record?) ((host.tellsAll as).filterMap Round.handled?) := by
  induction as generalizing host with
  | nil => exact .nil
  | cons a as ih =>
    obtain ⟨⟨⟩, host₁, hfirst, hrest⟩ := Step.bind_eq_ok_iff.mp hok
    have hheap := consistent_act h a
    rw [hfirst] at hheap
    have htail := ih hheap hrest
    simp only [tellsAll, hfirst, List.filterMap_append]
    cases ha : a.record? with
    | none =>
      rw [List.filterMap_cons_none ha, handled_tells_of_none ha]
      exact htail
    | some asked =>
      cases a with
      | deliver ordering r =>
        cases ha
        obtain ⟨position, i, htells, hcarries⟩ := act_deliver h hfirst
        rw [htells]
        exact .cons hcarries htail
      | free | bind | attach => cases ha

theorem tellsAll_append {as : List Action} (hok : actAll as host = .ok () host')
    (bs : List Action) : host.tellsAll (as ++ bs) = host.tellsAll as ++ host'.tellsAll bs := by
  induction as generalizing host with
  | nil =>
    cases hok
    rfl
  | cons a as ih =>
    obtain ⟨⟨⟩, host₁, hfirst, hrest⟩ := Step.bind_eq_ok_iff.mp hok
    simp only [List.cons_append, tellsAll, hfirst, ih hrest, List.append_assoc]

theorem actAll_concat {as : List Action} {a : Action} {host₁ : Host σ}
    (hok : actAll as host = .ok () host₁) (hone : act a host₁ = .ok () host') :
    actAll (as ++ [a]) host = .ok () host' := by
  rw [actAll_append]
  exact (Step.bind_of_ok hok).trans ((Step.bind_of_ok hone).trans rfl)

/-- **An action among others**: what comes before it, the action itself, and what comes behind. -/
theorem actAll_split {before behind : List Action} {a : Action}
    (hok : actAll (before ++ a :: behind) host = .ok () host') :
    ∃ host₁ host₂, actAll before host = .ok () host₁ ∧ act a host₁ = .ok () host₂ ∧
      actAll behind host₂ = .ok () host' ∧
      host.tellsAll (before ++ a :: behind) =
        host.tellsAll before ++ (host₁.tells a ++ host₂.tellsAll behind) := by
  have hsplit := hok
  rw [actAll_append] at hsplit
  obtain ⟨⟨⟩, host₁, hbefore, hrest⟩ := Step.bind_eq_ok_iff.mp hsplit
  obtain ⟨⟨⟩, host₂, hone, hbehind⟩ := Step.bind_eq_ok_iff.mp hrest
  refine ⟨host₁, host₂, hbefore, hone, hbehind, ?_⟩
  simp only [tellsAll_append hbefore, tellsAll, hone]

/-- **The heap that an analysis is shown** with a record is the one after all calls that were asked
for until then. -/
theorem delivery_of_split {before behind : List Action} {ordering : UInt64} {r : Record}
    (h : host.heap.Consistent)
    (hok : actAll (before ++ .deliver ordering r :: behind) host = .ok () host') :
    ∃ position i, ((host.tellsAll (before ++ .deliver ordering r :: behind)).filterMap
        Round.delivery?)[(before.filterMap Action.record?).length]? =
      some (position, host.heap.after
        ((before ++ [Action.deliver ordering r]).flatMap Action.heapCalls), i) ∧
      i.Carries (host.heap.after
        ((before ++ [Action.deliver ordering r]).flatMap Action.heapCalls)) ordering r := by
  obtain ⟨host₁, host₂, hbefore, hdeliver, -, htold⟩ := actAll_split hok
  have hheap : host₁.heap.Consistent := by
    simpa only [hbefore, Step.final] using consistent_actAll h before
  obtain ⟨position, i, htells, hcarries⟩ := act_deliver hheap hdeliver
  have hlength := (actAll_carries h hbefore).length_eq
  rw [← Round.map_delivery?, List.length_map] at hlength
  rw [← heap_actAll (actAll_concat hbefore hdeliver)]
  refine ⟨position, i, ?_, hcarries⟩
  rw [htold, htells, List.filterMap_append, hlength, List.getElem?_append_right (Nat.le_refl _),
    Nat.sub_self]
  rfl

end Host

end TraceRelay
