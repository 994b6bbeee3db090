import TraceRelay.Proofs.Heap.Identity

/-!
# Which objects go

A call that removes an id ends its live object, if it has one. Whatever calls are made of a heap, no
object goes twice, as an id never stands again for an object that it has ceased to stand for, and
none of the objects that go is detached, as detached objects are not live.

## Main definitions

* `Heap.removals` : the objects that go during calls, in order.

## Main results

* `Heap.Consistent.nodup_removals` : no object goes twice.
* `Heap.Consistent.not_detached_of_mem_removals` : no detached object goes.
-/

namespace TraceRelay

namespace Heap

/-- The object that goes at a call. -/
def removed? (h : Heap) : HeapCall → Option ObjectRef
  | .remove t => (h.remove t).1
  | _ => none

/-- The objects that go during calls, in order. -/
def removals (h : Heap) : List HeapCall → List ObjectRef
  | [] => []
  | c :: calls => (h.removed? c).toList ++ (h.next c).removals calls

variable {h : Heap} {c : HeapCall} {ref : ObjectRef}

theorem removals_append (h : Heap) (calls calls' : List HeapCall) :
    h.removals (calls ++ calls') = h.removals calls ++ (h.after calls).removals calls' := by
  induction calls generalizing h with
  | nil => rfl
  | cons c calls ih => rw [List.cons_append, removals, removals, ih, List.append_assoc, after_cons]

theorem removals_eq_nil {calls : List HeapCall} (hkeeps : ∀ c ∈ calls, ∀ t, c ≠ .remove t)
    (h : Heap) : h.removals calls = [] := by
  induction calls generalizing h with
  | nil => rfl
  | cons c calls ih =>
    have hnone : h.removed? c = none := by
      cases c with
      | remove t => exact absurd rfl (hkeeps _ List.mem_cons_self t)
      | resolve | attach | get | lookup => rfl
    rw [removals, hnone, ih fun c hc => hkeeps c (List.mem_cons_of_mem _ hc)]
    rfl

/-- The object that goes is the live one of the id that is removed. -/
theorem live_of_removed? (hremoved : h.removed? c = some ref) :
    ∃ id, c.Removes id ∧ h.standing id = .live ref := by
  cases c with
  | resolve | attach | get | lookup => cases hremoved
  | remove t =>
    simp only [removed?, remove] at hremoved
    split at hremoved
    · cases hremoved
    next ht =>
      refine ⟨t.objectId, ⟨t, rfl, Bool.eq_false_iff.mpr ht, rfl⟩, standing_eq_live_iff.mpr ?_⟩
      simp only [vacate] at hremoved
      split at hremoved
      · cases hremoved
      · exact hremoved

theorem exists_live_of_mem_removals {calls : List HeapCall} (hmem : ref ∈ h.removals calls) :
    ∃ before behind id, calls = before ++ behind ∧ (h.after before).standing id = .live ref := by
  induction calls generalizing h with
  | nil => cases hmem
  | cons c calls ih =>
    rw [removals, List.mem_append, Option.mem_toList] at hmem
    rcases hmem with hremoved | hmem
    · obtain ⟨id, -, hlive⟩ := live_of_removed? hremoved
      exact ⟨[], c :: calls, id, rfl, hlive⟩
    · obtain ⟨before, behind, id, rfl, hlive⟩ := ih hmem
      exact ⟨c :: before, behind, id, rfl, hlive⟩

namespace Consistent

/-- An object that has gone does not go again. -/
theorem not_mem_removals (hc : h.Consistent) (hremoved : h.removed? c = some ref)
    (calls : List HeapCall) : ref ∉ (h.next c).removals calls := by
  intro hmem
  obtain ⟨id, hremoves, hlive⟩ := live_of_removed? hremoved
  obtain ⟨handle, hx, -⟩ := hc.identity?_of_live hlive
  have hx' := hc.identity?_next c hx
  have hne : ((h.next c).standing id).ref? ≠ some ref := by
    have hmoves := hc.standing_next c id
    rw [hlive] at hmoves
    generalize (h.next c).standing id = s at hmoves ⊢
    cases hmoves with
    | stays hkeeps => exact absurd rfl (hkeeps hremoves ref)
    | ended => exact nofun
    | vanished => exact nofun
  -- The id under which the object would go later is the one that has ceased to stand for it.
  obtain ⟨before, -, id', -, hlive'⟩ := exists_live_of_mem_removals hmem
  obtain ⟨handle', hx'', -⟩ := ((hc.next c).after before).identity?_of_live hlive'
  cases hx''.symm.trans ((hc.next c).identity?_after hx' before)
  refine (hc.next c).ref?_after_ne hx' hne before ?_
  rw [hlive']
  rfl

/-- **No object goes twice**, whatever calls are made. -/
theorem nodup_removals (hc : h.Consistent) (calls : List HeapCall) : (h.removals calls).Nodup := by
  induction calls generalizing h with
  | nil => exact .nil
  | cons c calls ih =>
    rw [removals]
    cases hremoved : h.removed? c with
    | none => exact ih (hc.next c)
    | some ref => exact List.nodup_cons.mpr ⟨hc.not_mem_removals hremoved calls, ih (hc.next c)⟩

/-- **No detached object goes.** -/
theorem not_detached_of_mem_removals (hc : h.Consistent) {calls : List HeapCall}
    (hmem : ref ∈ h.removals calls) :
    ∃ o, (h.after calls).object? ref = some o ∧ o.isDetached = false := by
  obtain ⟨before, behind, id, rfl, hlive⟩ := exists_live_of_mem_removals hmem
  obtain ⟨handle, hx, hplace, -⟩ := (hc.after before).identity?_of_live hlive
  have hx' := (hc.after before).identity?_after hx behind
  rw [← after_append] at hx'
  obtain ⟨o, ho, -, rfl⟩ := identity?_eq_some_iff.mp hx'
  exact ⟨o, ho, by simpa [Replica.isDetached] using hplace⟩

end Consistent

end Heap

end TraceRelay
