import TraceRelay.Analysis.Invocation
import TraceRelay.Proofs.Heap.Identity

/-!
# Arguments

The tokens among the values of a record are resolved one after the other, each by a call of the
heap.

## Main definitions

* `Argument.calls` : the calls of the heap that values make.
* `Argument.Stands` : an argument is what its value stands for in a heap.

## Main results

* `Argument.heap_resolveAll` : what values do to the heap.
* `Argument.resolveAll_stands` : all arguments stand for their values in the heap that comes out.
* `Heap.Consistent.not_freed_after` : an id is not remembered as gone before it is removed.
-/

namespace TraceRelay

namespace Heap

variable {h : Heap} {t : Token} {id : ObjectId}

/-- When a token is resolved, ids go on to stand for the objects that they stand for. -/
theorem Consistent.ref?_of_resolves (hc : h.Consistent) {ref : ObjectRef}
    (href : (h.standing id).ref? = some ref) {r : Outcome} (hresolves : Resolves t h r) :
    ((Step.final r).standing id).ref? = some ref := by
  cases hresolves with
  | known => exact href
  | detached hfreed =>
    rw [Step.final, standing_detach hfreed]
    split
    · next heq =>
      rw [heq, hfreed] at href
      cases href
    · exact href
  | @settled room index vacant hunknown hroom hvacant =>
    rw [Step.final, (hc.room hroom).standing_settle hvacant, hc.standing_room hroom]
    split
    · next heq =>
      rw [heq, hunknown] at href
      cases href
    · exact href
  | exhausted => exact href

/-- An id is not remembered as gone before it is removed. -/
theorem Consistent.not_freed_after (hc : h.Consistent) (hs : ∀ found, h.standing id ≠ .freed found)
    {calls : List HeapCall} (hkeeps : ∀ c ∈ calls, ¬ c.Removes id) :
    ∀ found, (h.after calls).standing id ≠ .freed found := by
  induction calls generalizing h with
  | nil => exact hs
  | cons c calls ih =>
    refine ih (hc.next c) ?_ fun c' hc' => hkeeps c' (List.mem_cons_of_mem _ hc')
    have hmoves := hc.standing_next c id
    generalize h.standing id = s at hmoves hs
    generalize (h.next c).standing id = s' at hmoves ⊢
    cases hmoves with
    | stays => exact hs
    | settled => exact fun _ => nofun
    | detached => exact absurd rfl (hs none)
    | ended hremoves | vanished hremoves | buried hremoves =>
      exact absurd hremoves (hkeeps c List.mem_cons_self)
    | forgotten => exact fun _ => nofun

end Heap

namespace Argument

variable {v : Value} {t : Token}

theorem resolve_of_none (hv : v.token? = none) : resolve v = pure (.plain v hv) := by
  unfold resolve
  split
  · rfl
  next hsome => cases hv.symm.trans hsome

theorem resolve_of_some (hv : v.token? = some t) :
    resolve v = Heap.resolve t >>= fun found => pure (.object found) := by
  unfold resolve
  split
  next hnone => cases hv.symm.trans hnone
  next hsome =>
    cases hv.symm.trans hsome
    rfl

/-- The calls that resolve the tokens among values. -/
def calls (vs : List Value) : List HeapCall := (vs.filterMap Value.token?).map .resolve

theorem calls_cons (v : Value) (vs : List Value) :
    calls (v :: vs) = (v.token?.map HeapCall.resolve).toList ++ calls vs := by
  cases hv : v.token? <;> simp [calls, hv]

/-- A value makes a call of the heap if it is a token. -/
theorem heap_resolve (v : Value) (h : Heap) :
    Step.final (resolve v h) = h.after (v.token?.map HeapCall.resolve).toList := by
  cases hv : v.token? with
  | none =>
    rw [resolve_of_none hv]
    rfl
  | some t =>
    rw [resolve_of_some hv]
    change _ = Step.final (Heap.resolve t h)
    cases ht : Heap.resolve t h with
    | ok found h' =>
      rw [Step.bind_of_ok ht]
      rfl
    | error e h' =>
      rw [Step.bind_of_error ht]
      rfl

/-- Values make calls of the heap until one of them fails. -/
theorem heap_resolveAll (vs : List Value) (h : Heap) :
    ∃ made, made <+: calls vs ∧ Step.final (resolveAll vs h) = h.after made ∧
      ∀ args h', resolveAll vs h = .ok args h' → made = calls vs := by
  induction vs generalizing h with
  | nil => exact ⟨[], List.nil_prefix, rfl, fun _ _ _ => rfl⟩
  | cons v vs ih =>
    have hheap := heap_resolve v h
    rw [calls_cons, resolveAll]
    cases hv : resolve v h with
    | error e h₁ =>
      rw [hv] at hheap
      rw [Step.bind_of_error hv]
      exact ⟨_, List.prefix_append _ _, hheap, fun _ _ => nofun⟩
    | ok arg h₁ =>
      rw [hv] at hheap
      obtain ⟨made, hmade, hrest, hall⟩ := ih h₁
      rw [Step.bind_of_ok hv]
      refine ⟨_ ++ made, (List.prefix_append_right_inj _).mpr hmade, ?_, fun args h' hok => ?_⟩
      · rw [Heap.after_append, ← hheap]
        refine Eq.trans ?_ hrest
        cases hvs : resolveAll vs h₁ with
        | ok args h₂ =>
          rw [Step.bind_of_ok hvs]
          rfl
        | error e h₂ => rw [Step.bind_of_error hvs]
      · obtain ⟨args', h₂, hvs, -⟩ := Step.bind_eq_ok_iff.mp hok
        rw [hall args' h₂ hvs]

/-! ### What arguments stand for -/

/-- An argument is what its value stands for in a heap. -/
inductive Stands (h : Heap) : Value → Argument → Prop where
  | plain {v : Value} (hv : v.token? = none) : Stands h v (.plain v hv)
  | null {v : Value} {t : Token} (hv : v.token? = some t) (ht : t.isNull = true) :
    Stands h v (.object none)
  | object {v : Value} {t : Token} {ref : ObjectRef} (hv : v.token? = some t)
      (ht : t.isNull = false) (href : (h.standing t.objectId).ref? = some ref) :
    Stands h v (.object (some ref))

theorem Stands.mono {h h' : Heap} {v : Value} {arg : Argument} (hstands : Stands h v arg)
    (hkeeps : ∀ id ref, (h.standing id).ref? = some ref → (h'.standing id).ref? = some ref) :
    Stands h' v arg := by
  cases hstands with
  | plain hv => exact .plain hv
  | null hv ht => exact .null hv ht
  | object hv ht href => exact .object hv ht (hkeeps _ _ href)

/-- A value is resolved to what it stands for, and no id changes what it stood for before. -/
theorem resolve_stands {h h' : Heap} (hc : h.Consistent) {v : Value} {arg : Argument}
    (hok : resolve v h = .ok arg h') :
    h'.Consistent ∧ Stands h' v arg ∧
      ∀ id ref, (h.standing id).ref? = some ref → (h'.standing id).ref? = some ref := by
  have hheap := heap_resolve v h
  rw [hok] at hheap
  have hc' : h'.Consistent := by
    rw [show h' = _ from hheap]
    exact hc.after _
  refine ⟨hc', ?_⟩
  cases hv : v.token? with
  | none =>
    rw [resolve_of_none hv] at hok
    cases hok
    exact ⟨.plain hv, fun _ _ => id⟩
  | some t =>
    rw [resolve_of_some hv] at hok
    obtain ⟨found, h₁, hfound, hpure⟩ := Step.bind_eq_ok_iff.mp hok
    obtain ⟨rfl, rfl⟩ := Step.pure_eq_ok_iff.mp hpure
    cases ht : t.isNull with
    | true =>
      rw [Heap.resolve, if_pos ht] at hfound
      cases hfound
      exact ⟨.null hv ht, fun _ _ => id⟩
    | false =>
      have hresolves := Heap.resolve_resolves ht h
      rw [hfound] at hresolves
      obtain ⟨ref, rfl, -, href⟩ := hc.tick.answer_of_resolves hresolves
      exact ⟨.object hv ht href, fun id ref' href' => hc.tick.ref?_of_resolves href' hresolves⟩

/-- **All arguments stand for their values** in the heap that comes out. -/
theorem resolveAll_stands {h h' : Heap} (hc : h.Consistent) {vs : List Value}
    {args : List Argument} (hok : resolveAll vs h = .ok args h') :
    List.Forall₂ (Stands h') vs args := by
  -- What an id stands for at any time it stands for until all values are resolved.
  suffices hall : List.Forall₂ (Stands h') vs args ∧
      ∀ id ref, (h.standing id).ref? = some ref → (h'.standing id).ref? = some ref from hall.1
  induction vs generalizing h args with
  | nil =>
    obtain ⟨rfl, rfl⟩ := Step.pure_eq_ok_iff.mp hok
    exact ⟨.nil, fun _ _ => id⟩
  | cons v vs ih =>
    obtain ⟨arg, h₁, hfirst, hrest⟩ := Step.bind_eq_ok_iff.mp hok
    obtain ⟨args', h₂, hvs, hpure⟩ := Step.bind_eq_ok_iff.mp hrest
    obtain ⟨rfl, rfl⟩ := Step.pure_eq_ok_iff.mp hpure
    obtain ⟨hc₁, hstands, hkeeps₁⟩ := resolve_stands hc hfirst
    obtain ⟨hargs, hkeeps₂⟩ := ih hc₁ hvs
    exact ⟨.cons (hstands.mono hkeeps₂) hargs,
      fun id ref href => hkeeps₂ id ref (hkeeps₁ id ref href)⟩

end Argument

end TraceRelay
