import TraceRelay.Proofs.Heap.Identity

/-!
# Looking at objects

A token is looked up without an object being made. The lookup goes by the object id alone and finds
the live object of the id, which is the one that the token would resolve to. The null token, too,
has an object id, that of a token whose other bits are set: it resolves to nothing, and yet finds
the live object of that id when it is looked up.

## Main definitions

* `Heap.IsLive` : the handle of an object finds it.

## Main results

* `Heap.Consistent.isLive_iff` : the live objects are those for which some id stands.
* `Heap.Consistent.lookup?_eq_some_iff` : what a lookup finds.
* `Heap.Consistent.resolves_to_live_iff` : which live object a token resolves to.
* `Heap.lookup_finds_resolved` : how lookups agree with resolving, after any calls.
* `Heap.lookup_null_finds` : the null token finds an object to which it does not resolve.
-/

namespace TraceRelay

namespace Heap

/-- An object is live as long as its handle finds it. -/
def IsLive (h : Heap) (ref : ObjectRef) : Prop :=
  ∃ o, h.object? ref = some o ∧ h.get? o.handle = some ref

variable {h : Heap} {t : Token} {ref : ObjectRef}

theorem IsLive.lt (hlive : h.IsLive ref) : ref < h.objects.size := by
  obtain ⟨o, ho, -⟩ := hlive
  exact (Array.getElem?_eq_some_iff.mp ho).1

theorem get?_eq_some_iff {handle : Handle} :
    h.get? handle = some ref ↔
      h.cells[handle.index.toNat]? = some ⟨handle.generation, some ref⟩ := by
  rw [get?, Option.bind_eq_bind, Option.bind_eq_some_iff]
  constructor
  · rintro ⟨⟨generation, occupant⟩, hcell, hfound⟩
    split at hfound
    next heq =>
      rw [hcell]
      exact congrArg some (congr (congrArg Cell.mk heq) hfound)
    · cases hfound
  · exact fun hcell => ⟨_, hcell, if_pos rfl⟩

namespace Consistent

/-- An object is live under its own id. -/
theorem isLive_of_standing (hc : h.Consistent) {id : ObjectId} (hs : h.standing id = .live ref) :
    h.IsLive ref ∧ ∃ o, h.object? ref = some o ∧ o.id = id := by
  obtain ⟨handle, hx, -, hget⟩ := hc.identity?_of_live hs
  obtain ⟨o, ho, hid, rfl⟩ := identity?_eq_some_iff.mp hx
  exact ⟨⟨o, ho, hget⟩, o, ho, hid⟩

/-- The id of a live object stands for it. -/
theorem standing_of_isLive (hc : h.Consistent) (hlive : h.IsLive ref) {o : Replica}
    (ho : h.object? ref = some o) : h.standing o.id = .live ref := by
  obtain ⟨o', ho', hget⟩ := hlive
  cases ho.symm.trans ho'
  have hcell := get?_eq_some_iff.mp hget
  obtain ⟨id, hx, hindex⟩ := hc.occupied_live hcell
  cases hx.symm.trans (identity?_eq_some_iff.mpr ⟨o, ho, rfl, rfl⟩)
  exact hc.standing_eq_live_iff.mpr ⟨_, _, hindex, hcell⟩

/-- The live objects are those for which some id stands. -/
theorem isLive_iff (hc : h.Consistent) : h.IsLive ref ↔ ∃ id, h.standing id = .live ref := by
  constructor
  · intro hlive
    obtain ⟨o, ho, -⟩ := id hlive
    exact ⟨o.id, hc.standing_of_isLive hlive ho⟩
  · rintro ⟨id, hs⟩
    exact (hc.isLive_of_standing hs).1

/-- A lookup finds the live object that has the object id of the token. -/
theorem lookup?_eq_some_iff (hc : h.Consistent) :
    h.lookup? t = some ref ↔ ∃ o, h.object? ref = some o ∧ o.id = t.objectId ∧ h.IsLive ref := by
  rw [lookup?, ← Heap.standing_eq_live_iff]
  constructor
  · intro hs
    obtain ⟨hlive, o, ho, hid⟩ := hc.isLive_of_standing hs
    exact ⟨o, ho, hid, hlive⟩
  · rintro ⟨o, ho, hid, hlive⟩
    rw [← hid]
    exact hc.standing_of_isLive hlive ho

/-- A token resolves to an object that is already live exactly if the id stands for it. -/
theorem resolves_to_live_iff (hc : h.Consistent) (ht : t.isNull = false) :
    h.answer (.resolve t) = .ok (some ref) ∧ h.IsLive ref ↔ h.standing t.objectId = .live ref := by
  constructor
  · rintro ⟨hfound, hlive⟩
    obtain ⟨ref', heq, href, -⟩ := hc.call_named rfl ht hfound
    cases heq
    -- The object is not a new one, so that the id stands for it already.
    have hknown : (h.standing t.objectId).ref? = some ref := by
      cases hs : (h.standing t.objectId).ref? with
      | none => exact absurd (href.trans (by rw [hs]; rfl)) (Nat.ne_of_lt hlive.lt)
      | some known => rw [href, hs]; rfl
    obtain ⟨id, hs⟩ := hc.isLive_iff.mp hlive
    obtain ⟨handle, hx, hplace, -⟩ := hc.identity?_of_live hs
    rw [hc.standing_of_ref? hknown hx, if_neg hplace]
  · intro hs
    refine ⟨?_, (hc.isLive_of_standing hs).1⟩
    have hresolves := resolve_resolves ht h
    have hs' : h.tick.standing t.objectId = .live ref := hs
    simp only [answer, call]
    generalize resolve t h = r at hresolves ⊢
    cases hresolves with
    | known hknown =>
      rw [hs'] at hknown
      exact congrArg Except.ok hknown.symm
    | detached hfreed => simp [hs'] at hfreed
    | settled hunknown => simp [hs'] at hunknown
    | exhausted hunknown => simp [hs'] at hunknown

theorem answer_eq_none_iff (hc : h.Consistent) :
    h.answer (.resolve t) = .ok none ↔ t.isNull = true := by
  constructor
  · intro hfound
    by_contra ht
    obtain ⟨ref, heq, -⟩ := hc.call_named rfl (by simpa using ht) hfound
    cases heq
  · intro ht
    simp [answer, call, resolve, ht]

end Consistent

/-- **Lookups agree with resolving**, but for the null token. A lookup changes nothing and finds the
live object that has the object id of the token. A token resolves to an object that is already live
exactly if it is not null and a lookup finds the object. The null token, and no other, resolves to
nothing. -/
theorem lookup_finds_resolved (n : Nat) (calls : List HeapCall) (t : Token) :
    let h := ({ maxFreed := n } : Heap).after calls
    h.next (.lookup t) = h ∧ h.answer (.lookup t) = .ok (h.lookup? t) ∧
      (∀ ref, h.lookup? t = some ref ↔
        ∃ o, h.object? ref = some o ∧ o.id = t.objectId ∧ h.IsLive ref) ∧
      (∀ ref, h.answer (.resolve t) = .ok (some ref) ∧ h.IsLive ref ↔
        t.isNull = false ∧ h.lookup? t = some ref) ∧
      (h.answer (.resolve t) = .ok none ↔ t.isNull = true) := by
  intro h
  have hc : h.Consistent := (consistent_start n calls).1
  refine ⟨rfl, rfl, fun ref => hc.lookup?_eq_some_iff, fun ref => ?_, hc.answer_eq_none_iff⟩
  cases ht : t.isNull with
  | true => simp [hc.answer_eq_none_iff.mpr ht]
  | false =>
    rw [hc.resolves_to_live_iff ht, standing_eq_live_iff, lookup?]
    simp

/-- The null token finds the live object of a token that has object id zero and is not null. It does
not resolve to that object, nor end it. -/
theorem lookup_null_finds :
    let t := Token.ofFields 0 1 false
    let h := ({ maxFreed := 1 } : Heap).after [.resolve t]
    t.isNull = false ∧ h.IsLive 0 ∧ h.lookup? .null = some 0 ∧
      h.answer (.resolve .null) = .ok none ∧ h.next (.remove .null) = h := by
  refine ⟨by decide, ⟨.first ⟨0, 0⟩ (.ofFields 0 1 false) 1, ?_, ?_⟩, ?_, ?_, rfl⟩
  all_goals decide +kernel

end Heap

end TraceRelay
