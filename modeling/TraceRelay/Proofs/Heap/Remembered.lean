import Mathlib.Data.List.Perm.Subperm
import Mathlib.Data.List.Induction
import TraceRelay.Proofs.Heap.Removals

/-!
# Ids that stay remembered

A heap forgets an id that went only to make room for another one. When no more ids go than may be
remembered, none is forgotten: an id is remembered as gone from the first call that removes it, and
all tokens that name it later stand for one detached object. Until that call the id has a live
object exactly if a token named it.

## Main definitions

* `HeapCall.Refers` : a call names the object of an id.
* `Heap.Answers` : calls none of which fails for want of room.

## Main results

* `Heap.freed_after_iff` : an id is remembered as gone exactly if it was removed.
* `Heap.Consistent.live_after_iff` : when an id that was not removed has a live object.
* `Heap.exists_detached` : an id that was removed stands for one detached object.
-/

namespace TraceRelay

/-- A call names the object of an id. -/
def HeapCall.Refers (c : HeapCall) (id : ObjectId) : Prop :=
  ∃ t, c.named? = some t ∧ t.isNull = false ∧ t.objectId = id

namespace Heap

variable {h : Heap} {c : HeapCall} {id : ObjectId}

/-! ### Room -/

theorem Resolves.freedOrder_eq {t : Token} {r : Outcome} (hresolves : Resolves t h r) :
    (Step.final r).freedOrder = h.freedOrder := by
  cases hresolves with
  | known => rfl
  | detached => rfl
  | settled _ hroom => cases hroom <;> rfl
  | exhausted => rfl

theorem next_of_removes (hremoves : c.Removes id) : h.next c = (h.vacate id).2.bury id := by
  obtain ⟨t, rfl, ht, rfl⟩ := hremoves
  simp [next, call, remove, ht, Step.final]

namespace Consistent

/-- An id that goes is remembered and none is forgotten, if there is room for one more. -/
theorem mem_freedOrder_bury (hc : h.Consistent) {gone : ObjectId}
    (hroom : gone ∉ h.freedOrder.toList → h.freedOrder.toList.length < h.maxFreed) :
    id ∈ (h.bury gone).freedOrder.toList ↔ id = gone ∨ id ∈ h.freedOrder.toList := by
  have hlength := hc.length_freedOrder
  have hmem := hc.mem_freedOrder_iff gone
  rw [← Option.isSome_iff_exists, ← Std.TreeMap.contains_eq_isSome_getElem?] at hmem
  rw [Fifo.length_toList] at hroom hlength
  have hpushed : (h.freedOrder.push gone).size = h.freedOrder.size + 1 := rfl
  unfold bury
  split
  next hzero =>
    have hempty : h.freedOrder.toList = [] := by
      rw [← List.length_eq_zero_iff, Fifo.length_toList]
      omega
    have hlt := hroom (by simp [hempty])
    omega
  · split
    next hcontains =>
      rw [forget, if_neg (by omega)]
      refine (or_iff_right_of_imp ?_).symm
      rintro rfl
      exact hmem.2 hcontains
    next hcontains =>
      have hlt := hroom fun hgone => hcontains (hmem.1 hgone)
      rw [forget, if_neg (by dsimp only; omega)]
      dsimp only
      rw [Fifo.toList_push, List.mem_append, List.mem_singleton, or_comm]

/-- A call that removes no id changes nothing of the ids that are remembered. -/
theorem freedOrder_next (hc : h.Consistent) (hkeeps : ∀ id, ¬ c.Removes id) :
    (h.next c).freedOrder = h.freedOrder := by
  have hhappens := next_happens hc.length_freedOrder c
  generalize h.next c = h' at hhappens ⊢
  cases hhappens with
  | nothing => rfl
  | named _ hresolves => exact hresolves.freedOrder_eq
  | told _ hresolves => exact hresolves.freedOrder_eq
  | removed hremoves => exact absurd hremoves (hkeeps _)

/-- A call that removes an id makes it remembered, if there is room for one more. -/
theorem mem_freedOrder_next (hc : h.Consistent) {gone : ObjectId} (hremoves : c.Removes gone)
    (hroom : gone ∉ h.freedOrder.toList → h.freedOrder.toList.length < h.maxFreed) :
    id ∈ (h.next c).freedOrder.toList ↔ id = gone ∨ id ∈ h.freedOrder.toList := by
  have hleaves := vacate_leaves h gone
  rw [next_of_removes hremoves, ← hleaves.freedOrder_eq]
  refine (hc.leaves hleaves).1.mem_freedOrder_bury ?_
  rwa [hleaves.freedOrder_eq, hleaves.maxFreed_eq]

end Consistent

/-- **An id is remembered as gone exactly if it was removed,** when no more ids are removed than may
be remembered. -/
theorem freed_after_iff {n : Nat} {ids : List ObjectId} (hroom : ids.length ≤ n)
    {calls : List HeapCall} (hids : ∀ c ∈ calls, ∀ id, c.Removes id → id ∈ ids) (id : ObjectId) :
    (∃ found, (({ maxFreed := n } : Heap).after calls).standing id = .freed found) ↔
      ∃ c ∈ calls, c.Removes id := by
  obtain ⟨hc, -⟩ := consistent_start n calls
  simp only [hc.standing_eq_freed_iff, ← hc.mem_freedOrder_iff]
  clear hc
  induction calls using List.reverseRecOn generalizing id with
  | nil => simp
  | append_singleton calls c ih =>
    obtain ⟨hc, hmax⟩ := consistent_start n calls
    have ih := ih fun c hc => hids c (List.mem_append_left _ hc)
    rw [after_append, after_cons, after_nil]
    by_cases hkeeps : ∀ id, ¬ c.Removes id
    · rw [hc.freedOrder_next hkeeps, ih]
      simp [hkeeps]
    · simp only [not_forall, not_not] at hkeeps
      obtain ⟨gone, hremoves⟩ := hkeeps
      rw [hc.mem_freedOrder_next hremoves fun hnew => ?_, ih]
      · constructor
        · rintro (rfl | ⟨c', hc', hgone⟩)
          · exact ⟨c, List.mem_append_right _ (List.mem_singleton_self c), hremoves⟩
          · exact ⟨c', List.mem_append_left _ hc', hgone⟩
        · rintro ⟨c', hc', hgone⟩
          rcases List.mem_append.1 hc' with hc' | hc'
          · exact .inr ⟨c', hc', hgone⟩
          · cases List.mem_singleton.1 hc'
            exact .inl (hgone.eq hremoves)
      · -- All remembered ids and the new one are among those that go.
        have hsub : gone :: (({ maxFreed := n } : Heap).after calls).freedOrder.toList ⊆ ids := by
          refine List.cons_subset.2 ⟨hids c (by simp) gone hremoves, fun other hother => ?_⟩
          obtain ⟨c', hc', hgone⟩ := (ih other).1 hother
          exact hids c' (List.mem_append_left _ hc') other hgone
        have hnodup := List.nodup_cons.2 ⟨hnew, hc.nodup_freedOrder⟩
        rw [hmax]
        exact Nat.lt_of_lt_of_le (List.subperm_of_subset hnodup hsub).length_le hroom

/-! ### Before an id goes -/

/-- A call that resolves a token changes nothing of other ids. -/
theorem Consistent.standing_of_resolves (hc : h.Consistent) {t : Token} {r : Outcome}
    (hresolves : Resolves t h r) (hne : id ≠ t.objectId) :
    (Step.final r).standing id = h.standing id := by
  cases hresolves with
  | known => rfl
  | detached hfreed => rw [Step.final, standing_detach hfreed, if_neg hne]
  | settled _ hroom hvacant =>
    rw [Step.final, (hc.room hroom).standing_settle hvacant, if_neg hne, hc.standing_room hroom]
  | exhausted => rfl

/-- Data that is attached does not change what is known of ids. -/
theorem standing_next_attach (h : Heap) (t : Token) (data : ObjectInfo) (id : ObjectId) :
    (h.next (.attach t data)).standing id = (h.next (.resolve t)).standing id := by
  simp only [next, call, attach_eq]
  cases resolve t h with
  | error e h' => rfl
  | ok found h' => cases found <;> rfl

namespace Consistent

/-- A token that does not name an id changes nothing of it when it is resolved. -/
theorem standing_next_resolve (hc : h.Consistent) {t : Token}
    (hrefers : t.isNull = false → t.objectId ≠ id) :
    (h.next (.resolve t)).standing id = h.standing id := by
  cases ht : t.isNull with
  | true =>
    have hnext : h.next (.resolve t) = h := by simp [Heap.next, call, resolve, ht, Step.final]
    rw [hnext]
  | false => exact hc.tick.standing_of_resolves (resolve_resolves ht h) (hrefers ht).symm

/-- An id of which nothing is known stays so until a call names or removes it. -/
theorem standing_next_of_unknown (hc : h.Consistent) (hunknown : h.standing id = .unknown)
    (hrefers : ¬ c.Refers id) (hkeeps : ¬ c.Removes id) : (h.next c).standing id = .unknown := by
  cases c with
  | get | lookup => exact hunknown
  | resolve t =>
    rw [hc.standing_next_resolve fun ht hid => hrefers ⟨t, rfl, ht, hid⟩, hunknown]
  | attach t data =>
    rw [standing_next_attach, hc.standing_next_resolve fun ht hid => hrefers ⟨t, rfl, ht, hid⟩,
      hunknown]
  | remove t =>
    cases ht : t.isNull with
    | true =>
      have hnext : h.next (.remove t) = h := by simp [Heap.next, call, remove, ht, Step.final]
      rwa [hnext]
    | false =>
      have hne : id ≠ t.objectId := fun heq => hkeeps ⟨t, rfl, ht, heq.symm⟩
      have hleaves := vacate_leaves h t.objectId
      obtain ⟨hc', hlive⟩ := hc.leaves hleaves
      have hburies := bury_buries hc'.length_freedOrder t.objectId
      rw [next_of_removes ⟨t, rfl, ht, rfl⟩]
      rcases hc.standing_leaves hleaves id with ⟨hsame, -⟩ | ⟨heq, -⟩
      · rcases hc'.standing_buries_other hlive hburies hne with heq | ⟨⟨found, hfreed⟩, -⟩
        · rw [heq, hsame, hunknown]
        · cases (hsame.trans hunknown).symm.trans hfreed
      · exact absurd heq hne

end Consistent

/-- None of the calls fails, one after the other. -/
def Answers (h : Heap) : List HeapCall → Prop
  | [] => True
  | c :: calls => (∃ found, h.answer c = .ok found) ∧ (h.next c).Answers calls

namespace Consistent

/-- A live object stays until its id is removed. -/
theorem live_after (hc : h.Consistent) {ref : ObjectRef} (hlive : h.standing id = .live ref)
    {calls : List HeapCall} (hkeeps : ∀ c ∈ calls, ¬ c.Removes id) :
    (h.after calls).standing id = .live ref := by
  obtain ⟨handle, hx, hplace, -⟩ := hc.identity?_of_live hlive
  rw [(hc.after calls).standing_of_ref? ((hc.ref?_after_of_live hlive calls).2 hkeeps)
    (hc.identity?_after hx calls), if_neg hplace]

/-- **When an id that was not removed has a live object:** if it was named. -/
theorem live_after_iff (hc : h.Consistent) (hunknown : h.standing id = .unknown)
    {calls : List HeapCall} (hanswers : h.Answers calls) (hkeeps : ∀ c ∈ calls, ¬ c.Removes id) :
    (∃ ref, (h.after calls).standing id = .live ref) ↔ ∃ c ∈ calls, c.Refers id := by
  induction calls generalizing h with
  | nil => simp [hunknown]
  | cons c calls ih =>
    obtain ⟨⟨found, hfound⟩, hanswers⟩ := hanswers
    obtain ⟨hkeep, hkeeps⟩ := List.forall_mem_cons.1 hkeeps
    rw [after_cons]
    by_cases hrefers : c.Refers id
    · refine iff_of_true ?_ ⟨c, List.mem_cons_self, hrefers⟩
      obtain ⟨t, hnamed, ht, rfl⟩ := hrefers
      obtain ⟨ref, -, -, href⟩ := hc.call_named hnamed ht hfound
      have hmoves := hc.standing_next c t.objectId
      rw [hunknown] at hmoves
      generalize hs : (h.next c).standing t.objectId = s at hmoves href
      cases hmoves with
      | stays => cases href
      | settled => exact ⟨_, (hc.next c).live_after hs hkeeps⟩
      | buried hremoves => exact absurd hremoves hkeep
    · have hunknown' := hc.standing_next_of_unknown hunknown hrefers hkeep
      rw [ih (hc.next c) hunknown' hanswers hkeeps]
      simp [hrefers]

end Consistent

/-! ### After an id has gone -/

/-- **An id that was removed stands for one detached object,** as soon as it stands for any, when no
more ids are removed than may be remembered. -/
theorem exists_detached {n : Nat} {ids : List ObjectId} (hroom : ids.length ≤ n)
    {calls : List HeapCall} (hids : ∀ c ∈ calls, ∀ id, c.Removes id → id ∈ ids) (id : ObjectId) :
    ∃ d, ∀ made, made <+: calls → (∃ c ∈ made, c.Removes id) → ∀ ref,
      ((({ maxFreed := n } : Heap).after made).standing id).ref? = some ref →
        (({ maxFreed := n } : Heap).after made).standing id = .freed (some d) ∧ ref = d := by
  have hfreed {made : List HeapCall} (hmade : made <+: calls) :=
    freed_after_iff hroom (fun c hc => hids c (hmade.subset hc)) id
  -- A detached object stays.
  have hstays {first : List HeapCall} {x : ObjectRef} (rest : List HeapCall)
      (hfirst : first ++ rest <+: calls) (hgone : ∃ c ∈ first, c.Removes id)
      (hx : (({ maxFreed := n } : Heap).after first).standing id = .freed (some x)) :
      (({ maxFreed := n } : Heap).after (first ++ rest)).standing id = .freed (some x) := by
    induction rest using List.reverseRecOn with
    | nil => rwa [List.append_nil]
    | append_singleton rest c ih =>
      rw [← List.append_assoc] at hfirst ⊢
      have hbefore := ih ((List.prefix_append _ _).trans hfirst)
      obtain ⟨found, hafter⟩ := (hfreed hfirst).2 <| by
        obtain ⟨c', hc', hremoves⟩ := hgone
        exact ⟨c', by simp [hc'], hremoves⟩
      have hmoves := (consistent_start n (first ++ rest)).1.standing_next c id
      rw [after_append, after_cons, after_nil] at hafter ⊢
      rw [hbefore, hafter] at hmoves
      rw [hafter]
      cases hmoves with
      | stays => rfl
  -- An id that was removed stands for nothing but a detached object.
  have honly {made : List HeapCall} (hmade : made <+: calls) (hgone : ∃ c ∈ made, c.Removes id)
      {ref : ObjectRef}
      (href : ((({ maxFreed := n } : Heap).after made).standing id).ref? = some ref) :
      (({ maxFreed := n } : Heap).after made).standing id = .freed (some ref) := by
    obtain ⟨found, hs⟩ := (hfreed hmade).2 hgone
    rw [hs] at href
    rw [hs, show found = some ref from href]
  by_cases hsome : ∃ made, made <+: calls ∧ (∃ c ∈ made, c.Removes id) ∧
      ∃ ref, ((({ maxFreed := n } : Heap).after made).standing id).ref? = some ref
  · obtain ⟨made, hmade, hgone, d, hd⟩ := hsome
    refine ⟨d, fun made' hmade' hgone' ref href => ?_⟩
    have hs := honly hmade hgone hd
    have hs' := honly hmade' hgone' href
    suffices hsame : ref = d from ⟨hsame ▸ hs', hsame⟩
    rcases List.prefix_or_prefix_of_prefix hmade hmade' with ⟨rest, rfl⟩ | ⟨rest, rfl⟩
    · cases (hstays rest hmade' hgone hs).symm.trans hs'
      rfl
    · cases (hstays rest hmade hgone' hs').symm.trans hs
      rfl
  · exact ⟨0, fun made hmade hgone ref href => absurd ⟨made, hmade, hgone, ref, href⟩ hsome⟩

end Heap

end TraceRelay
