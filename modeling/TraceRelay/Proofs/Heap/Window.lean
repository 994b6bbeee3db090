import Mathlib.Data.List.DropRight
import TraceRelay.Proofs.Heap.Remembered

/-!
# How long an id stays remembered

A heap that may remember `n` ids remembers those `n` that went last. An id takes its turn when a
call removes it while it is not remembered, and no other call moves the queue: removing the id again
changes nothing at all. So an id stays remembered through the next `n - 1` turns, and the turn after
those is the one at which it is forgotten.

## Main definitions

* `Heap.buried?`, `Heap.burials` : the ids that take a turn, at one call and during many.

## Main results

* `Heap.Consistent.freedOrder_after` : the remembered ids are those that took the last turns.
* `Heap.Consistent.remove_of_freed` : removing a remembered id changes nothing.
* `Heap.Consistent.exists_answer` : all that name a remembered id find the same detached object.
* `Heap.freed_window` : the time through which an id is remembered, and what holds of it then.
-/

namespace TraceRelay

/-! ### The end of a list -/

section

variable {α : Type} {n : Nat} {as bs : List α}

theorem rtake_of_length_le (hlength : as.length ≤ n) : as.rtake n = as := by
  rw [List.rtake, Nat.sub_eq_zero_of_le hlength, List.drop_zero]

/-- What is cut off before more is added would be cut off afterwards. -/
theorem rtake_rtake_append (n : Nat) (as bs : List α) :
    (as.rtake n ++ bs).rtake n = (as ++ bs).rtake n := by
  rcases Nat.le_total as.length n with hle | hle
  · rw [rtake_of_length_le hle]
  · have hcut : (as ++ bs).length - n = as.length - n + bs.length := by
      rw [List.length_append]
      omega
    have hkept : (as.rtake n ++ bs).length - n = bs.length := by
      rw [List.length_append, List.rtake, List.length_drop]
      omega
    rw [List.rtake, hkept, List.rtake.eq_def (as ++ bs), hcut, ← List.drop_drop,
      List.drop_append_of_le_length (Nat.sub_le _ _), List.rtake]

theorem rtake_append_of_le (hlength : bs.length ≤ n) :
    (as ++ bs).rtake n = as.rtake (n - bs.length) ++ bs := by
  have hcut : (as ++ bs).length - n ≤ as.length := by
    rw [List.length_append]
    omega
  rw [List.rtake, List.drop_append_of_le_length hcut, List.rtake]
  congr 2
  rw [List.length_append]
  omega

end

namespace Heap

/-! ### Turns -/

/-- The id that a call makes remembered as gone, if it was not remembered already. -/
def buried? (h : Heap) : HeapCall → Option ObjectId
  | .remove t => if t.isNull || h.isFreed t.objectId then none else some t.objectId
  | _ => none

/-- The ids that calls make remembered as gone, in order. -/
def burials (h : Heap) : List HeapCall → List ObjectId
  | [] => []
  | c :: calls => (h.buried? c).toList ++ (h.next c).burials calls

variable {h : Heap} {c : HeapCall} {id : ObjectId} {t : Token}

theorem buried?_eq_some_iff : h.buried? c = some id ↔ c.Removes id ∧ h.isFreed id = false := by
  cases c with
  | resolve | attach | get | lookup => simp [buried?, HeapCall.Removes]
  | remove t =>
    simp only [buried?, HeapCall.Removes, HeapCall.remove.injEq, ite_eq_iff, reduceCtorEq,
      and_false, false_or, Option.some.injEq, Bool.or_eq_true, not_or, Bool.not_eq_true]
    constructor
    · rintro ⟨⟨hnull, hnew⟩, rfl⟩
      exact ⟨⟨t, rfl, hnull, rfl⟩, hnew⟩
    · rintro ⟨⟨t, rfl, hnull, rfl⟩, hnew⟩
      exact ⟨⟨hnull, hnew⟩, rfl⟩

theorem burials_append (h : Heap) (calls calls' : List HeapCall) :
    h.burials (calls ++ calls') = h.burials calls ++ (h.after calls).burials calls' := by
  induction calls generalizing h with
  | nil => rfl
  | cons c calls ih => rw [List.cons_append, burials, burials, ih, List.append_assoc, after_cons]

theorem not_forgets_nil (h : Heap) (id : ObjectId) : ¬ Forgets id h [] := nofun

/-- An id is not forgotten while it is remembered after each call. -/
theorem not_forgets_cons {calls : List HeapCall} (hstill : (h.next c).isFreed id = true)
    (hkept : ¬ Forgets id (h.next c) calls) : ¬ Forgets id h (c :: calls) := by
  intro hforgets
  cases hforgets with
  | now _ hafter => cases hstill.symm.trans hafter
  | later hlater => exact hkept hlater

theorem freed_vacate (h : Heap) (id : ObjectId) : (h.vacate id).2.freed = h.freed := by
  unfold vacate
  split <;> rfl

namespace Consistent

/-! ### The queue -/

/-- A call that removes a remembered id answers with nothing and changes nothing. -/
theorem remove_of_freed (hc : h.Consistent) (hfreed : h.isFreed t.objectId = true) :
    h.remove t = (none, h) := by
  have hlive : h.live[t.objectId]? = none := by
    obtain ⟨found, hs⟩ := hc.isFreed_iff.1 hfreed
    exact hc.findLive?_eq_none_iff.1 (Heap.standing_eq_freed_iff.1 hs).1
  have hvacate : h.vacate t.objectId = (none, h) := by simp only [vacate, hlive]
  have hroom : ¬ h.freedOrder.size > h.maxFreed :=
    Nat.not_lt.2 (Fifo.length_toList h.freedOrder ▸ hc.length_freedOrder)
  have hbury : h.bury t.objectId = h := by
    rw [bury, forget, if_neg hroom, if_pos (show h.freed.contains t.objectId = true from hfreed),
      ite_self]
  simp only [remove, hvacate, hbury, ite_self]

theorem next_of_freed (hc : h.Consistent) (hremoves : c.Removes id) (hfreed : h.isFreed id = true) :
    h.next c = h := by
  obtain ⟨t, rfl, -, rfl⟩ := hremoves
  rw [Heap.next, call, Step.final, hc.remove_of_freed hfreed]

/-- An id that takes its turn is put at the end of the queue, and the queue cut to its length. -/
theorem freedOrder_bury (hc : h.Consistent) (hroom : 1 ≤ h.maxFreed) (hnew : h.isFreed id = false) :
    (h.bury id).freedOrder.toList = (h.freedOrder.toList ++ [id]).rtake h.maxFreed := by
  have hlength := hc.length_freedOrder
  have hsize := Fifo.length_toList h.freedOrder
  have hpushed : (h.freedOrder.push id).size = h.freedOrder.size + 1 := rfl
  have hlist := Fifo.toList_push h.freedOrder id
  have hcontains : h.freed.contains id = false := hnew
  rw [bury, if_neg (by omega), if_neg (Bool.eq_false_iff.1 hcontains), forget]
  split
  next hfull =>
    dsimp only at hfull
    cases hpop : (h.freedOrder.push id).pop? with
    | none => simp [Fifo.pop?_eq_none_iff] at hpop
    | some popped =>
      have hcount : (popped.1 :: popped.2.toList).length - h.maxFreed = 1 := by
        rw [← Fifo.toList_of_pop? hpop, hlist, List.length_append, List.length_singleton]
        omega
      rw [← hlist, Fifo.toList_of_pop? hpop, List.rtake, hcount, List.drop_one, List.tail_cons]
  next hfull =>
    dsimp only at hfull ⊢
    rw [hlist, rtake_of_length_le]
    rw [List.length_append, List.length_singleton]
    omega

theorem freedOrder_next_eq (hc : h.Consistent) (hroom : 1 ≤ h.maxFreed) (c : HeapCall) :
    (h.next c).freedOrder.toList =
      (h.freedOrder.toList ++ (h.buried? c).toList).rtake h.maxFreed := by
  cases hburied : h.buried? c with
  | some id =>
    obtain ⟨hremoves, hnew⟩ := buried?_eq_some_iff.1 hburied
    have hleaves := vacate_leaves h id
    rw [next_of_removes hremoves, (hc.leaves hleaves).1.freedOrder_bury, hleaves.freedOrder_eq,
      hleaves.maxFreed_eq]
    · rfl
    · rwa [hleaves.maxFreed_eq]
    · rwa [isFreed, freed_vacate]
  | none =>
    have hsame : (h.next c).freedOrder = h.freedOrder := by
      by_cases hkeeps : ∀ id, ¬ c.Removes id
      · exact hc.freedOrder_next hkeeps
      · simp only [not_forall, not_not] at hkeeps
        obtain ⟨id, hremoves⟩ := hkeeps
        have hfreed : h.isFreed id = true := by
          by_contra hnew
          rw [buried?_eq_some_iff.2 ⟨hremoves, Bool.eq_false_iff.2 hnew⟩] at hburied
          cases hburied
        rw [hc.next_of_freed hremoves hfreed]
    rw [hsame, Option.toList_none, List.append_nil, rtake_of_length_le hc.length_freedOrder]

/-- The remembered ids are those that took their turns last. -/
theorem freedOrder_after (hc : h.Consistent) (hroom : 1 ≤ h.maxFreed) (calls : List HeapCall) :
    (h.after calls).freedOrder.toList =
      (h.freedOrder.toList ++ h.burials calls).rtake h.maxFreed := by
  induction calls generalizing h with
  | nil => rw [burials, List.append_nil, after_nil, rtake_of_length_le hc.length_freedOrder]
  | cons c calls ih =>
    have hmax := hc.maxFreed_next c
    rw [after_cons, ih (hc.next c) (hmax ▸ hroom), hc.freedOrder_next_eq hroom c, hmax,
      rtake_rtake_append, burials, List.append_assoc]

theorem isFreed_iff_mem (hc : h.Consistent) : h.isFreed id = true ↔ id ∈ h.freedOrder.toList := by
  rw [hc.mem_freedOrder_iff, isFreed, Std.TreeMap.contains_eq_isSome_getElem?,
    Option.isSome_iff_exists]

/-- An id is remembered as long as there is a place for it behind the turns that came after its
own. -/
theorem isFreed_of_burials (hc : h.Consistent) (hroom : 1 ≤ h.maxFreed)
    (hburied : h.buried? c = some id) {calls : List HeapCall}
    (hfew : ((h.next c).burials calls).length < h.maxFreed) :
    ((h.next c).after calls).isFreed id = true ∧ id ∉ (h.next c).burials calls := by
  have hc' := (hc.next c).after calls
  have horder := hc.freedOrder_after hroom (c :: calls)
  rw [burials, hburied, Option.toList_some, List.singleton_append, after_cons,
    rtake_append_of_le (by rw [List.length_cons]; omega)] at horder
  have hnodup := hc'.nodup_freedOrder
  rw [horder] at hnodup
  refine ⟨hc'.isFreed_iff_mem.2 (by simp [horder]), ?_⟩
  exact (List.nodup_cons.1 (List.nodup_append.1 hnodup).2.1).1

/-- The turn for which there is no more place is that of another id, and the id is forgotten. -/
theorem not_isFreed_of_burials (hc : h.Consistent) (hroom : 1 ≤ h.maxFreed)
    (hburied : h.buried? c = some id) {calls : List HeapCall} {last : HeapCall} {other : ObjectId}
    (hfew : ((h.next c).burials calls).length = h.maxFreed - 1)
    (hlast : ((h.next c).after calls).buried? last = some other) :
    other ≠ id ∧ (((h.next c).after calls).next last).isFreed id = false := by
  have hroom' : ((h.next c).burials calls).length < h.maxFreed := by omega
  obtain ⟨hfreed, hnot⟩ := hc.isFreed_of_burials hroom hburied hroom'
  have hne : other ≠ id := by
    rintro rfl
    rw [(buried?_eq_some_iff.1 hlast).2] at hfreed
    cases hfreed
  have horder := hc.freedOrder_after hroom (c :: (calls ++ [last]))
  have hturns : h.burials (c :: (calls ++ [last])) =
      [id] ++ ((h.next c).burials calls ++ [other]) := by
    rw [burials, hburied, burials_append, burials, hlast]
    rfl
  have hlength : ((h.next c).burials calls ++ [other]).length = h.maxFreed := by
    rw [List.length_append, List.length_singleton]
    omega
  rw [hturns, ← List.append_assoc, rtake_append_of_le hlength.le, hlength, Nat.sub_self,
    List.rtake_zero, List.nil_append, after_cons, after_append, after_cons, after_nil] at horder
  refine ⟨hne, Bool.eq_false_iff.2 fun hstill => ?_⟩
  rw [(((hc.next c).after calls).next last).isFreed_iff_mem, horder, List.mem_append,
    List.mem_singleton] at hstill
  exact hstill.elim hnot hne.symm

end Consistent

/-! ### What is found of a remembered id -/

/-- A call that names a remembered id finds its detached object, which is made when there is none,
and leaves all cells as they are. -/
theorem answer_of_freed {found : Option ObjectRef}
    (hs : h.standing id = .freed found) (hnamed : c.named? = some t) (ht : t.isNull = false)
    (hid : t.objectId = id) :
    h.answer c = .ok (some (found.getD h.objects.size)) ∧
      (h.next c).standing id = .freed (some (found.getD h.objects.size)) ∧
      (h.next c).live = h.live ∧ (h.next c).cells = h.cells ∧ (h.next c).vacant = h.vacant := by
  subst hid
  have hs' : h.tick.standing t.objectId = .freed found := hs
  -- The outcome of the resolution, to which data may be attached.
  have hresolve : ∃ h', Heap.resolve t h = .ok (some (found.getD h.objects.size)) h' ∧
      h'.standing t.objectId = .freed (some (found.getD h.objects.size)) ∧
      h'.live = h.live ∧ h'.cells = h.cells ∧ h'.vacant = h.vacant := by
    have hresolves := resolve_resolves ht h
    generalize Heap.resolve t h = r at hresolves
    cases hresolves with
    | known hknown =>
      rw [hs'] at hknown
      subst hknown
      exact ⟨_, rfl, hs', rfl, rfl, rfl⟩
    | detached hfreed =>
      cases hs'.symm.trans hfreed
      refine ⟨_, rfl, ?_, rfl, rfl, rfl⟩
      rw [standing_detach hfreed, if_pos rfl]
      rfl
    | settled hunknown => cases hs'.symm.trans hunknown
    | exhausted hunknown => cases hs'.symm.trans hunknown
  obtain ⟨h', hresolve, hafter, hlive, hcells, hvacant⟩ := hresolve
  cases c with
  | resolve t' =>
    cases hnamed
    simp only [answer, Heap.next, call, hresolve, Step.final]
    exact ⟨trivial, hafter, hlive, hcells, hvacant⟩
  | attach t' data =>
    cases hnamed
    simp only [answer, Heap.next, call, attach_eq, hresolve, Step.final]
    exact ⟨trivial, hafter, hlive, hcells, hvacant⟩
  | get | lookup | remove => cases hnamed

namespace Consistent

/-- **One detached object is found of a remembered id**, by all calls that name it. -/
theorem exists_answer (hc : h.Consistent) (hfreed : h.isFreed id = true) (calls : List HeapCall) :
    ∃ d, ∀ made c t, made ++ [c] <+: calls → ¬ Forgets id h made → c.named? = some t →
      t.isNull = false → t.objectId = id →
      (h.after made).answer c = .ok (some d) ∧
        ((h.after made).next c).standing id = .freed (some d) ∧
        ((h.after made).next c).live = (h.after made).live ∧
        ((h.after made).next c).cells = (h.after made).cells ∧
        ((h.after made).next c).vacant = (h.after made).vacant := by
  induction calls generalizing h with
  | nil => exact ⟨0, fun made c t hmade => by simp at hmade⟩
  | cons first calls ih =>
    obtain ⟨found, hs⟩ := hc.isFreed_iff.1 hfreed
    by_cases hrefers : first.Refers id
    · -- The first call that names the id settles which object it is.
      obtain ⟨t, hnamed, ht, hid⟩ := hrefers
      obtain ⟨hanswer, hs', hplaces⟩ := answer_of_freed hs hnamed ht hid
      refine ⟨found.getD h.objects.size, fun made c t' hmade hkept hnamed' ht' hid' => ?_⟩
      cases made with
      | nil =>
        obtain ⟨rfl, -⟩ := List.cons_prefix_cons.1 hmade
        exact ⟨hanswer, hs', hplaces⟩
      | cons c' made =>
        obtain ⟨rfl, -⟩ := List.cons_prefix_cons.1 hmade
        have hc' := (hc.next c').after made
        have hstays := ((hc.next c').ref?_after_of_freed hs' made).2 fun hlater =>
          hkept (.later hlater)
        have hs'' := hc'.standing_of_ref? hstays
          ((hc.next c').identity?_after ((hc.next c').identity?_of_freed hs') made)
        exact answer_of_freed hs'' hnamed' ht' hid'
    · cases hnext : (h.next first).isFreed id with
      | true =>
        obtain ⟨d, hd⟩ := ih (hc.next first) hnext
        refine ⟨d, fun made c t hmade hkept hnamed ht hid => ?_⟩
        cases made with
        | nil =>
          obtain ⟨rfl, -⟩ := List.cons_prefix_cons.1 hmade
          exact absurd ⟨t, hnamed, ht, hid⟩ hrefers
        | cons c' made =>
          obtain ⟨rfl, hrest⟩ := List.cons_prefix_cons.1 hmade
          exact hd made c t hrest (fun hlater => hkept (.later hlater)) hnamed ht hid
      | false =>
        refine ⟨0, fun made c t hmade hkept hnamed ht hid => ?_⟩
        cases made with
        | nil =>
          obtain ⟨rfl, -⟩ := List.cons_prefix_cons.1 hmade
          exact absurd ⟨t, hnamed, ht, hid⟩ hrefers
        | cons c' made =>
          obtain ⟨rfl, -⟩ := List.cons_prefix_cons.1 hmade
          exact absurd (.now hfreed hnext) hkept

end Consistent

/-- **How long an id stays remembered,** when `n` ids may be. An id that goes while it is not
remembered is remembered until the turn of the `n`-th other id after it, at which it is forgotten.
As long as it is remembered it has no live object, removing it again changes nothing, not even the
order in which ids are forgotten, and all calls that name it find the same detached object, which
takes no cell. -/
theorem freed_window {n : Nat} (hn : 1 ≤ n) (before : List HeapCall) (id : ObjectId) :
    let h := ({ maxFreed := n } : Heap).after before
    (∀ c, c.Removes id → h.isFreed id = false → ∀ calls,
      (((h.next c).burials calls).length < n →
        ((h.next c).after calls).isFreed id = true ∧ id ∉ (h.next c).burials calls) ∧
      ∀ last other, ((h.next c).burials calls).length = n - 1 →
        ((h.next c).after calls).buried? last = some other →
        other ≠ id ∧ (((h.next c).after calls).next last).isFreed id = false) ∧
    (h.isFreed id = true → (∀ t, t.objectId = id → h.lookup? t = none ∧ h.remove t = (none, h)) ∧
      ∀ calls, ∃ d, ∀ made c t, made ++ [c] <+: calls → ¬ Forgets id h made →
        c.named? = some t → t.isNull = false → t.objectId = id →
        let h' := h.after made
        h'.answer c = .ok (some d) ∧
          (∃ o, (h'.next c).object? d = some o ∧ o.id = id ∧ o.isDetached = true) ∧
          (h'.next c).size = h'.size ∧ (h'.next c).cells = h'.cells ∧
          (h'.next c).vacant = h'.vacant) := by
  intro h
  obtain ⟨hc, hmax⟩ : h.Consistent ∧ h.maxFreed = n := consistent_start n before
  have hroom : 1 ≤ h.maxFreed := hmax ▸ hn
  refine ⟨fun c hremoves hnew calls => ?_, fun hfreed => ⟨fun t ht => ?_, fun calls => ?_⟩⟩
  · have hburied := buried?_eq_some_iff.2 ⟨hremoves, hnew⟩
    exact ⟨fun hfew => hc.isFreed_of_burials hroom hburied (hmax ▸ hfew),
      fun last other hfew hlast => hc.not_isFreed_of_burials hroom hburied (hmax ▸ hfew) hlast⟩
  · subst ht
    obtain ⟨found, hs⟩ := hc.isFreed_iff.1 hfreed
    exact ⟨(standing_eq_freed_iff.1 hs).1, hc.remove_of_freed hfreed⟩
  · obtain ⟨d, hd⟩ := hc.exists_answer hfreed calls
    refine ⟨d, fun made c t hmade hkept hnamed ht hid => ?_⟩
    obtain ⟨hanswer, hs, hlive, hcells, hvacant⟩ := hd made c t hmade hkept hnamed ht hid
    have hx := ((hc.after made).next c).identity?_of_freed hs
    obtain ⟨o, ho, hid', hhandle⟩ := identity?_eq_some_iff.1 hx
    refine ⟨hanswer, ⟨o, ho, hid', ?_⟩, ?_, hcells, hvacant⟩
    · simp [Replica.isDetached, hhandle]
    · rw [size, hlive, size]

theorem freed_window_two :
    let one := numberedToken 1
    let two := numberedToken 2
    let three := numberedToken 3
    let start : Heap := { maxFreed := 2 }
    let h := start.after [.resolve one]
    let gone := start.after [.resolve one, .remove one]
    (1 ≤ 2 ∧ HeapCall.Removes (.remove one) one.objectId ∧ h.isFreed one.objectId = false ∧
      gone.isFreed one.objectId = true) ∧
      ((h.next (.remove one)).after [.remove two, .remove one, .remove two]).isFreed
        one.objectId = true ∧
      (((h.next (.remove one)).after [.remove two, .remove one, .remove two]).next
        (.remove three)).isFreed one.objectId = false ∧
      gone.remove one.withData = (none, gone) ∧
      ∃ d, gone.answer (.resolve one) = .ok (some d) ∧
        (gone.after [.resolve one, .remove two]).answer (.resolve one.withData) = .ok (some d) := by
  intro one two three start h gone
  have hremoves : HeapCall.Removes (.remove one) one.objectId := ⟨one, rfl, by decide, rfl⟩
  have hnew : h.isFreed one.objectId = false := by decide +kernel
  have hfreed : gone.isFreed one.objectId = true := by decide +kernel
  have hturns : (h.next (.remove one)).burials [.remove two, .remove one, .remove two] =
    [two.objectId] := by decide +kernel
  have hlast : ((h.next (.remove one)).after [.remove two, .remove one, .remove two]).buried?
    (.remove three) = some three.objectId := by decide +kernel
  have hstill : (gone.next (.resolve one)).isFreed one.objectId = true := by decide +kernel
  have hstill' : ((gone.next (.resolve one)).next (.remove two)).isFreed one.objectId = true := by
    decide +kernel
  obtain ⟨hkept, hforgotten⟩ := (freed_window (n := 2) (by decide) [.resolve one] one.objectId).1
    (.remove one) hremoves hnew [.remove two, .remove one, .remove two]
  obtain ⟨hidle, hfinds⟩ := (freed_window (n := 2) (by decide) [.resolve one, .remove one]
    one.objectId).2 hfreed
  obtain ⟨d, hd⟩ := hfinds [.resolve one, .remove two, .resolve one.withData]
  refine ⟨⟨by decide, hremoves, hnew, hfreed⟩, (hkept ?_).1, (hforgotten _ _ ?_ hlast).2,
    (hidle one.withData (by decide)).2, d, ?_, ?_⟩
  · rw [hturns]
    decide
  · rw [hturns]
    rfl
  · exact (hd [] (.resolve one) one (by simp) nofun rfl (by decide) rfl).1
  · have hkept : ¬ Forgets one.objectId gone [.resolve one, .remove two] :=
      not_forgets_cons hstill (not_forgets_cons hstill' (not_forgets_nil _ _))
    exact (hd [.resolve one, .remove two] (.resolve one.withData) one.withData
      (List.prefix_refl _) hkept rfl (by decide) (by decide)).1

end Heap

end TraceRelay
