import Mathlib.Data.List.Basic
import TraceRelay.Proofs.Heap.Consistent

/-!
# Which object a token finds

An id stands for one object until that object goes. What an id stands for moves through a few
states, and a new object never has the position of an older one, so that an object which an id has
ceased to stand for is never found under it again.

## Main definitions

* `Heap.Standing.Moves` : how a call changes what is known of an id.
* `Heap.Forgets` : an id that was remembered as gone is forgotten during calls.

## Main results

* `Heap.Consistent.standing_next`, `Heap.Consistent.identity?_next` : one call.
* `Heap.Consistent.call_named` : what a call that names an object answers.
* `Heap.Consistent.ref?_after_of_live`, `Heap.Consistent.ref?_after_of_freed` : how long an id
  stands for its object.
* `Heap.same_object_iff` : when two calls find the same object.
-/

namespace TraceRelay

namespace Heap

/-- How a call changes what is known of an id, `fresh` being the position of a new object. -/
inductive Standing.Moves (c : HeapCall) (id : ObjectId) (fresh : ObjectRef) :
    Standing → Standing → Prop where
  | stays {s : Standing} (hkeeps : c.Removes id → ∀ ref, s ≠ .live ref) : Moves c id fresh s s
  | settled : Moves c id fresh .unknown (.live fresh)
  | detached : Moves c id fresh (.freed none) (.freed (some fresh))
  | ended {ref : ObjectRef} (hremoves : c.Removes id) : Moves c id fresh (.live ref) (.freed none)
  | vanished {ref : ObjectRef} (hremoves : c.Removes id) : Moves c id fresh (.live ref) .unknown
  | buried (hremoves : c.Removes id) : Moves c id fresh .unknown (.freed none)
  | forgotten {found : Option ObjectRef} : Moves c id fresh (.freed found) .unknown

variable {h : Heap} {t : Token}

theorem standing_detach (hfreed : h.standing t.objectId = .freed none) (id : ObjectId) :
    (h.detach t).standing id =
      if id = t.objectId then .freed (some h.objects.size) else h.standing id := by
  have hlookup := freed_detach h t id
  split
  next heq =>
    rw [if_pos heq] at hlookup
    subst heq
    exact standing_eq_freed_iff.mpr ⟨(standing_eq_freed_iff.mp hfreed).1, hlookup⟩
  next hne =>
    rw [if_neg hne] at hlookup
    exact standing_congr rfl (fun _ _ => rfl) hlookup

namespace Consistent

/-! ### One call -/

theorem standing_settle (hc : h.Consistent) {index : UInt32} {vacant : List UInt32}
    (hvacant : h.vacant = index :: vacant) (id : ObjectId) :
    (h.settle index vacant t).standing id =
      if id = t.objectId then .live h.objects.size else h.standing id := by
  obtain ⟨generation, hcell⟩ := hc.cells_head_vacant hvacant
  have hcells := cells_settle hcell vacant t
  have hlive := live_settle h index vacant t id
  split
  next heq =>
    rw [if_pos heq] at hlive
    simp [Heap.standing_eq_live_iff, findLive?, hlive, hcells]
  next hne =>
    rw [if_neg hne] at hlive
    refine standing_congr hlive (fun other hother => ?_) rfl
    obtain ⟨ref, g, hg, -⟩ := hc.live_occupied hother
    rw [hcells, if_neg]
    rintro rfl
    simp [hcell] at hg

theorem standing_resolves (hc : h.Consistent) {c : HeapCall} (hkeeps : ∀ id, ¬ c.Removes id)
    {r : Outcome} (hresolves : Resolves t h r) (id : ObjectId) :
    Standing.Moves c id h.objects.size (h.standing id) ((Step.final r).standing id) := by
  have hstays : ∀ s, Standing.Moves c id h.objects.size s s :=
    fun s => .stays fun hremoves => absurd hremoves (hkeeps id)
  cases hresolves with
  | known => exact hstays _
  | detached hfreed =>
    simp only [Step.final, standing_detach hfreed id]
    split
    next heq =>
      rw [heq, hfreed]
      exact .detached
    · exact hstays _
  | @settled room index vacant hunknown hroom hvacant =>
    simp only [Step.final, (hc.room hroom).standing_settle hvacant id, hroom.objects_eq,
      hc.standing_room hroom]
    split
    next heq =>
      rw [heq, hunknown]
      exact .settled
    · exact hstays _
  | exhausted => exact hstays _

/-- An id that goes is no longer live. -/
theorem standing_leaves (hc : h.Consistent) {gone : ObjectId} {left : Heap}
    (hleaves : Leaves gone h left) (id : ObjectId) :
    left.standing id = h.standing id ∧ (id = gone → ∀ ref, h.standing id ≠ .live ref) ∨
      id = gone ∧ left.standing id = .unknown ∧ ∃ ref, h.standing id = .live ref := by
  cases hleaves with
  | absent hlive =>
    refine .inl ⟨rfl, ?_⟩
    rintro rfl ref hs
    rw [Heap.standing_eq_live_iff, hc.findLive?_eq_none_iff.mpr hlive] at hs
    cases hs
  | @left index hlive =>
    have hc' := hc.leave hlive
    have herase := live_leave h gone index
    obtain ⟨ref, generation, hcell, hx⟩ := hc.live_occupied hlive
    by_cases hid : id = gone
    · subst hid
      refine .inr ⟨rfl, ?_, ref, hc.standing_eq_live_iff.mpr ⟨index, generation, hlive, hcell⟩⟩
      exact hc'.standing_eq_unknown_iff.mpr ⟨(herase id).trans (if_pos rfl), hc.not_freed hlive⟩
    · refine .inl ⟨?_, fun heq => absurd heq hid⟩
      refine standing_congr ((herase id).trans (if_neg hid)) (fun other hother => ?_) rfl
      rw [cells_leave hcell, if_neg]
      rintro rfl
      obtain ⟨ref', generation', hcell', hx'⟩ := hc.live_occupied hother
      simp_all

/-- An id that goes is remembered, if any are. -/
theorem standing_buries_self (hc : h.Consistent) {gone : ObjectId} {h' : Heap}
    (hlive : h.live[gone]? = none) (hburies : Buries gone h h') :
    h'.standing gone = h.standing gone ∨
      h.standing gone = .unknown ∧ h'.standing gone = .freed none := by
  have hc' := hc.buries hlive hburies
  cases hburies with
  | kept => exact .inl rfl
  | @remembered freed order dropped hnew horder hid hlength hfreed =>
    refine .inr ⟨hc.standing_eq_unknown_iff.mpr ⟨hlive, hnew⟩, hc'.standing_eq_freed_iff.mpr ?_⟩
    have hnodup := List.nodup_append.mp (hc.nodup_remembered hnew horder)
    rw [hfreed, if_neg fun hdropped => hnodup.2.2 gone hdropped gone hid rfl, if_pos rfl]

/-- Another id may be forgotten then, if it was remembered. -/
theorem standing_buries_other (hc : h.Consistent) {gone id : ObjectId} {h' : Heap}
    (hlive : h.live[gone]? = none) (hburies : Buries gone h h') (hne : id ≠ gone) :
    h'.standing id = h.standing id ∨
      (∃ found, h.standing id = .freed found) ∧ h'.standing id = .unknown := by
  have hc' := hc.buries hlive hburies
  cases hburies with
  | kept => exact .inl rfl
  | @remembered freed order dropped hnew horder hid hlength hfreed =>
    by_cases hdropped : id ∈ dropped
    · have hmem : id ∈ h.freedOrder.toList ++ [gone] := by simp [horder, hdropped]
      obtain ⟨found, hfound⟩ := (hc.mem_freedOrder_iff id).mp (by simpa [hne] using hmem)
      have hs := hc.standing_eq_freed_iff.mpr hfound
      refine .inr ⟨⟨found, hs⟩, Heap.standing_eq_unknown_iff.mpr
        ⟨(Heap.standing_eq_freed_iff.mp hs).1, ?_⟩⟩
      rw [hfreed, if_pos hdropped]
    · refine .inl (standing_congr rfl (fun _ _ => rfl) ?_)
      rw [hfreed, if_neg hdropped, if_neg hne]

/-- A call changes what is known of an id in one of a few ways. -/
theorem standing_next (hc : h.Consistent) (c : HeapCall) (id : ObjectId) :
    Standing.Moves c id h.objects.size (h.standing id) ((h.next c).standing id) := by
  have hhappens := next_happens hc.length_freedOrder c
  generalize h.next c = h' at hhappens ⊢
  cases hhappens with
  | nothing hkeeps => exact .stays fun hremoves => absurd hremoves (hkeeps id)
  | named hkeeps hresolves => exact hc.tick.standing_resolves hkeeps hresolves id
  | told hkeeps hresolves => exact hc.tick.standing_resolves hkeeps hresolves id
  | @removed gone left h' hremoves hleaves hburies =>
    obtain ⟨hc', hlive⟩ := hc.leaves hleaves
    rcases hc.standing_leaves hleaves id with ⟨hsame, hkeeps⟩ | ⟨rfl, hunknown, ref, hs⟩
    · rw [← hsame] at hkeeps ⊢
      by_cases hid : id = gone
      · subst hid
        rcases hc'.standing_buries_self hlive hburies with heq | ⟨hbefore, hafter⟩
        · rw [heq]
          exact .stays fun _ => hkeeps rfl
        · rw [hbefore, hafter]
          exact .buried hremoves
      · rcases hc'.standing_buries_other hlive hburies hid with heq | ⟨⟨found, hbefore⟩, hafter⟩
        · rw [heq]
          exact .stays fun hremoves' => absurd (hremoves'.eq hremoves) hid
        · rw [hbefore, hafter]
          exact .forgotten
    · rw [hs]
      rcases hc'.standing_buries_self hlive hburies with heq | ⟨-, hafter⟩
      · rw [heq, hunknown]
        exact .vanished hremoves
      · rw [hafter]
        exact .ended hremoves

/-! ### Objects keep their identity -/

theorem identity?_resolves (hc : h.Consistent) {r : Outcome} (hresolves : Resolves t h r)
    {ref : ObjectRef} {x : ObjectId × Handle} (hx : h.identity? ref = some x) :
    (Step.final r).identity? ref = some x := by
  cases hresolves with
  | known => simpa [Step.final] using hx
  | detached => exact identity?_detach_of_some hx t
  | settled hunknown hroom hvacant =>
    obtain ⟨generation, hcell⟩ := (hc.room hroom).cells_head_vacant hvacant
    rw [identity?, ← hroom.objects_eq] at hx
    exact identity?_settle_of_some hcell hx _ t
  | exhausted => exact hx

/-- No call changes the identity of an object. -/
theorem identity?_next (hc : h.Consistent) (c : HeapCall) {ref : ObjectRef} {x : ObjectId × Handle}
    (hx : h.identity? ref = some x) : (h.next c).identity? ref = some x := by
  have hhappens := next_happens hc.length_freedOrder c
  generalize h.next c = h' at hhappens ⊢
  cases hhappens with
  | nothing => exact hx
  | named hkeeps hresolves => exact hc.tick.identity?_resolves hresolves hx
  | told hkeeps hresolves =>
    rw [identity?_inform]
    exact hc.tick.identity?_resolves hresolves hx
  | removed hremoves hleaves hburies =>
    have hobjects : h'.objects = h.objects := by rw [hburies.objects_eq, hleaves.objects_eq]
    rw [identity?, hobjects]
    exact hx

/-- What each call keeps, as long as the objects that it makes are not a given one, is kept by any
calls once there is that object. -/
theorem after_induction_of_old (hc : h.Consistent) {ref : ObjectRef} {x : ObjectId × Handle}
    (hx : h.identity? ref = some x) {P : Heap → Prop}
    (hstep : ∀ h c, h.Consistent → h.objects.size ≠ ref → P h → P (h.next c)) (hP : P h)
    (calls : List HeapCall) : (h.after calls).identity? ref = some x ∧ P (h.after calls) := by
  refine (after_induction (P := fun h => h.Consistent ∧ h.identity? ref = some x ∧ P h)
    (fun h c hkept => ?_) ⟨hc, hx, hP⟩ calls).2
  obtain ⟨hc, hx, hP⟩ := hkept
  exact ⟨hc.next c, hc.identity?_next c hx, hstep h c hc (Nat.ne_of_gt (lt_of_identity? hx)) hP⟩

theorem identity?_after (hc : h.Consistent) {ref : ObjectRef} {x : ObjectId × Handle}
    (hx : h.identity? ref = some x) (calls : List HeapCall) :
    (h.after calls).identity? ref = some x :=
  (hc.after_induction_of_old hx (P := fun _ => True) (fun _ _ _ _ _ => trivial) trivial calls).1

/-- An object that an id has ceased to stand for is not found under it again. -/
theorem ref?_after_ne (hc : h.Consistent) {id : ObjectId} {ref : ObjectRef} {x : ObjectId × Handle}
    (hx : h.identity? ref = some x) (hne : (h.standing id).ref? ≠ some ref)
    (calls : List HeapCall) : ((h.after calls).standing id).ref? ≠ some ref := by
  refine (hc.after_induction_of_old hx (P := fun h => (h.standing id).ref? ≠ some ref)
    (fun h c hc hfresh hne => ?_) hne calls).2
  have hmoves := hc.standing_next c id
  generalize h.standing id = s at hmoves hne
  generalize (h.next c).standing id = s' at hmoves ⊢
  cases hmoves with
  | stays => exact hne
  | settled => simpa [Standing.ref?] using hfresh
  | detached => simpa [Standing.ref?] using hfresh
  | ended => simp [Standing.ref?]
  | vanished => simp [Standing.ref?]
  | buried => simp [Standing.ref?]
  | forgotten => simp [Standing.ref?]

/-! ### What is found -/

theorem answer_of_resolves (hc : h.Consistent) {found : Option ObjectRef} {h' : Heap}
    (hresolves : Resolves t h (.ok found h')) :
    ∃ ref, found = some ref ∧ ref = (h.standing t.objectId).ref?.getD h.objects.size ∧
      (h'.standing t.objectId).ref? = some ref := by
  cases hresolves with
  | @known ref hknown => exact ⟨ref, rfl, by simp [hknown], hknown⟩
  | detached hfreed =>
    rw [standing_detach hfreed, if_pos rfl, hfreed]
    exact ⟨_, rfl, rfl, rfl⟩
  | settled hunknown hroom hvacant =>
    rw [(hc.room hroom).standing_settle hvacant, if_pos rfl, hunknown, hroom.objects_eq]
    exact ⟨_, rfl, rfl, rfl⟩

/-- A call that names an object answers with the one that the id stands for, or with a new one, and
the id stands for it afterwards. -/
theorem call_named (hc : h.Consistent) {c : HeapCall} (hnamed : c.named? = some t)
    (ht : t.isNull = false) {found : Option ObjectRef} (hfound : h.answer c = .ok found) :
    ∃ ref, found = some ref ∧ ref = (h.standing t.objectId).ref?.getD h.objects.size ∧
      ((h.next c).standing t.objectId).ref? = some ref := by
  have hresolves := resolve_resolves ht h
  have hcall := call_eq_ok hfound
  generalize h.next c = h' at hcall ⊢
  cases c with
  | resolve t' =>
    cases hnamed
    rw [show Heap.resolve t h = _ from hcall] at hresolves
    exact hc.tick.answer_of_resolves hresolves
  | attach t' data =>
    cases hnamed
    simp only [call, attach_eq] at hcall
    cases hresolve : Heap.resolve t h with
    | error e h'' => simp [hresolve] at hcall
    | ok found' h'' =>
      rw [hresolve] at hcall hresolves
      obtain ⟨ref, rfl, href, hs⟩ := hc.tick.answer_of_resolves hresolves
      cases hcall
      exact ⟨ref, rfl, href, hs⟩
  | get handle => cases hnamed
  | lookup t' => cases hnamed
  | remove t' => cases hnamed

end Consistent

/-- An id that was remembered as gone is forgotten at one of a list of calls. -/
inductive Forgets (id : ObjectId) : Heap → List HeapCall → Prop where
  | now {h : Heap} {c : HeapCall} {calls : List HeapCall} (hbefore : h.isFreed id = true)
    (hafter : (h.next c).isFreed id = false) : Forgets id h (c :: calls)
  | later {h : Heap} {c : HeapCall} {calls : List HeapCall} (hlater : Forgets id (h.next c) calls) :
    Forgets id h (c :: calls)

namespace Consistent

theorem isFreed_iff (hc : h.Consistent) {id : ObjectId} :
    h.isFreed id = true ↔ ∃ found, h.standing id = .freed found := by
  simp only [isFreed, Std.TreeMap.contains_eq_isSome_getElem?, Option.isSome_iff_exists,
    hc.standing_eq_freed_iff]

/-- A live object is found under its id exactly until the id is removed. -/
theorem ref?_after_of_live (hc : h.Consistent) {id : ObjectId} {ref : ObjectRef}
    (hs : h.standing id = .live ref) (calls : List HeapCall) :
    ((h.after calls).standing id).ref? = some ref ↔ ∀ c ∈ calls, ¬ c.Removes id := by
  induction calls generalizing h with
  | nil => simp [hs, Standing.ref?]
  | cons c calls ih =>
    obtain ⟨handle, hx, -⟩ := hc.identity?_of_live hs
    have hstep : (h.next c).standing id = .live ref ∧ ¬ c.Removes id ∨
        ((h.next c).standing id).ref? = none ∧ c.Removes id := by
      have hmoves := hc.standing_next c id
      rw [hs] at hmoves
      generalize (h.next c).standing id = s' at hmoves ⊢
      cases hmoves with
      | stays hkeeps => exact .inl ⟨rfl, fun hremoves => hkeeps hremoves ref rfl⟩
      | ended hremoves => exact .inr ⟨rfl, hremoves⟩
      | vanished hremoves => exact .inr ⟨rfl, hremoves⟩
    rw [after_cons]
    rcases hstep with ⟨hs', hkeeps⟩ | ⟨hnone, hremoves⟩
    · simp [ih (hc.next c) hs', hkeeps]
    · have hne : ((h.next c).standing id).ref? ≠ some ref := by simp [hnone]
      simp [(hc.next c).ref?_after_ne (hc.identity?_next c hx) hne calls, hremoves]

/-- A detached object is found under its id exactly until the id is forgotten. -/
theorem ref?_after_of_freed (hc : h.Consistent) {id : ObjectId} {ref : ObjectRef}
    (hs : h.standing id = .freed (some ref)) (calls : List HeapCall) :
    ((h.after calls).standing id).ref? = some ref ↔ ¬ Forgets id h calls := by
  induction calls generalizing h with
  | nil => exact ⟨fun _ => nofun, fun _ => by simp [hs, Standing.ref?]⟩
  | cons c calls ih =>
    have hx := hc.identity?_of_freed hs
    have hbefore := hc.isFreed_iff.mpr ⟨_, hs⟩
    have hstep : (h.next c).standing id = .freed (some ref) ∨
        (h.next c).standing id = .unknown := by
      have hmoves := hc.standing_next c id
      rw [hs] at hmoves
      generalize (h.next c).standing id = s' at hmoves ⊢
      cases hmoves with
      | stays => exact .inl rfl
      | forgotten => exact .inr rfl
    rw [after_cons]
    rcases hstep with hs' | hs'
    · rw [ih (hc.next c) hs', not_iff_not]
      refine ⟨.later, fun hforgets => ?_⟩
      cases hforgets with
      | now _ hafter => simp [(hc.next c).isFreed_iff.mpr ⟨_, hs'⟩] at hafter
      | later hlater => exact hlater
    · have hne : ((h.next c).standing id).ref? ≠ some ref := by simp [hs', Standing.ref?]
      have hafter : (h.next c).isFreed id = false := by
        simp [Bool.eq_false_iff, (hc.next c).isFreed_iff, hs']
      exact iff_of_false ((hc.next c).ref?_after_ne (hc.identity?_next c hx) hne calls)
        fun hkept => hkept (.now hbefore hafter)

end Consistent

/-- **Two calls find the same object or different ones.** Both name an object, and the second comes
after the first. Different ids never share an object. If the first finds a live object then the
second finds it under the same id, whatever the other bits of the tokens, exactly if the id was not
removed between them. If the first finds a detached object then the second finds it exactly if the
id was not forgotten between them. -/
theorem same_object_iff (n : Nat) (before between : List HeapCall) {c c' : HeapCall} {t t' : Token}
    (hnamed : c.named? = some t) (hnamed' : c'.named? = some t')
    (ht : t.isNull = false) (ht' : t'.isNull = false) {found found' : Option ObjectRef}
    (hfound : (({ maxFreed := n } : Heap).after before).answer c = .ok found)
    (hfound' : (({ maxFreed := n } : Heap).after (before ++ c :: between)).answer c' = .ok found') :
    let h := ({ maxFreed := n } : Heap).after (before ++ [c])
    ∃ ref ref' o, found = some ref ∧ found' = some ref' ∧ h.object? ref = some o ∧
      (t.objectId ≠ t'.objectId → ref' ≠ ref) ∧
      (t.objectId = t'.objectId → o.isDetached = false →
        (ref' = ref ↔ ∀ s, .remove s ∈ between → s.isNull = false → s.objectId ≠ t.objectId)) ∧
      (t.objectId = t'.objectId → o.isDetached = true →
        (ref' = ref ↔ ¬ Forgets t.objectId h between)) := by
  simp only [after_append, after_cons, after_nil] at hfound' ⊢
  have hc := (consistent_start n before).1
  generalize ({ maxFreed := n } : Heap).after before = start at *
  have hc₁ := hc.next c
  have hc₂ := hc₁.after between
  obtain ⟨ref, rfl, -, hs⟩ := hc.call_named hnamed ht hfound
  obtain ⟨ref', rfl, href', hs'⟩ := hc₂.call_named hnamed' ht' hfound'
  obtain ⟨handle, hx⟩ := hc₁.identity?_of_ref? hs
  obtain ⟨o, ho, -, rfl⟩ := identity?_eq_some_iff.mp hx
  have hx₂ := hc₁.identity?_after hx between
  -- An answer that is not already what the id stands for is newer than the first one.
  have hfinds : ref' = ref ↔
      (((start.next c).after between).standing t'.objectId).ref? = some ref := by
    have hold := Nat.ne_of_gt (lt_of_identity? hx₂)
    rw [href']
    cases (((start.next c).after between).standing t'.objectId).ref? <;> simp [hold]
  refine ⟨ref, ref', o, rfl, rfl, ho, ?_, fun heq hlive => ?_, fun heq hdetached => ?_⟩
  · rintro hne rfl
    obtain ⟨handle', hx'⟩ := (hc₂.next c').identity?_of_ref? hs'
    rw [hc₂.identity?_next c' hx₂] at hx'
    exact hne (congrArg Prod.fst (Option.some.inj hx'))
  · have hs : (start.next c).standing t.objectId = .live ref :=
      (hc₁.standing_of_ref? hs hx).trans (if_neg (by simpa [Replica.isDetached] using hlive))
    rw [hfinds, ← heq, hc₁.ref?_after_of_live hs between]
    constructor
    · intro hkeeps s hmem hnull hid
      exact hkeeps _ hmem ⟨s, rfl, hnull, hid⟩
    · rintro hkeeps _ hmem ⟨s, rfl, hnull, hid⟩
      exact hkeeps s hmem hnull hid
  · have hs : (start.next c).standing t.objectId = .freed (some ref) :=
      (hc₁.standing_of_ref? hs hx).trans (if_pos (by simpa [Replica.isDetached] using hdetached))
    rw [hfinds, ← heq, hc₁.ref?_after_of_freed hs between]

/-- The token of an object by its number. -/
def numberedToken (i : Nat) : Token := .ofFields (.ofNat i) 1 false

theorem same_object_iff_forgotten :
    let start : Heap := { maxFreed := 1 }
    let one := numberedToken 1
    let two := numberedToken 2
    (start.after [.remove one]).answer (.resolve one) = .ok (some 0) ∧
      (start.after ([.remove one] ++ .resolve one :: [.remove two])).answer
        (.resolve one.withData) = .ok (some 1) ∧
      one.objectId = one.withData.objectId ∧
      Forgets one.objectId (start.after ([.remove one] ++ [.resolve one])) [.remove two] := by
  intro start one two
  have hfound : (start.after [.remove one]).answer (.resolve one) = .ok (some 0) := by
    decide +kernel
  have hfound' : (start.after ([.remove one] ++ .resolve one :: [.remove two])).answer
    (.resolve one.withData) = .ok (some 1) := by decide +kernel
  have hid : one.objectId = one.withData.objectId := by decide
  obtain ⟨ref, ref', o, href, href', ho, -, -, hdetached⟩ :=
    same_object_iff 1 [.remove one] [.remove two] rfl rfl (by decide) (by decide) hfound hfound'
  cases href
  cases href'
  have ho' : (start.after ([.remove one] ++ [.resolve one])).object? 0 =
    some (.first .detached one 1) := by decide +kernel
  cases ho'.symm.trans ho
  refine ⟨hfound, hfound', hid, ?_⟩
  exact not_not.mp fun hkept => absurd ((hdetached hid rfl).mpr hkept) (by decide)

end Heap

end TraceRelay
