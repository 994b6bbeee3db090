import Mathlib.Data.List.Induction
import Mathlib.Data.List.Nodup
import Mathlib.Order.Bounds.Defs
import TraceRelay.Proofs.Heap.Lookup

/-!
# How many cells there are

A cell is vacant or holds a live object, and a new cell is opened only when no cell is vacant. So no
cell is lost: there are as many cells as there were ever live objects at the same time, and no
object can be made only when there are as many live objects as there can be handles.

## Main definitions

* `Heap.living` : the live objects.
* `Heap.Accounts` : each cell is vacant or holds a live object.
* `Heap.Opens` : a cell is opened only if all others hold live objects.

## Main results

* `Heap.Consistent.mem_living_iff`, `Heap.Consistent.nodup_living`,
  `Heap.Consistent.length_living` : the live objects are listed once each, and counted by the size.
* `Heap.Consistent.opens_next` : what one call does to the cells.
* `Heap.cells_peak` : the number of cells after any calls.
* `Heap.Consistent.answer_eq_error_iff`, `Heap.next_of_error` : when a call fails, and what it
  leaves behind.
* `Heap.no_cell_lost` : all of this together.
-/

namespace TraceRelay

namespace Heap

/-- The live objects. -/
def living (h : Heap) : List ObjectRef := h.live.keys.filterMap h.findLive?

/-- Each cell is vacant or holds a live object. -/
def Accounts (h : Heap) : Prop := h.size + h.vacant.length = h.cells.size

/-- A cell is opened only if all others hold live objects. -/
def Opens (h h' : Heap) : Prop :=
  h'.cells.size = h.cells.size ∨ h'.cells.size = h.cells.size + 1 ∧ h'.vacant = []

variable {h : Heap} {c : HeapCall} {t : Token} {ref : ObjectRef}

/-- Live objects are in different cells. -/
theorem IsLive.eq_of_index {ref' : ObjectRef} {o o' : Replica} (ho : h.object? ref = some o)
    (ho' : h.object? ref' = some o') (hlive : h.IsLive ref) (hlive' : h.IsLive ref')
    (hindex : o.handle.index = o'.handle.index) : ref = ref' := by
  obtain ⟨_, hsame, hget⟩ := hlive
  obtain ⟨_, hsame', hget'⟩ := hlive'
  cases ho.symm.trans hsame
  cases ho'.symm.trans hsame'
  rw [get?_eq_some_iff] at hget hget'
  rw [hindex, hget'] at hget
  simp only [Option.some.injEq, Cell.mk.injEq] at hget
  exact hget.2.symm

namespace Consistent

/-! ### The live objects -/

theorem mem_living_iff (hc : h.Consistent) : ref ∈ h.living ↔ h.IsLive ref := by
  rw [hc.isLive_iff, living, List.mem_filterMap]
  simp only [Heap.standing_eq_live_iff]
  refine ⟨fun ⟨id, _, hs⟩ => ⟨id, hs⟩, fun ⟨id, hs⟩ => ⟨id, ?_, hs⟩⟩
  rw [Std.TreeMap.mem_keys, Std.TreeMap.mem_iff_isSome_getElem?, Option.isSome_iff_ne_none]
  intro hnone
  rw [hc.findLive?_eq_none_iff.mpr hnone] at hs
  cases hs

theorem nodup_living (hc : h.Consistent) : h.living.Nodup := by
  refine List.Nodup.filterMap (fun id id' ref hs hs' => ?_) Std.TreeMap.nodup_keys
  obtain ⟨-, o, ho, rfl⟩ := hc.isLive_of_standing (Heap.standing_eq_live_iff.mpr hs)
  obtain ⟨-, o', ho', rfl⟩ := hc.isLive_of_standing (Heap.standing_eq_live_iff.mpr hs')
  cases ho.symm.trans ho'
  rfl

theorem length_living (hc : h.Consistent) : h.living.length = h.size := by
  rw [size, ← Std.TreeMap.length_keys, living, List.filterMap_length_eq_length]
  intro id hid
  rw [Std.TreeMap.mem_keys, Std.TreeMap.mem_iff_isSome_getElem?] at hid
  rw [Option.isSome_iff_ne_none, ne_eq, hc.findLive?_eq_none_iff]
  exact Option.isSome_iff_ne_none.mp hid

/-! ### One call -/

/-- A new object takes a cell that was vacant, or the one that was opened for it. -/
theorem accounts_settle {room : Heap} {index : UInt32} {vacant : List UInt32}
    (haccounts : room.Accounts) (hvacant : room.vacant = index :: vacant)
    (hlive : room.live[t.objectId]? = none) : (room.settle index vacant t).Accounts := by
  have hsize : (room.settle index vacant t).size = room.size + 1 := by
    have hnew : room.live.contains t.objectId = false := by
      rw [Std.TreeMap.contains_eq_isSome_getElem?, hlive]
      rfl
    exact Std.TreeMap.size_insert.trans (by rw [hnew]; rfl)
  have hcells : (room.settle index vacant t).cells.size = room.cells.size := Array.size_modify
  unfold Accounts at haccounts ⊢
  rw [hvacant, List.length_cons] at haccounts
  rw [hsize, hcells]
  change room.size + 1 + vacant.length = _
  omega

theorem opens_resolves (hc : h.Consistent) (haccounts : h.Accounts) {r : Outcome}
    (hresolves : Resolves t h r) : (Step.final r).Accounts ∧ h.Opens (Step.final r) := by
  cases hresolves with
  | known => exact ⟨haccounts, .inl rfl⟩
  | detached => exact ⟨haccounts, .inl rfl⟩
  | settled hunknown hroom hvacant =>
    rw [← hc.standing_room hroom, (hc.room hroom).standing_eq_unknown_iff] at hunknown
    cases hroom with
    | already => exact ⟨accounts_settle haccounts hvacant hunknown.1, .inl Array.size_modify⟩
    | grown hnone hsize =>
      have hgrown : h.grow.Accounts := by
        unfold Accounts at haccounts ⊢
        rw [hnone, List.length_nil] at haccounts
        simp only [Heap.grow, Array.size_push, List.length_singleton]
        exact congrArg (· + 1) haccounts
      refine ⟨accounts_settle hgrown hvacant hunknown.1, .inr ⟨?_, ?_⟩⟩
      · exact Array.size_modify.trans (Array.size_push _)
      · exact (List.cons.inj hvacant).2.symm
  | exhausted => exact ⟨haccounts, .inl rfl⟩

/-- The cell that an object leaves is vacant. -/
theorem accounts_leaves (haccounts : h.Accounts) {id : ObjectId} {left : Heap}
    (hleaves : Leaves id h left) : left.Accounts ∧ left.cells.size = h.cells.size := by
  cases hleaves with
  | absent => exact ⟨haccounts, rfl⟩
  | @left index hlive =>
    have hmem : h.live.contains id = true := by
      rw [Std.TreeMap.contains_eq_isSome_getElem?, hlive]
      rfl
    have hpos : h.size ≠ 0 := by
      have hsome := Std.TreeMap.isEmpty_eq_false_of_contains hmem
      rw [Std.TreeMap.isEmpty_eq_size_eq_zero] at hsome
      exact of_decide_eq_false hsome
    have hsize : (h.leave id index).size = h.size - 1 :=
      Std.TreeMap.size_erase.trans (by rw [hmem]; rfl)
    have hcells : (h.leave id index).cells.size = h.cells.size := Array.size_modify
    refine ⟨?_, hcells⟩
    unfold Accounts at haccounts ⊢
    rw [hsize, hcells]
    change h.size - 1 + (h.vacant.length + 1) = _
    omega

/-- A call opens a cell only if all others hold live objects. -/
theorem opens_next (hc : h.Consistent) (haccounts : h.Accounts) (c : HeapCall) :
    (h.next c).Accounts ∧ h.Opens (h.next c) := by
  have hhappens := next_happens hc.length_freedOrder c
  generalize h.next c = h' at hhappens ⊢
  cases hhappens with
  | nothing => exact ⟨haccounts, .inl rfl⟩
  | named hkeeps hresolves => exact hc.tick.opens_resolves haccounts hresolves
  | told hkeeps hresolves => exact hc.tick.opens_resolves haccounts hresolves
  | removed hremoves hleaves hburies =>
    obtain ⟨hleft, hcells⟩ := accounts_leaves haccounts hleaves
    cases hburies with
    | kept => exact ⟨hleft, .inl hcells⟩
    | remembered => exact ⟨hleft, .inl hcells⟩

end Consistent

/-! ### Calls that fail -/

/-- A call fails only by naming an id of which nothing is known, when no cell is vacant and no other
can be opened. -/
theorem call_of_error {e : HeapError} (herror : h.answer c = .error e) :
    call c h = .error .exhausted h.tick ∧ (∃ t, c.named? = some t ∧ t.isNull = false ∧
      h.standing t.objectId = .unknown) ∧ h.vacant = [] ∧
        Handle.detached.index.toNat ≤ h.cells.size := by
  cases c with
  | get | lookup | remove => cases herror
  | resolve t | attach t data =>
    cases ht : t.isNull with
    | true => simp [answer, call, attach_eq, resolve, ht] at herror
    | false =>
      have hresolves := resolve_resolves ht h
      simp only [answer, call, attach_eq] at herror ⊢
      generalize resolve t h = r at hresolves herror ⊢
      cases hresolves with
      | known | detached | settled => cases herror
      | exhausted hunknown hvacant hsize => exact ⟨rfl, ⟨t, rfl, ht, hunknown⟩, hvacant, hsize⟩

/-- A call that fails leaves everything as it was, but for the clock. -/
theorem next_of_error {e : HeapError} (herror : h.answer c = .error e) : h.next c = h.tick := by
  rw [next, (call_of_error herror).1, Step.final]

/-- No call that names an object finds one if nothing is known of the id and no cell is left. -/
theorem answer_of_full (hnamed : c.named? = some t) (ht : t.isNull = false)
    (hunknown : h.standing t.objectId = .unknown) (hvacant : h.vacant = [])
    (hsize : Handle.detached.index.toNat ≤ h.cells.size) : h.answer c = .error .exhausted := by
  have hresolve : resolve t h = .error .exhausted h.tick := by
    have hresolves := resolve_resolves ht h
    have hunknown' : h.tick.standing t.objectId = .unknown := hunknown
    generalize resolve t h = r at hresolves ⊢
    cases hresolves with
    | known hknown => simp [hunknown', Standing.ref?] at hknown
    | detached hfreed => simp [hunknown'] at hfreed
    | settled _ hroom hroom' =>
      cases hroom with
      | already => cases hvacant.symm.trans hroom'
      | grown _ hless => exact absurd hless (Nat.not_lt.mpr hsize)
    | exhausted => rfl
  cases c with
  | resolve t' | attach t' data =>
    cases hnamed
    simp only [answer, call, attach_eq, hresolve]
  | get | lookup | remove => cases hnamed

/-- A call fails exactly if it names an id of which nothing is known when there are as many live
objects as there can be handles. -/
theorem Consistent.answer_eq_error_iff (hc : h.Consistent) (haccounts : h.Accounts)
    {e : HeapError} : h.answer c = .error e ↔ h.size = Handle.detached.index.toNat ∧
      ∃ t, c.named? = some t ∧ t.isNull = false ∧ h.standing t.objectId = .unknown := by
  have hcells := hc.size_cells
  unfold Accounts at haccounts
  constructor
  · intro herror
    obtain ⟨-, hnames, hvacant, hsize⟩ := call_of_error herror
    rw [hvacant, List.length_nil] at haccounts
    exact ⟨by omega, hnames⟩
  · rintro ⟨hsize, t, hnamed, ht, hunknown⟩
    have hvacant : h.vacant = [] := List.length_eq_zero_iff.mp (by omega)
    cases e
    exact answer_of_full hnamed ht hunknown hvacant (by omega)

/-! ### Many calls -/

/-- **There are as many cells as there were ever live objects at the same time.** -/
theorem cells_peak (n : Nat) (calls : List HeapCall) :
    let start : Heap := { maxFreed := n }
    (start.after calls).Accounts ∧
      IsGreatest {k | ∃ made, made <+: calls ∧ (start.after made).living.length = k}
        (start.after calls).cells.size := by
  intro start
  induction calls using List.reverseRecOn with
  | nil =>
    refine ⟨rfl, ⟨[], List.prefix_rfl, rfl⟩, ?_⟩
    rintro _ ⟨made, hmade, rfl⟩
    rw [List.prefix_nil.mp hmade]
    exact Nat.le_refl _
  | append_singleton calls c ih =>
    obtain ⟨haccounts, ⟨made, hmade, hpeak⟩, hbound⟩ := ih
    have hc : (start.after calls).Consistent := (consistent_start n calls).1
    obtain ⟨haccounts', hopens⟩ := hc.opens_next haccounts c
    have hcount : ((start.after calls).next c).living.length +
        ((start.after calls).next c).vacant.length = ((start.after calls).next c).cells.size := by
      rw [(hc.next c).length_living]
      exact haccounts'
    have hgrows : (start.after calls).cells.size ≤ ((start.after calls).next c).cells.size := by
      rcases hopens with hsame | ⟨hmore, -⟩ <;> omega
    rw [after_append, after_cons, after_nil]
    refine ⟨haccounts', ?_, ?_⟩
    · rcases hopens with hsame | ⟨-, hvacant⟩
      · exact ⟨made, hmade.trans (List.prefix_append calls [c]), hpeak.trans hsame.symm⟩
      · -- All cells hold objects now, so that there are more live objects than ever before.
        refine ⟨calls ++ [c], List.prefix_rfl, ?_⟩
        rw [hvacant] at hcount
        rw [after_append, after_cons, after_nil]
        exact hcount
    · rintro _ ⟨made', hmade', rfl⟩
      rcases List.prefix_concat_iff.mp hmade' with rfl | hearlier
      · rw [after_append, after_cons, after_nil]
        omega
      · exact Nat.le_trans (hbound ⟨made', hearlier, rfl⟩) hgrows

/-- **No cell is lost.** The live objects are listed once each and counted by the size, and no two
of them have the same place. There are as many cells as there were ever live objects at the same
time. A call fails exactly if it names an id of which nothing is known while there are as many live
objects as there can be places, and then nothing changes but the clock. -/
theorem no_cell_lost (n : Nat) (calls : List HeapCall) :
    let start : Heap := { maxFreed := n }
    let h := start.after calls
    (h.living.Nodup ∧ h.living.length = h.size ∧ ∀ ref, ref ∈ h.living ↔ h.IsLive ref) ∧
    (∀ ref ref' o o', h.object? ref = some o → h.object? ref' = some o' → h.IsLive ref →
      h.IsLive ref' → o.handle.index = o'.handle.index → ref = ref') ∧
    IsGreatest {k | ∃ made, made <+: calls ∧ (start.after made).living.length = k} h.cells.size ∧
    ∀ c, (h.answer c = .error .exhausted ↔ h.living.length = UInt32.size - 1 ∧
        ∃ t, c.named? = some t ∧ t.isNull = false ∧ h.standing t.objectId = .unknown) ∧
      (h.answer c = .error .exhausted → h.next c = { h with clock := h.clock + 1 }) := by
  intro start h
  have hc : h.Consistent := (consistent_start n calls).1
  obtain ⟨haccounts, hpeak⟩ := cells_peak n calls
  refine ⟨⟨hc.nodup_living, hc.length_living, fun ref => hc.mem_living_iff⟩,
    fun ref ref' o o' ho ho' hlive hlive' => hlive.eq_of_index ho ho' hlive', hpeak,
    fun c => ⟨?_, next_of_error⟩⟩
  rw [hc.length_living]
  exact hc.answer_eq_error_iff haccounts

end Heap

end TraceRelay
