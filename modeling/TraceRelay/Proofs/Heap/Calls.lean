import TraceRelay.Heap.Basic
import TraceRelay.Proofs.Maps
import TraceRelay.Proofs.Steps

/-!
# What calls do to the heap

The heap is used through five calls. Two of them name an object, one ends it, and two only look.
This says once what each of them can do, in terms of what the heap knows of an id before the call,
so that what is proved of all calls need not open them again.

## Main definitions

* `HeapCall`, `Heap.call` : a call, what it answers and what it leaves behind.
* `Heap.next`, `Heap.after` : the heap after one call, and after many.
* `Heap.Standing`, `Heap.standing` : what the heap knows of an id.
* `Heap.identity?` : what never changes of an object, its id and its handle.
* `Heap.Happens` : all that a call can do, put together from `Heap.Resolves`, `Heap.Leaves` and
  `Heap.Buries`.

## Main results

* `Heap.resolve_resolves` : how a token is resolved.
* `Heap.vacate_leaves`, `Heap.bury_buries` : what the end of an id does to the cells, and to the
  remembered ids.
* `Heap.next_happens` : there is nothing else that a call does.
-/

namespace TraceRelay

/-- A call of the heap. -/
inductive HeapCall where
  | resolve (t : Token)
  | attach (t : Token) (data : ObjectInfo)
  | get (handle : Handle)
  | lookup (t : Token)
  | remove (t : Token)
deriving DecidableEq

namespace HeapCall

/-- The token by which a call names an object. -/
def named? : HeapCall → Option Token
  | resolve t => some t
  | attach t _ => some t
  | _ => none

/-- A call ends the object of an id, should there be one. -/
def Removes (c : HeapCall) (id : ObjectId) : Prop :=
  ∃ t, c = .remove t ∧ t.isNull = false ∧ t.objectId = id

/-- A call that ends the object of one id ends no other. -/
theorem Removes.eq {c : HeapCall} {id id' : ObjectId} (h : c.Removes id) (h' : c.Removes id') :
    id = id' := by
  obtain ⟨t, rfl, -, rfl⟩ := h
  obtain ⟨t', heq, -, rfl⟩ := h'
  cases heq
  rfl

end HeapCall

namespace Fifo

/-- A queue that is not empty keeps the element that was put in last when one is taken out. -/
theorem exists_pop?_push {α : Type} {q : Fifo α} (hq : q.toList ≠ []) (a : α) :
    ∃ oldest rest, (q.push a).pop? = some (oldest, rest) ∧
      q.toList ++ [a] = oldest :: rest.toList ∧ a ∈ rest.toList := by
  cases hpop : (q.push a).pop? with
  | none => simp [pop?_eq_none_iff] at hpop
  | some popped =>
    have hlist := (toList_push q a).symm.trans (toList_of_pop? hpop)
    refine ⟨popped.1, popped.2, rfl, hlist, ?_⟩
    obtain ⟨oldest, rest, hfront⟩ := List.exists_cons_of_ne_nil hq
    simp only [hfront, List.cons_append, List.cons.injEq] at hlist
    simp [← hlist.2]

end Fifo

namespace Heap

/-- How a call ends. -/
abbrev Outcome := EStateM.Result HeapError Heap (Option ObjectRef)

/-- What a call answers and what it leaves behind. -/
def call : HeapCall → EStateM HeapError Heap (Option ObjectRef)
  | .resolve t => resolve t
  | .attach t data => attach t data
  | .get handle => fun h => .ok (h.get? handle) h
  | .lookup t => fun h => .ok (h.lookup? t) h
  | .remove t => fun h => .ok (h.remove t).1 (h.remove t).2

/-- What a call answers. -/
def answer (h : Heap) (c : HeapCall) : Except HeapError (Option ObjectRef) :=
  match call c h with
  | .ok found _ => .ok found
  | .error e _ => .error e

/-- The heap after a call. -/
def next (h : Heap) (c : HeapCall) : Heap := Step.final (call c h)

/-- The heap after many calls, one after the other. -/
def after (h : Heap) (calls : List HeapCall) : Heap := calls.foldl next h

@[simp] theorem after_nil (h : Heap) : h.after [] = h := rfl

@[simp] theorem after_cons (h : Heap) (c : HeapCall) (calls : List HeapCall) :
    h.after (c :: calls) = (h.next c).after calls := rfl

@[simp] theorem after_append (h : Heap) (calls calls' : List HeapCall) :
    h.after (calls ++ calls') = (h.after calls).after calls' := by
  simp [after]

theorem call_eq_ok {h : Heap} {c : HeapCall} {found : Option ObjectRef}
    (hfound : h.answer c = .ok found) : call c h = .ok found (h.next c) := by
  unfold answer at hfound
  unfold next
  cases hcall : call c h with
  | ok found' h' =>
    rw [hcall] at hfound
    cases hfound
    rfl
  | error e h' => simp [hcall] at hfound

/-- What every call keeps is kept by many. -/
theorem after_induction {P : Heap → Prop} (hstep : ∀ h c, P h → P (h.next c)) {h : Heap} (hP : P h)
    (calls : List HeapCall) : P (h.after calls) := by
  induction calls generalizing h with
  | nil => exact hP
  | cons c calls ih => exact ih (hstep h c hP)

/-! ### What is known -/

/-- What a heap knows of an id. -/
inductive Standing where
  /-- The id has no object and is not remembered. -/
  | unknown
  /-- The id has a live object. -/
  | live (ref : ObjectRef)
  /-- The id is remembered as gone, and may have a detached object. -/
  | freed (found : Option ObjectRef)
deriving DecidableEq

/-- The object that an id stands for. -/
def Standing.ref? : Standing → Option ObjectRef
  | unknown => none
  | live ref => some ref
  | freed found => found

/-- What the heap knows of an id. -/
def standing (h : Heap) (id : ObjectId) : Standing :=
  match h.findLive? id, h.freed[id]? with
  | some ref, _ => .live ref
  | none, some found => .freed found
  | none, none => .unknown

section

variable {h : Heap} {id : ObjectId}

theorem standing_eq_live_iff {ref : ObjectRef} :
    h.standing id = .live ref ↔ h.findLive? id = some ref := by
  cases hlive : h.findLive? id <;> cases hfreed : h.freed[id]? <;> simp [standing, hlive, hfreed]

theorem standing_eq_freed_iff {found : Option ObjectRef} :
    h.standing id = .freed found ↔ h.findLive? id = none ∧ h.freed[id]? = some found := by
  cases hlive : h.findLive? id <;> cases hfreed : h.freed[id]? <;> simp [standing, hlive, hfreed]

theorem standing_eq_unknown_iff :
    h.standing id = .unknown ↔ h.findLive? id = none ∧ h.freed[id]? = none := by
  cases hlive : h.findLive? id <;> cases hfreed : h.freed[id]? <;> simp [standing, hlive, hfreed]

end

/-- What is known of an id stays if neither its cell nor its entries change. -/
theorem standing_congr {h h' : Heap} {id : ObjectId} (hlive : h'.live[id]? = h.live[id]?)
    (hcells : ∀ index, h.live[id]? = some index →
      h'.cells[index.toNat]? = h.cells[index.toNat]?)
    (hfreed : h'.freed[id]? = h.freed[id]?) : h'.standing id = h.standing id := by
  have hfind : h'.findLive? id = h.findLive? id := by
    simp only [findLive?, hlive]
    cases hindex : h.live[id]? with
    | none => rfl
    | some index => simp [hcells index hindex]
  simp only [standing, hfind, hfreed]

/-- What never changes of an object. -/
def identity? (h : Heap) (ref : ObjectRef) : Option (ObjectId × Handle) :=
  (h.objects[ref]?).map fun o => (o.id, o.handle)

theorem identity?_eq_some_iff {h : Heap} {ref : ObjectRef} {id : ObjectId} {handle : Handle} :
    h.identity? ref = some (id, handle) ↔
      ∃ o, h.object? ref = some o ∧ o.id = id ∧ o.handle = handle := by
  simp [identity?, object?]

theorem lt_of_identity? {h : Heap} {ref : ObjectRef} {x : ObjectId × Handle}
    (hx : h.identity? ref = some x) : ref < h.objects.size := by
  simp only [identity?, Option.map_eq_some_iff, Array.getElem?_eq_some_iff] at hx
  obtain ⟨_, ⟨hlt, -⟩, -⟩ := hx
  exact hlt

/-- Only a new object has a new identity. -/
theorem identity?_push (h : Heap) (o : Replica) (ref : ObjectRef) :
    ((h.objects.push o)[ref]?).map (fun o => (o.id, o.handle)) =
      if ref = h.objects.size then some (o.id, o.handle) else h.identity? ref := by
  rw [Array.getElem?_push]
  split <;> rfl

theorem identity?_update (h : Heap) (ref : ObjectRef) (f : Replica → Replica)
    (hid : ∀ o, (f o).id = o.id) (hhandle : ∀ o, (f o).handle = o.handle) (other : ObjectRef) :
    (h.update ref f).identity? other = h.identity? other := by
  simp only [identity?, update, Array.getElem?_modify]
  split <;> simp [Function.comp_def, hid, hhandle]

@[simp] theorem identity?_touch (h : Heap) (t : Token) (seen : UInt64) (ref other : ObjectRef) :
    (h.update ref (.touch t seen)).identity? other = h.identity? other :=
  identity?_update h ref (.touch t seen) (fun _ => rfl) (fun _ => rfl) other

@[simp] theorem identity?_inform (h : Heap) (data : ObjectInfo) (ref other : ObjectRef) :
    (h.update ref ({ · with info := some data })).identity? other = h.identity? other :=
  identity?_update h ref ({ · with info := some data }) (fun _ => rfl) (fun _ => rfl) other

/-! ### Naming -/

/-- The heap as the clock moves on. -/
def tick (h : Heap) : Heap := { h with clock := h.clock + 1 }

/-- The heap with one more cell, which is vacant. -/
def grow (h : Heap) : Heap :=
  { h with cells := h.cells.push {}, vacant := [.ofNat h.cells.size] }

/-- The heap with a detached object for an id that is remembered as gone. -/
def detach (h : Heap) (t : Token) : Heap :=
  { h with
    objects := h.objects.push (.first .detached t h.clock)
    freed := h.freed.insert t.objectId (some h.objects.size) }

/-- The heap with a new object in a cell. -/
def settle (h : Heap) (index : UInt32) (vacant : List UInt32) (t : Token) : Heap :=
  ({ h with vacant }.occupy index t h.clock).2

theorem identity?_detach (h : Heap) (t : Token) (ref : ObjectRef) :
    (h.detach t).identity? ref =
      if ref = h.objects.size then some (t.objectId, .detached) else h.identity? ref :=
  identity?_push h _ ref

theorem identity?_detach_of_some {h : Heap} {ref : ObjectRef} {x : ObjectId × Handle}
    (hx : h.identity? ref = some x) (t : Token) : (h.detach t).identity? ref = some x := by
  rw [identity?_detach, if_neg (Nat.ne_of_lt (lt_of_identity? hx)), hx]

theorem freed_detach (h : Heap) (t : Token) (id : ObjectId) : (h.detach t).freed[id]? =
    if id = t.objectId then some (some h.objects.size) else h.freed[id]? :=
  getElem?_insert h.freed _ _ id

theorem identity?_settle {h : Heap} {index generation : UInt32} {occupant : Option ObjectRef}
    (hcell : h.cells[index.toNat]? = some ⟨generation, occupant⟩) (vacant : List UInt32) (t : Token)
    (ref : ObjectRef) : (h.settle index vacant t).identity? ref =
      if ref = h.objects.size then some (t.objectId, ⟨index, generation⟩) else h.identity? ref := by
  refine (identity?_push h _ ref).trans ?_
  simp [hcell, Replica.first]

theorem identity?_settle_of_some {h : Heap} {index generation : UInt32}
    {occupant : Option ObjectRef} (hcell : h.cells[index.toNat]? = some ⟨generation, occupant⟩)
    {ref : ObjectRef} {x : ObjectId × Handle} (hx : h.identity? ref = some x)
    (vacant : List UInt32) (t : Token) : (h.settle index vacant t).identity? ref = some x := by
  rw [identity?_settle hcell, if_neg (Nat.ne_of_lt (lt_of_identity? hx)), hx]

theorem live_settle (h : Heap) (index : UInt32) (vacant : List UInt32) (t : Token) (id : ObjectId) :
    (h.settle index vacant t).live[id]? = if id = t.objectId then some index else h.live[id]? :=
  getElem?_insert h.live _ _ id

theorem getElem?_modify_cell {cells : Array Cell} {index : UInt32} {cell : Cell}
    (hcell : cells[index.toNat]? = some cell) (f : Cell → Cell) (other : UInt32) :
    (cells.modify index.toNat f)[other.toNat]? =
      if other = index then some (f cell) else cells[other.toNat]? := by
  simp only [Array.getElem?_modify, UInt32.toNat_inj, eq_comm (a := index)]
  split
  next heq => simp [heq, hcell]
  · rfl

/-- Only the cell that was taken has changed. -/
theorem cells_settle {h : Heap} {index generation : UInt32} {occupant : Option ObjectRef}
    (hcell : h.cells[index.toNat]? = some ⟨generation, occupant⟩) (vacant : List UInt32) (t : Token)
    (other : UInt32) : (h.settle index vacant t).cells[other.toNat]? =
      if other = index then some ⟨generation, some h.objects.size⟩ else h.cells[other.toNat]? :=
  getElem?_modify_cell hcell _ other

/-- A heap has a vacant cell, or gets one as long as there are not too many. -/
inductive HasRoom (h : Heap) : Heap → Prop where
  | already : HasRoom h h
  | grown (hvacant : h.vacant = []) (hsize : h.cells.size < Handle.detached.index.toNat) :
    HasRoom h h.grow

/-- All that can happen when a heap resolves a token. -/
inductive Resolves (t : Token) (h : Heap) : Outcome → Prop where
  | known {ref : ObjectRef} (hknown : (h.standing t.objectId).ref? = some ref) :
    Resolves t h (.ok (some ref) (h.update ref (.touch t h.clock)))
  | detached (hfreed : h.standing t.objectId = .freed none) :
    Resolves t h (.ok (some h.objects.size) (h.detach t))
  | settled {room : Heap} {index : UInt32} {vacant : List UInt32}
    (hunknown : h.standing t.objectId = .unknown) (hroom : h.HasRoom room)
    (hvacant : room.vacant = index :: vacant) :
    Resolves t h (.ok (some h.objects.size) (room.settle index vacant t))
  | exhausted (hunknown : h.standing t.objectId = .unknown) (hvacant : h.vacant = [])
    (hsize : Handle.detached.index.toNat ≤ h.cells.size) : Resolves t h (.error .exhausted h)

theorem HasRoom.objects_eq {h room : Heap} (hroom : h.HasRoom room) : room.objects = h.objects := by
  cases hroom <;> rfl

/-- The only cell that can be new is the vacant one, in its first generation. -/
theorem HasRoom.cells_eq {h room : Heap} (hroom : h.HasRoom room) {taken : UInt32}
    {vacant : List UInt32} (hvacant : room.vacant = taken :: vacant) (index : UInt32) :
    room.cells[index.toNat]? = h.cells[index.toNat]? ∨ index = taken ∧
      h.cells[index.toNat]? = none ∧ room.cells[index.toNat]? = some ⟨0, none⟩ := by
  cases hroom with
  | already => exact .inl rfl
  | grown hnone hsize =>
    have hcells : h.grow.cells[index.toNat]? =
      if index.toNat = h.cells.size then some {} else h.cells[index.toNat]? := Array.getElem?_push
    by_cases hindex : index.toNat = h.cells.size
    · refine .inr ⟨?_, by simp [hindex], hcells.trans (if_pos hindex)⟩
      obtain ⟨rfl, -⟩ := List.cons.inj hvacant
      rw [← hindex, UInt32.ofNat_toNat]
    · exact .inl (hcells.trans (if_neg hindex))

theorem Resolves.maxFreed_eq {t : Token} {h : Heap} {r : Outcome} (hresolves : Resolves t h r) :
    (Step.final r).maxFreed = h.maxFreed := by
  cases hresolves with
  | known => rfl
  | detached => rfl
  | settled hunknown hroom => cases hroom <;> rfl
  | exhausted => rfl

theorem insert_cases (t : Token) (h : Heap) :
    (∃ room index vacant, h.HasRoom room ∧ room.vacant = index :: vacant ∧
      insert t h.clock h = .ok h.objects.size (room.settle index vacant t)) ∨
    h.vacant = [] ∧ Handle.detached.index.toNat ≤ h.cells.size ∧
      insert t h.clock h = .error .exhausted h := by
  cases hvacant : h.vacant with
  | cons index vacant =>
    exact .inl ⟨h, index, vacant, .already, hvacant, by simp only [insert, hvacant]; rfl⟩
  | nil =>
    by_cases hsize : h.cells.size < Handle.detached.index.toNat
    · refine .inl ⟨h.grow, _, _, .grown hvacant hsize, rfl, ?_⟩
      simp only [insert, hvacant, ge_iff_le, Nat.not_le.mpr hsize, if_false]
      cases h
      cases hvacant
      rfl
    · refine .inr ⟨rfl, Nat.not_lt.mp hsize, ?_⟩
      simp only [insert, hvacant, ge_iff_le, Nat.not_lt.mp hsize, if_true]

/-- A token is resolved in one of four ways, after the clock has moved on. -/
theorem resolve_resolves {t : Token} (ht : t.isNull = false) (h : Heap) :
    Resolves t h.tick (resolve t h) := by
  simp only [resolve, ht, Bool.false_eq_true, if_false]
  rw [← tick]
  cases hlive : h.tick.findLive? t.objectId with
  | some ref => exact .known (by rw [standing_eq_live_iff.mpr hlive]; rfl)
  | none =>
    cases hfreed : h.freed[t.objectId]? with
    | some found =>
      have hs : h.tick.standing t.objectId = .freed found :=
        standing_eq_freed_iff.mpr ⟨hlive, hfreed⟩
      cases found with
      | some ref => exact .known (by rw [hs]; rfl)
      | none => exact .detached hs
    | none =>
      have hs : h.tick.standing t.objectId = .unknown := standing_eq_unknown_iff.mpr ⟨hlive, hfreed⟩
      dsimp only
      rcases insert_cases t h.tick with
        ⟨room, index, vacant, hroom, hvacant, hinsert⟩ | ⟨hvacant, hsize, hinsert⟩
      · erw [hinsert]
        exact .settled hs hroom hvacant
      · erw [hinsert]
        exact .exhausted hs hvacant hsize

/-! ### Ending -/

/-- The heap whose object in a cell has left. -/
def leave (h : Heap) (id : ObjectId) (index : UInt32) : Heap :=
  { h with
    live := h.live.erase id
    cells := h.cells.modify index.toNat fun cell => ⟨cell.generation + 1, none⟩
    vacant := index :: h.vacant }

/-- Only the cell that the object left has changed. -/
theorem cells_leave {h : Heap} {index generation : UInt32} {occupant : Option ObjectRef}
    (hcell : h.cells[index.toNat]? = some ⟨generation, occupant⟩) (id : ObjectId)
    (other : UInt32) : (h.leave id index).cells[other.toNat]? =
      if other = index then some ⟨generation + 1, none⟩ else h.cells[other.toNat]? :=
  getElem?_modify_cell hcell _ other

theorem live_leave (h : Heap) (id : ObjectId) (index : UInt32) (other : ObjectId) :
    (h.leave id index).live[other]? = if other = id then none else h.live[other]? :=
  getElem?_erase h.live id other

/-- All that can happen to the remembered ids when an id goes: nothing, or else the id is remembered
and those that went first are forgotten. -/
inductive Buries (id : ObjectId) (h : Heap) : Heap → Prop where
  | kept (hkept : h.maxFreed = 0 ∨ ∃ found, h.freed[id]? = some found) : Buries id h h
  | remembered {freed : Std.TreeMap ObjectId (Option ObjectRef)} {order : Fifo ObjectId}
    {dropped : List ObjectId} (hnew : h.freed[id]? = none)
    (horder : h.freedOrder.toList ++ [id] = dropped ++ order.toList) (hid : id ∈ order.toList)
    (hlength : order.toList.length ≤ h.maxFreed)
    (hfreed : ∀ other : ObjectId, freed[other]? =
      if other ∈ dropped then none else if other = id then some none else h.freed[other]?) :
    Buries id h { h with freed, freedOrder := order }

theorem Buries.objects_eq {id : ObjectId} {h h' : Heap} (hburies : Buries id h h') :
    h'.objects = h.objects := by
  cases hburies <;> rfl

theorem Buries.cells_eq {id : ObjectId} {h h' : Heap} (hburies : Buries id h h') :
    h'.cells = h.cells := by
  cases hburies <;> rfl

theorem Buries.maxFreed_eq {id : ObjectId} {h h' : Heap} (hburies : Buries id h h') :
    h'.maxFreed = h.maxFreed := by
  cases hburies <;> rfl

/-- An id that goes is remembered, if it is not already, and the oldest one is forgotten when there
are too many. -/
theorem bury_buries {h : Heap} (hlength : h.freedOrder.toList.length ≤ h.maxFreed) (id : ObjectId) :
    Buries id h (h.bury id) := by
  have hsize := Fifo.length_toList h.freedOrder
  have hpushed : (h.freedOrder.push id).size = h.freedOrder.size + 1 := rfl
  unfold bury
  split
  next hzero => exact .kept (.inl hzero)
  next hzero =>
    split
    next hcontains =>
      rw [Std.TreeMap.contains_eq_isSome_getElem?, Option.isSome_iff_exists] at hcontains
      rw [forget, if_neg (by omega)]
      exact .kept (.inr hcontains)
    next hcontains =>
      rw [Std.TreeMap.contains_eq_isSome_getElem?, Option.not_isSome_iff_eq_none] at hcontains
      by_cases hfull : h.freedOrder.size < h.maxFreed
      · rw [forget, if_neg (by dsimp only; omega)]
        refine .remembered hcontains (show _ = [] ++ _ by simp) (by simp) ?_ fun other => ?_
        · rw [Fifo.length_toList]
          omega
        · simpa using getElem?_insert h.freed id none other
      · -- Some id was remembered, since there is room for one at least.
        have hsome : h.freedOrder.toList ≠ [] := List.ne_nil_of_length_pos (by omega)
        obtain ⟨oldest, order, hpop, horder, hid⟩ := Fifo.exists_pop?_push hsome id
        have hcount := congrArg List.length horder
        simp only [List.length_append, List.length_cons, List.length_nil] at hcount
        rw [forget, if_pos (by dsimp only; omega)]
        simp only [hpop]
        refine .remembered hcontains (show _ = [oldest] ++ _ from horder) hid (by omega) ?_
        simp [getElem?_erase, getElem?_insert]

/-- All that can happen to the cells when an id goes. -/
inductive Leaves (id : ObjectId) (h : Heap) : Heap → Prop where
  | absent (hlive : h.live[id]? = none) : Leaves id h h
  | left {index : UInt32} (hlive : h.live[id]? = some index) : Leaves id h (h.leave id index)

theorem vacate_leaves (h : Heap) (id : ObjectId) : Leaves id h (h.vacate id).2 := by
  unfold vacate
  split
  next hlive => exact .absent hlive
  next hlive => exact .left hlive

theorem Leaves.objects_eq {id : ObjectId} {h left : Heap} (hleaves : Leaves id h left) :
    left.objects = h.objects := by
  cases hleaves <;> rfl

theorem Leaves.freedOrder_eq {id : ObjectId} {h left : Heap} (hleaves : Leaves id h left) :
    left.freedOrder = h.freedOrder := by
  cases hleaves <;> rfl

theorem Leaves.maxFreed_eq {id : ObjectId} {h left : Heap} (hleaves : Leaves id h left) :
    left.maxFreed = h.maxFreed := by
  cases hleaves <;> rfl

/-! ### All calls -/

/-- Data is attached to the object that a token names, if it names one. -/
theorem attach_eq (t : Token) (data : ObjectInfo) (h : Heap) :
    attach t data h = match resolve t h with
      | .ok (some ref) h' => .ok (some ref) (h'.update ref ({ · with info := some data }))
      | r => r := by
  unfold attach
  cases hresolve : resolve t h with
  | error e h' => rw [Step.bind_of_error hresolve]
  | ok found h' =>
    rw [Step.bind_of_ok hresolve]
    cases found <;> rfl

/-- All that a call can do to the heap. -/
inductive Happens (h : Heap) (c : HeapCall) : Heap → Prop where
  | nothing (hkeeps : ∀ id, ¬ c.Removes id) : Happens h c h
  | named {t : Token} {r : Outcome} (hkeeps : ∀ id, ¬ c.Removes id)
    (hresolves : Resolves t h.tick r) : Happens h c (Step.final r)
  | told {t : Token} {r : Outcome} {ref : ObjectRef} {data : ObjectInfo}
    (hkeeps : ∀ id, ¬ c.Removes id) (hresolves : Resolves t h.tick r) :
    Happens h c ((Step.final r).update ref ({ · with info := some data }))
  | removed {id : ObjectId} {left h' : Heap} (hremoves : c.Removes id) (hleaves : Leaves id h left)
    (hburies : Buries id left h') : Happens h c h'

/-- There is nothing else that a call does. -/
theorem next_happens {h : Heap} (hlength : h.freedOrder.toList.length ≤ h.maxFreed)
    (c : HeapCall) : Happens h c (h.next c) := by
  cases c with
  | get handle => exact .nothing nofun
  | lookup t => exact .nothing nofun
  | resolve t =>
    cases ht : t.isNull with
    | true =>
      have hnext : h.next (.resolve t) = h := by simp [next, call, resolve, ht, Step.final]
      rw [hnext]
      exact .nothing nofun
    | false => exact .named nofun (resolve_resolves ht h)
  | attach t data =>
    cases ht : t.isNull with
    | true =>
      have hnext : h.next (.attach t data) = h := by
        simp [next, call, attach_eq, resolve, ht, Step.final]
      rw [hnext]
      exact .nothing nofun
    | false =>
      have hkeeps : ∀ id, ¬ (HeapCall.attach t data).Removes id := nofun
      have hresolves := resolve_resolves ht h
      simp only [next, call, attach_eq]
      cases hresolve : resolve t h with
      | error e h' =>
        rw [hresolve] at hresolves
        exact .named hkeeps hresolves
      | ok found h' =>
        rw [hresolve] at hresolves
        cases found with
        | none => exact .named hkeeps hresolves
        | some ref => exact .told hkeeps hresolves
  | remove t =>
    cases ht : t.isNull with
    | true =>
      have hnext : h.next (.remove t) = h := by simp [next, call, remove, ht, Step.final]
      rw [hnext]
      refine .nothing fun id hremoves => ?_
      obtain ⟨t', heq, ht', -⟩ := hremoves
      cases heq
      simp [ht] at ht'
    | false =>
      have hnext : h.next (.remove t) = (h.vacate t.objectId).2.bury t.objectId := by
        simp [next, call, remove, ht, Step.final]
      rw [hnext]
      have hleaves := vacate_leaves h t.objectId
      refine .removed ⟨t, rfl, ht, rfl⟩ hleaves (bury_buries ?_ _)
      rw [hleaves.freedOrder_eq, hleaves.maxFreed_eq]
      exact hlength

end Heap

end TraceRelay
