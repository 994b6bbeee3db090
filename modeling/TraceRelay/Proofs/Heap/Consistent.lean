import TraceRelay.Proofs.Heap.Calls

/-!
# The heap is consistent

The heap keeps what it knows in several places: the cells, the cell of each live id, the list of
vacant cells, the remembered ids and the order in which they went. They agree with each other,
whatever calls were made.

## Main definitions

* `Heap.Consistent` : what holds of these places together.

## Main results

* `Heap.Consistent.resolves`, `Heap.Consistent.leaves`, `Heap.Consistent.buries` : the heap stays
  consistent whatever happens to it.
* `Heap.Consistent.next` : the heap stays consistent through each call.
* `Heap.consistent_after` : the heap after any calls.
-/

namespace TraceRelay

namespace Heap

/-- The places in which a heap keeps what it knows agree with each other. -/
structure Consistent (h : Heap) : Prop where
  /-- The cell of a live id holds an object of that id. -/
  live_occupied : ∀ {id : ObjectId} {index : UInt32}, h.live[id]? = some index → ∃ ref generation,
    h.cells[index.toNat]? = some ⟨generation, some ref⟩ ∧
      h.identity? ref = some (id, ⟨index, generation⟩)
  /-- An object in a cell has the handle of the cell, and its id is live. -/
  occupied_live : ∀ {index : UInt32} {generation : UInt32} {ref : ObjectRef},
    h.cells[index.toNat]? = some ⟨generation, some ref⟩ →
      ∃ id, h.identity? ref = some (id, ⟨index, generation⟩) ∧ h.live[id]? = some index
  size_cells : h.cells.size ≤ Handle.detached.index.toNat
  nodup_vacant : h.vacant.Nodup
  mem_vacant_iff : ∀ index : UInt32,
    index ∈ h.vacant ↔ ∃ generation, h.cells[index.toNat]? = some ⟨generation, none⟩
  not_freed : ∀ {id : ObjectId} {index : UInt32}, h.live[id]? = some index → h.freed[id]? = none
  nodup_freedOrder : h.freedOrder.toList.Nodup
  mem_freedOrder_iff : ∀ id : ObjectId,
    id ∈ h.freedOrder.toList ↔ ∃ found, h.freed[id]? = some found
  length_freedOrder : h.freedOrder.toList.length ≤ h.maxFreed
  detached : ∀ {id : ObjectId} {ref : ObjectRef}, h.freed[id]? = some (some ref) →
    h.identity? ref = some (id, .detached)
  token : ∀ {ref : ObjectRef} {o : Replica}, h.objects[ref]? = some o → o.token.objectId = o.id

namespace Consistent

variable {h : Heap}

theorem empty (n : Nat) : Consistent { maxFreed := n } where
  live_occupied := by simp
  occupied_live := by simp
  size_cells := Nat.zero_le _
  nodup_vacant := .nil
  mem_vacant_iff := by simp
  not_freed := by simp
  nodup_freedOrder := .nil
  mem_freedOrder_iff := by simp
  length_freedOrder := Nat.zero_le _
  detached := by simp
  token := by simp

theorem standing_eq_live_iff (hc : h.Consistent) {id : ObjectId} {ref : ObjectRef} :
    h.standing id = .live ref ↔ ∃ index generation,
      h.live[id]? = some index ∧ h.cells[index.toNat]? = some ⟨generation, some ref⟩ := by
  rw [Heap.standing_eq_live_iff, findLive?]
  cases hlive : h.live[id]? with
  | none => simp
  | some index =>
    obtain ⟨ref', generation, hcell, -⟩ := hc.live_occupied hlive
    simp [hcell]

/-- An id has no object in a cell unless it is live. -/
theorem findLive?_eq_none_iff (hc : h.Consistent) {id : ObjectId} :
    h.findLive? id = none ↔ h.live[id]? = none := by
  rw [findLive?]
  cases hlive : h.live[id]? with
  | none => simp
  | some index =>
    obtain ⟨ref, generation, hcell, -⟩ := hc.live_occupied hlive
    simp [hcell]

theorem standing_eq_unknown_iff (hc : h.Consistent) {id : ObjectId} :
    h.standing id = .unknown ↔ h.live[id]? = none ∧ h.freed[id]? = none := by
  rw [Heap.standing_eq_unknown_iff, hc.findLive?_eq_none_iff]

theorem standing_eq_freed_iff (hc : h.Consistent) {id : ObjectId} {found : Option ObjectRef} :
    h.standing id = .freed found ↔ h.freed[id]? = some found := by
  rw [Heap.standing_eq_freed_iff, hc.findLive?_eq_none_iff, and_iff_right_iff_imp]
  intro hfreed
  cases hlive : h.live[id]? with
  | none => rfl
  | some index => simp [hc.not_freed hlive] at hfreed

/-- There are not so many cells that one could not be told by its position. -/
theorem toNat_position (hc : h.Consistent) {position : Nat} {cell : Cell}
    (hcell : h.cells[position]? = some cell) : (UInt32.ofNat position).toNat = position := by
  have hlt := (Array.getElem?_eq_some_iff.mp hcell).1
  have hsize : h.cells.size ≤ 0xFFFFFFFF := hc.size_cells
  exact UInt32.toNat_ofNat_of_lt' (Nat.lt_of_lt_of_le hlt (Nat.le_trans hsize (by decide)))

/-- No cell has the position that all detached objects bear. -/
theorem ne_detached (hc : h.Consistent) {index : UInt32} {cell : Cell}
    (hcell : h.cells[index.toNat]? = some cell) (generation : UInt32) :
    (⟨index, generation⟩ : Handle) ≠ .detached := by
  rintro heq
  have hlt := (Array.getElem?_eq_some_iff.mp hcell).1
  have hsize := hc.size_cells
  rw [← heq] at hsize
  dsimp only at hsize
  omega

/-- A live object has the id that it stands for, and a place. -/
theorem identity?_of_live (hc : h.Consistent) {id : ObjectId} {ref : ObjectRef}
    (hlive : h.standing id = .live ref) :
    ∃ handle, h.identity? ref = some (id, handle) ∧ handle ≠ .detached ∧
      h.get? handle = some ref := by
  obtain ⟨index, generation, hindex, hcell⟩ := hc.standing_eq_live_iff.mp hlive
  obtain ⟨ref', generation', hcell', hx⟩ := hc.live_occupied hindex
  cases hcell.symm.trans hcell'
  exact ⟨_, hx, hc.ne_detached hcell generation, by simp [get?, hcell]⟩

/-- A detached object has the id that it stands for, and no place. -/
theorem identity?_of_freed (hc : h.Consistent) {id : ObjectId} {ref : ObjectRef}
    (hfreed : h.standing id = .freed (some ref)) : h.identity? ref = some (id, .detached) :=
  hc.detached (Heap.standing_eq_freed_iff.mp hfreed).2

theorem identity?_of_ref? (hc : h.Consistent) {id : ObjectId} {ref : ObjectRef}
    (href : (h.standing id).ref? = some ref) : ∃ handle, h.identity? ref = some (id, handle) := by
  cases hs : h.standing id with
  | unknown => simp [hs, Standing.ref?] at href
  | live found =>
    obtain ⟨handle, hx, -⟩ := hc.identity?_of_live hs
    simp only [hs, Standing.ref?, Option.some.injEq] at href
    exact ⟨handle, href ▸ hx⟩
  | freed found =>
    simp only [hs, Standing.ref?] at href
    exact ⟨.detached, hc.identity?_of_freed (href ▸ hs)⟩

/-- Whether an object is detached tells in which way its id stands for it. -/
theorem standing_of_ref? (hc : h.Consistent) {id id' : ObjectId} {ref : ObjectRef} {handle : Handle}
    (href : (h.standing id).ref? = some ref) (hx : h.identity? ref = some (id', handle)) :
    h.standing id = if handle = .detached then .freed (some ref) else .live ref := by
  cases hs : h.standing id with
  | unknown => simp [hs, Standing.ref?] at href
  | live found =>
    obtain ⟨handle', hx', hplace, -⟩ := hc.identity?_of_live hs
    simp only [hs, Standing.ref?, Option.some.injEq] at href
    simp_all
  | freed found =>
    simp only [hs, Standing.ref?] at href
    have hx' := hc.identity?_of_freed (href ▸ hs)
    simp_all

theorem tick (hc : h.Consistent) : h.tick.Consistent := { hc with }

/-- An object is told more, but keeps its identity. -/
theorem update (hc : h.Consistent) {ref : ObjectRef} {f : Replica → Replica}
    (hid : ∀ o, (f o).id = o.id) (hhandle : ∀ o, (f o).handle = o.handle)
    (htoken : ∀ o, h.objects[ref]? = some o → (f o).token.objectId = o.id) :
    (h.update ref f).Consistent := by
  have hidentity := h.identity?_update ref f hid hhandle
  refine { hc with live_occupied := ?_, occupied_live := ?_, detached := ?_, token := ?_ }
  · intro id index hlive
    simp only [hidentity]
    exact hc.live_occupied hlive
  · intro index generation ref hcell
    simp only [hidentity]
    exact hc.occupied_live hcell
  · intro id ref hfreed
    rw [hidentity]
    exact hc.detached hfreed
  · intro other o ho
    simp only [Heap.update, Array.getElem?_modify] at ho
    split at ho
    next heq =>
      subst heq
      obtain ⟨o', ho', rfl⟩ := Option.map_eq_some_iff.mp ho
      rw [htoken o' ho', hid]
    · exact hc.token ho

theorem token_push (hc : h.Consistent) {handle : Handle} {t : Token} {seen : UInt64}
    {ref : ObjectRef} {o : Replica} (ho : (h.objects.push (.first handle t seen))[ref]? = some o) :
    o.token.objectId = o.id := by
  rw [Array.getElem?_push] at ho
  split at ho
  · cases ho
    rfl
  · exact hc.token ho

/-- An id that is remembered as gone gets its detached object. -/
theorem detach (hc : h.Consistent) {t : Token} (hfreed : h.freed[t.objectId]? = some none) :
    (h.detach t).Consistent := by
  refine { hc with
    live_occupied := ?_, occupied_live := ?_, not_freed := ?_, mem_freedOrder_iff := ?_,
    detached := ?_, token := ?_ }
  · intro id index hlive
    obtain ⟨ref, generation, hcell, hx⟩ := hc.live_occupied hlive
    exact ⟨ref, generation, hcell, identity?_detach_of_some hx t⟩
  · intro index generation ref hcell
    obtain ⟨id, hx, hlive⟩ := hc.occupied_live hcell
    exact ⟨id, identity?_detach_of_some hx t, hlive⟩
  · intro id index hlive
    have hnone := hc.not_freed hlive
    rw [freed_detach, if_neg (by rintro rfl; simp [hfreed] at hnone), hnone]
  · intro id
    rw [freed_detach]
    refine (hc.mem_freedOrder_iff id).trans ?_
    split
    next heq => simp [heq, hfreed]
    · rfl
  · intro id ref hfound
    rw [freed_detach] at hfound
    split at hfound
    next heq =>
      cases hfound
      rw [identity?_detach, if_pos rfl, heq]
    · exact identity?_detach_of_some (hc.detached hfound) t
  · exact hc.token_push

/-- One more cell is vacant. -/
theorem grow (hc : h.Consistent) (hvacant : h.vacant = [])
    (hsize : h.cells.size < Handle.detached.index.toNat) : h.grow.Consistent := by
  have hlast : (UInt32.ofNat h.cells.size).toNat = h.cells.size :=
    UInt32.toNat_ofNat_of_lt' (Nat.lt_trans hsize (by decide))
  have hcells : ∀ i, h.grow.cells[i]? = if i = h.cells.size then some {} else h.cells[i]? :=
    fun i => Array.getElem?_push
  refine { hc with
    live_occupied := ?_, occupied_live := ?_, size_cells := ?_, nodup_vacant := ?_,
    mem_vacant_iff := ?_ }
  · intro id index hlive
    obtain ⟨ref, generation, hcell, hx⟩ := hc.live_occupied hlive
    have hlt := (Array.getElem?_eq_some_iff.mp hcell).1
    exact ⟨ref, generation, by rw [hcells, if_neg (Nat.ne_of_lt hlt), hcell], hx⟩
  · intro index generation ref hcell
    rw [hcells] at hcell
    split at hcell
    · simp at hcell
    · exact hc.occupied_live hcell
  · simp only [Heap.grow, Array.size_push]
    omega
  · simp [Heap.grow]
  · intro index
    have hnone : ∀ generation, h.cells[index.toNat]? ≠ some ⟨generation, none⟩ := by
      intro generation hcell
      simpa [hvacant] using (hc.mem_vacant_iff index).mpr ⟨generation, hcell⟩
    rw [hcells]
    simp only [Heap.grow, List.mem_singleton, ← UInt32.toNat_inj, hlast]
    split
    next heq => simp [heq]
    next hne => simp [hne, hnone]

/-- One more cell changes nothing of what is known. -/
theorem standing_room (hc : h.Consistent) {room : Heap} (hroom : h.HasRoom room) (id : ObjectId) :
    room.standing id = h.standing id := by
  cases hroom with
  | already => rfl
  | grown hnone hsize =>
    refine standing_congr rfl (fun index hlive => ?_) rfl
    obtain ⟨ref, generation, hcell, -⟩ := hc.live_occupied hlive
    have hlt := (Array.getElem?_eq_some_iff.mp hcell).1
    exact Array.getElem?_push.trans (if_neg (Nat.ne_of_lt hlt))

theorem room (hc : h.Consistent) {room : Heap} (hroom : h.HasRoom room) : room.Consistent := by
  cases hroom with
  | already => exact hc
  | grown hnone hsize => exact hc.grow hnone hsize

/-- The vacant cell that is listed first holds no object. -/
theorem cells_head_vacant (hc : h.Consistent) {index : UInt32} {vacant : List UInt32}
    (hvacant : h.vacant = index :: vacant) :
    ∃ generation, h.cells[index.toNat]? = some ⟨generation, none⟩ :=
  (hc.mem_vacant_iff index).mp (by rw [hvacant]; exact List.mem_cons_self)

/-- A new object is put in a vacant cell. -/
theorem settle (hc : h.Consistent) {index : UInt32} {vacant : List UInt32} {t : Token}
    (hvacant : h.vacant = index :: vacant) (hlive : h.live[t.objectId]? = none)
    (hfreed : h.freed[t.objectId]? = none) : (h.settle index vacant t).Consistent := by
  obtain ⟨generation, hcell⟩ := hc.cells_head_vacant hvacant
  have hnodup := List.nodup_cons.mp (hvacant ▸ hc.nodup_vacant)
  have hcells := cells_settle hcell vacant t
  have hkept : ∀ {ref x}, h.identity? ref = some x →
      (h.settle index vacant t).identity? ref = some x :=
    fun hx => identity?_settle_of_some hcell hx vacant t
  refine { hc with
    live_occupied := ?_, occupied_live := ?_, size_cells := ?_, nodup_vacant := hnodup.2,
    mem_vacant_iff := ?_, not_freed := ?_, detached := fun hfound => hkept (hc.detached hfound),
    token := hc.token_push }
  · intro id other hother
    rw [live_settle] at hother
    split at hother
    next heq =>
      cases hother
      refine ⟨h.objects.size, generation, ?_, ?_⟩
      · rw [hcells, if_pos rfl]
      · rw [identity?_settle hcell, if_pos rfl, heq]
    · obtain ⟨ref, g, hg, hx⟩ := hc.live_occupied hother
      refine ⟨ref, g, ?_, hkept hx⟩
      rw [hcells, if_neg, hg]
      rintro rfl
      simp [hcell] at hg
  · intro other g ref hg
    rw [hcells] at hg
    split at hg
    next heq =>
      cases hg
      refine ⟨t.objectId, ?_, ?_⟩
      · rw [identity?_settle hcell, if_pos rfl, heq]
      · rw [live_settle, if_pos rfl, heq]
    · obtain ⟨id, hx, hid⟩ := hc.occupied_live hg
      refine ⟨id, hkept hx, ?_⟩
      rw [live_settle, if_neg, hid]
      rintro rfl
      simp [hlive] at hid
  · simpa [Heap.settle, occupy, make] using hc.size_cells
  · intro other
    change other ∈ vacant ↔ _
    simp only [hcells]
    split
    next heq => simp [heq, hnodup.1]
    next hne => rw [← hc.mem_vacant_iff, hvacant, List.mem_cons, or_iff_right hne]
  · intro id other hother
    rw [live_settle] at hother
    split at hother
    next heq => exact heq ▸ hfreed
    · exact hc.not_freed hother

/-- The object of a live id leaves its cell. -/
theorem leave (hc : h.Consistent) {id : ObjectId} {index : UInt32}
    (hlive : h.live[id]? = some index) : (h.leave id index).Consistent := by
  obtain ⟨ref, generation, hcell, hx⟩ := hc.live_occupied hlive
  have hcells := cells_leave hcell id
  refine { hc with
    live_occupied := ?_, occupied_live := ?_, size_cells := ?_, nodup_vacant := ?_,
    mem_vacant_iff := ?_, not_freed := ?_ }
  · intro other index' hother
    rw [live_leave] at hother
    split at hother
    · cases hother
    next hne =>
      obtain ⟨ref', g, hg, hx'⟩ := hc.live_occupied hother
      refine ⟨ref', g, ?_, hx'⟩
      rw [hcells, if_neg, hg]
      rintro rfl
      simp_all
  · intro index' g ref' hg
    rw [hcells] at hg
    split at hg
    · simp at hg
    next hne =>
      obtain ⟨other, hx', hother⟩ := hc.occupied_live hg
      refine ⟨other, hx', ?_⟩
      rw [live_leave, if_neg, hother]
      rintro rfl
      simp_all
  · simpa [Heap.leave] using hc.size_cells
  · refine List.nodup_cons.mpr ⟨?_, hc.nodup_vacant⟩
    simp [hc.mem_vacant_iff, hcell]
  · intro index'
    change index' ∈ index :: h.vacant ↔ _
    rw [List.mem_cons, hc.mem_vacant_iff, hcells]
    split
    next heq => simp [heq]
    next hne => rw [or_iff_right hne]
  · intro other index' hother
    rw [live_leave] at hother
    split at hother
    · cases hother
    · exact hc.not_freed hother

/-- No id is remembered twice when one more is. -/
theorem nodup_remembered (hc : h.Consistent) {id : ObjectId} {dropped order : List ObjectId}
    (hnew : h.freed[id]? = none) (horder : h.freedOrder.toList ++ [id] = dropped ++ order) :
    (dropped ++ order).Nodup := by
  have hfresh : id ∉ h.freedOrder.toList := by simp [hc.mem_freedOrder_iff, hnew]
  rw [← horder, List.nodup_append]
  refine ⟨hc.nodup_freedOrder, by simp, ?_⟩
  simpa using fun a ha => ne_of_mem_of_not_mem ha hfresh

/-- An id that has no live object is remembered as gone. -/
theorem buries (hc : h.Consistent) {id : ObjectId} {h' : Heap} (hlive : h.live[id]? = none)
    (hburies : Buries id h h') : h'.Consistent := by
  cases hburies with
  | kept => exact hc
  | @remembered freed order dropped hnew horder hid hlength hfreed =>
    obtain ⟨-, hnodup, hdisjoint⟩ := List.nodup_append.mp (hc.nodup_remembered hnew horder)
    have hmem : ∀ other, other ∈ h.freedOrder.toList ∨ other = id ↔
        other ∈ dropped ∨ other ∈ order.toList := by
      intro other
      rw [← List.mem_append, ← horder]
      simp
    refine { hc with
      not_freed := ?_, nodup_freedOrder := hnodup,
      mem_freedOrder_iff := ?_, length_freedOrder := hlength, detached := ?_ }
    · intro other index hother
      have hne : other ≠ id := by
        rintro rfl
        simp [hlive] at hother
      rw [hfreed, if_neg hne, hc.not_freed hother, ite_self]
    · intro other
      rw [hfreed]
      split
      next hdropped => simpa using fun hother => hdisjoint other hdropped other hother rfl
      next hdropped =>
        have := hmem other
        split
        next heq => simp [heq, hid]
        next hne => simpa [hne, hdropped, ← hc.mem_freedOrder_iff] using this.symm
    · intro other ref hfound
      rw [hfreed] at hfound
      split at hfound
      · cases hfound
      · split at hfound
        · cases hfound
        · exact hc.detached hfound

/-- A heap that resolves a token stays consistent. -/
theorem resolves (hc : h.Consistent) {t : Token} {r : Outcome} (hresolves : Resolves t h r) :
    (Step.final r).Consistent := by
  cases hresolves with
  | known hknown =>
    refine hc.update (fun _ => rfl) (fun _ => rfl) fun o ho => ?_
    obtain ⟨handle, hx⟩ := hc.identity?_of_ref? hknown
    simp only [identity?, ho, Option.map_some, Option.some.injEq, Prod.mk.injEq] at hx
    exact hx.1.symm
  | detached hfreed => exact hc.detach (Heap.standing_eq_freed_iff.mp hfreed).2
  | settled hunknown hroom hvacant =>
    rw [← hc.standing_room hroom, (hc.room hroom).standing_eq_unknown_iff] at hunknown
    exact (hc.room hroom).settle hvacant hunknown.1 hunknown.2
  | exhausted hunknown => exact hc

/-- An id goes, with the object that it may have. -/
theorem leaves (hc : h.Consistent) {id : ObjectId} {left : Heap} (hleaves : Leaves id h left) :
    left.Consistent ∧ left.live[id]? = none := by
  cases hleaves with
  | absent hlive => exact ⟨hc, hlive⟩
  | left hlive =>
    exact ⟨hc.leave hlive, (live_leave h id _ id).trans (if_pos rfl)⟩

/-- Every call keeps a heap consistent. -/
theorem next (hc : h.Consistent) (c : HeapCall) : (h.next c).Consistent := by
  have hhappens := next_happens hc.length_freedOrder c
  generalize h.next c = h' at hhappens ⊢
  cases hhappens with
  | nothing => exact hc
  | named hkeeps hresolves => exact hc.tick.resolves hresolves
  | told hkeeps hresolves =>
    have hc' := hc.tick.resolves hresolves
    exact hc'.update (fun _ => rfl) (fun _ => rfl) fun o ho => (hc'.token ho :)
  | removed hremoves hleaves hburies =>
    obtain ⟨hc', hlive⟩ := hc.leaves hleaves
    exact hc'.buries hlive hburies

/-- Any number of calls keep a heap consistent. -/
theorem after (hc : h.Consistent) (calls : List HeapCall) : (h.after calls).Consistent :=
  after_induction (fun _ c hc => hc.next c) hc calls

/-- The bound on the remembered ids does not change. -/
theorem maxFreed_next (hc : h.Consistent) (c : HeapCall) : (h.next c).maxFreed = h.maxFreed := by
  have hhappens := next_happens hc.length_freedOrder c
  generalize h.next c = h' at hhappens ⊢
  cases hhappens with
  | nothing => rfl
  | named hkeeps hresolves => exact hresolves.maxFreed_eq
  | told hkeeps hresolves => exact hresolves.maxFreed_eq
  | removed hremoves hleaves hburies => rw [hburies.maxFreed_eq, hleaves.maxFreed_eq]

end Consistent

/-- Whatever calls were made of a new heap, it is consistent, and the bound is the one it began
with. -/
theorem consistent_start (n : Nat) (calls : List HeapCall) :
    (({ maxFreed := n } : Heap).after calls).Consistent ∧
      (({ maxFreed := n } : Heap).after calls).maxFreed = n :=
  after_induction (P := fun h => h.Consistent ∧ h.maxFreed = n)
    (fun _ c hP => ⟨hP.1.next c, (hP.1.maxFreed_next c).trans hP.2⟩) ⟨.empty n, rfl⟩ calls

/-- **The heap is consistent after any calls.** The live ids lead to the cells of their objects and
to no others, and the handles of objects in cells are those of the cells. The vacant cells, and the
ids that are remembered as gone, are listed once each and completely. No more ids are remembered
than are allowed, and none of them is live. The detached object of an id has that id, and the last
token of every object names it. -/
theorem consistent_after (n : Nat) (calls : List HeapCall) :
    let h := ({ maxFreed := n } : Heap).after calls
    (∀ (id : ObjectId) (index : UInt32), h.live[id]? = some index ↔ ∃ cell ref o,
      h.cells[index.toNat]? = some cell ∧ cell.occupant = some ref ∧ h.object? ref = some o ∧
        o.id = id ∧ o.handle = ⟨index, cell.generation⟩) ∧
    (∀ (index : Nat) (cell : Cell) (ref : ObjectRef), h.cells[index]? = some cell →
      cell.occupant = some ref → ∃ o, h.object? ref = some o ∧
        o.handle = ⟨.ofNat index, cell.generation⟩ ∧ o.handle ≠ .detached) ∧
    h.vacant.Nodup ∧
    (∀ index : Nat, index ∈ h.vacant.map (·.toNat) ↔
      ∃ cell, h.cells[index]? = some cell ∧ cell.occupant = none) ∧
    h.freedOrder.toList.Nodup ∧
    (∀ id : ObjectId, id ∈ h.freedOrder.toList ↔ id ∈ h.freed) ∧
    h.freedOrder.toList.length ≤ n ∧
    (∀ id : ObjectId, ¬ (id ∈ h.live ∧ id ∈ h.freed)) ∧
    (∀ (id : ObjectId) (ref : ObjectRef), h.freed[id]? = some (some ref) →
      ∃ o, h.object? ref = some o ∧ o.id = id ∧ o.handle = .detached) ∧
    ∀ (ref : ObjectRef) (o : Replica), h.object? ref = some o → o.token.objectId = o.id := by
  intro h
  obtain ⟨hc, hn⟩ : h.Consistent ∧ h.maxFreed = n := consistent_start n calls
  refine ⟨fun id index => ⟨fun hlive => ?_, ?_⟩, ?_, hc.nodup_vacant, fun index => ?_,
    hc.nodup_freedOrder, fun id => ?_, hn ▸ hc.length_freedOrder, ?_, fun id ref hfreed => ?_,
    fun ref o ho => hc.token ho⟩
  · obtain ⟨ref, generation, hcell, hx⟩ := hc.live_occupied hlive
    obtain ⟨o, ho, hid, hhandle⟩ := identity?_eq_some_iff.mp hx
    exact ⟨_, ref, o, hcell, rfl, ho, hid, hhandle⟩
  · rintro ⟨⟨generation, _⟩, ref, o, hcell, rfl, ho, hid, hhandle⟩
    obtain ⟨id', hx, hlive⟩ := hc.occupied_live hcell
    cases hx.symm.trans (identity?_eq_some_iff.mpr ⟨o, ho, hid, hhandle⟩)
    exact hlive
  · rintro index ⟨generation, _⟩ ref hcell rfl
    have hposition := hc.toNat_position hcell
    rw [← hposition] at hcell
    obtain ⟨id, hx, hlive⟩ := hc.occupied_live hcell
    obtain ⟨o, ho, -, hhandle⟩ := identity?_eq_some_iff.mp hx
    exact ⟨o, ho, hhandle, hhandle ▸ hc.ne_detached hcell generation⟩
  · simp only [List.mem_map, hc.mem_vacant_iff]
    constructor
    · rintro ⟨position, ⟨generation, hcell⟩, rfl⟩
      exact ⟨_, hcell, rfl⟩
    · rintro ⟨⟨generation, _⟩, hcell, rfl⟩
      have hposition := hc.toNat_position hcell
      exact ⟨.ofNat index, ⟨generation, by rw [hposition, hcell]⟩, hposition⟩
  · rw [hc.mem_freedOrder_iff, Std.TreeMap.mem_iff_isSome_getElem?, Option.isSome_iff_exists]
  · rintro id ⟨hlive, hfreed⟩
    rw [Std.TreeMap.mem_iff_isSome_getElem?, Option.isSome_iff_exists] at hlive hfreed
    obtain ⟨index, hlive⟩ := hlive
    simp [hc.not_freed hlive] at hfreed
  · exact identity?_eq_some_iff.mp (hc.detached hfreed)

end Heap

end TraceRelay
