import TraceRelay.Proofs.Heap.Identity

/-!
# What handles find

The handle of an object tells its cell and how often objects had left the cell before. As long as
the object is live its handle finds it. Afterwards the handle finds nothing until the generation of
the cell, which has thirty-two bits, comes round again.

## Main definitions

* `Cell.Moves` : how a call changes a cell.
* `Heap.departures` : how often an object left a cell during calls.
* `Heap.churn`, `Heap.Idle` : objects that come and go one by one, and the heap after them.

## Main results

* `Heap.Consistent.cells_next` : one call.
* `Heap.Consistent.cells_after`, `Heap.Consistent.occupant?_after_iff` : what a cell holds after
  many calls.
* `Heap.handle_finds_after` : what the handle of a live object finds after many calls.
* `Heap.stale_handle_finds_other` : an object that went long ago has the handle of a new one.
-/

namespace TraceRelay

/-- How a call changes a cell, `fresh` being the position of a new object. -/
inductive Cell.Moves (fresh : ObjectRef) : Option Cell → Option Cell → Prop where
  | stays {cell : Option Cell} : Moves fresh cell cell
  | opened : Moves fresh none (some ⟨0, some fresh⟩)
  | entered {generation : UInt32} :
    Moves fresh (some ⟨generation, none⟩) (some ⟨generation, some fresh⟩)
  | left {generation : UInt32} {ref : ObjectRef} :
    Moves fresh (some ⟨generation, some ref⟩) (some ⟨generation + 1, none⟩)

namespace Heap

/-- The object in a cell. -/
def occupant? (h : Heap) (index : UInt32) : Option ObjectRef :=
  (h.cells[index.toNat]?).bind (·.occupant)

theorem occupant?_eq_some_iff {h : Heap} {index : UInt32} {ref : ObjectRef} :
    h.occupant? index = some ref ↔
      ∃ generation, h.cells[index.toNat]? = some ⟨generation, some ref⟩ := by
  simp only [occupant?, Option.bind_eq_some_iff]
  constructor
  · rintro ⟨⟨generation, _⟩, hcell, rfl⟩
    exact ⟨generation, hcell⟩
  · rintro ⟨generation, hcell⟩
    exact ⟨_, hcell, rfl⟩

/-- How often an object left a cell during calls. -/
def departures (index : UInt32) : Heap → List HeapCall → Nat
  | _, [] => 0
  | h, c :: calls =>
    (if (h.occupant? index).isSome ∧ (h.next c).occupant? index = none then 1 else 0) +
      departures index (h.next c) calls

/-- A generation comes round again after as many steps as there are generations. -/
theorem generation_add_eq_iff {generation : UInt32} {steps : Nat} :
    generation + .ofNat steps = generation ↔ UInt32.size ∣ steps := by
  have hlt := generation.toNat_lt
  rw [← UInt32.toNat_inj, UInt32.toNat_add, UInt32.toNat_ofNat', UInt32.size]
  omega

namespace Consistent

variable {h : Heap}

/-! ### One call -/

theorem cells_resolves (hc : h.Consistent) {t : Token} {r : Outcome} (hresolves : Resolves t h r)
    (index : UInt32) :
    Cell.Moves h.objects.size h.cells[index.toNat]? (Step.final r).cells[index.toNat]? := by
  cases hresolves with
  | known => exact .stays
  | detached => exact .stays
  | @settled room taken vacant hunknown hroom hvacant =>
    obtain ⟨generation, hcell⟩ := (hc.room hroom).cells_head_vacant hvacant
    rw [Step.final, cells_settle hcell, hroom.objects_eq]
    rcases hroom.cells_eq hvacant index with heq | ⟨rfl, hnone, hnew⟩
    · rw [heq]
      split
      next hindex =>
        rw [← heq, hindex, hcell]
        exact .entered
      · exact .stays
    · cases hcell.symm.trans hnew
      rw [if_pos rfl, hnone]
      exact .opened
  | exhausted => exact .stays

/-- A call changes a cell in one of a few ways. -/
theorem cells_next (hc : h.Consistent) (c : HeapCall) (index : UInt32) :
    Cell.Moves h.objects.size h.cells[index.toNat]? (h.next c).cells[index.toNat]? := by
  have hhappens := next_happens hc.length_freedOrder c
  generalize h.next c = h' at hhappens ⊢
  cases hhappens with
  | nothing => exact .stays
  | named hkeeps hresolves => exact hc.tick.cells_resolves hresolves index
  | told hkeeps hresolves => exact hc.tick.cells_resolves hresolves index
  | removed hremoves hleaves hburies =>
    rw [hburies.cells_eq]
    cases hleaves with
    | absent => exact .stays
    | left hlive =>
      obtain ⟨ref, generation, hcell, -⟩ := hc.live_occupied hlive
      rw [cells_leave hcell]
      split
      next heq =>
        rw [heq, hcell]
        exact .left
      · exact .stays

/-! ### Many calls -/

/-- Each departure moves the generation of a cell on by one. -/
theorem cells_after (hc : h.Consistent) {index generation : UInt32} {occupant : Option ObjectRef}
    (hcell : h.cells[index.toNat]? = some ⟨generation, occupant⟩) (calls : List HeapCall) :
    (h.after calls).cells[index.toNat]? =
      some ⟨generation + .ofNat (h.departures index calls), (h.after calls).occupant? index⟩ := by
  induction calls generalizing h generation occupant with
  | nil => simp [departures, occupant?, hcell]
  | cons c calls ih =>
    have hmoves := hc.cells_next c index
    rw [hcell] at hmoves
    generalize hcell' : (h.next c).cells[index.toNat]? = cell' at hmoves
    have hbefore : h.occupant? index = occupant := by simp [occupant?, hcell]
    have hafter : (h.next c).occupant? index = cell'.bind (·.occupant) := by
      rw [occupant?, hcell']
    rw [after_cons, departures, hbefore, hafter]
    cases hmoves with
    | stays =>
      rw [ih (hc.next c) hcell', if_neg (by cases occupant <;> simp), Nat.zero_add]
    | entered => rw [ih (hc.next c) hcell', if_neg (by simp), Nat.zero_add]
    | left =>
      rw [ih (hc.next c) hcell', if_pos (by simp), UInt32.ofNat_add, UInt32.add_assoc]
      rfl

/-- An object that left its cell is not found there again. -/
theorem occupant?_after_ne (hc : h.Consistent) {index : UInt32} {ref : ObjectRef}
    {x : ObjectId × Handle} (hx : h.identity? ref = some x) (hne : h.occupant? index ≠ some ref)
    (calls : List HeapCall) : (h.after calls).occupant? index ≠ some ref := by
  refine (hc.after_induction_of_old hx (P := fun h => h.occupant? index ≠ some ref)
    (fun h c hc hfresh hne => ?_) hne calls).2
  have hmoves := hc.cells_next c index
  unfold occupant? at hne ⊢
  generalize h.cells[index.toNat]? = cell at hmoves hne
  generalize (h.next c).cells[index.toNat]? = cell' at hmoves ⊢
  cases hmoves with
  | stays => exact hne
  | opened => simpa using hfresh
  | entered => simpa using hfresh
  | left => simp

/-- An object is in its cell exactly until an object leaves the cell. -/
theorem occupant?_after_iff (hc : h.Consistent) {index : UInt32} {ref : ObjectRef}
    (hoccupant : h.occupant? index = some ref) (calls : List HeapCall) :
    (h.after calls).occupant? index = some ref ↔ h.departures index calls = 0 := by
  induction calls generalizing h with
  | nil => simp [departures, hoccupant]
  | cons c calls ih =>
    obtain ⟨generation, hcell⟩ := occupant?_eq_some_iff.mp hoccupant
    obtain ⟨id, hx, -⟩ := hc.occupied_live hcell
    have hstep : (h.next c).occupant? index = some ref ∨ (h.next c).occupant? index = none := by
      have hmoves := hc.cells_next c index
      rw [hcell] at hmoves
      unfold occupant?
      generalize (h.next c).cells[index.toNat]? = cell' at hmoves ⊢
      cases hmoves with
      | stays => exact .inl rfl
      | left => exact .inr rfl
    rw [after_cons, departures, hoccupant]
    rcases hstep with hstays | hleft
    · simp [ih (hc.next c) hstays, hstays]
    · have hne : (h.next c).occupant? index ≠ some ref := by simp [hleft]
      simp [(hc.next c).occupant?_after_ne (hc.identity?_next c hx) hne calls, hleft]

/-- An object with a place is live exactly as long as it is in its cell. -/
theorem live_iff_occupant (hc : h.Consistent) {ref : ObjectRef} {id : ObjectId} {handle : Handle}
    (hx : h.identity? ref = some (id, handle)) :
    h.standing id = .live ref ↔ h.occupant? handle.index = some ref := by
  rw [hc.standing_eq_live_iff, occupant?_eq_some_iff]
  constructor
  · rintro ⟨index, generation, hlive, hcell⟩
    obtain ⟨ref', generation', hcell', hx'⟩ := hc.live_occupied hlive
    cases hcell.symm.trans hcell'
    cases hx.symm.trans hx'
    exact ⟨_, hcell⟩
  · rintro ⟨generation, hcell⟩
    obtain ⟨id', hx', hlive⟩ := hc.occupied_live hcell
    obtain rfl : id = id' := congrArg Prod.fst (Option.some.inj (hx.symm.trans hx'))
    exact ⟨_, generation, hlive, hcell⟩

/-- A live object leaves its cell exactly if its id is removed. -/
theorem departures_eq_zero_iff (hc : h.Consistent) {ref : ObjectRef} {id : ObjectId}
    {handle : Handle} (hx : h.identity? ref = some (id, handle)) (hlive : h.standing id = .live ref)
    (calls : List HeapCall) :
    h.departures handle.index calls = 0 ↔ ∀ c ∈ calls, ¬ c.Removes id := by
  have hx' := hc.identity?_after hx calls
  rw [← hc.occupant?_after_iff ((hc.live_iff_occupant hx).mp hlive) calls,
    ← hc.ref?_after_of_live hlive calls, ← (hc.after calls).live_iff_occupant hx']
  obtain ⟨handle', hhandle, hplace, -⟩ := hc.identity?_of_live hlive
  cases hx.symm.trans hhandle
  refine ⟨fun hs => by rw [hs]; rfl, fun href => ?_⟩
  rw [(hc.after calls).standing_of_ref? href hx', if_neg hplace]

end Consistent

/-- **What the handle of a live object finds.** It finds the object until the id is removed. From
then on it never finds the object, and it finds nothing unless the number of objects that have left
the cell since is a multiple of the number of generations; then it finds what is in the cell. -/
theorem handle_finds_after (n : Nat) (before calls : List HeapCall) {ref : ObjectRef} {o : Replica}
    (ho : (({ maxFreed := n } : Heap).after before).object? ref = some o)
    (hlive : (({ maxFreed := n } : Heap).after before).findLive? o.id = some ref) :
    let h := ({ maxFreed := n } : Heap).after before
    let h' := h.after calls
    let gone := h.departures o.handle.index calls
    h.get? o.handle = some ref ∧
      ((∀ c ∈ calls, ¬ c.Removes o.id) → h'.get? o.handle = some ref) ∧
      ((∃ c ∈ calls, c.Removes o.id) → h'.get? o.handle ≠ some ref ∧
        (gone < UInt32.size → h'.get? o.handle = none)) ∧
      h'.get? o.handle = if UInt32.size ∣ gone then h'.occupant? o.handle.index else none := by
  have hc := (consistent_start n before).1
  intro h
  change h.object? ref = some o at ho
  change h.findLive? o.id = some ref at hlive
  change h.Consistent at hc
  clear_value h
  intro h' gone
  have hx := identity?_eq_some_iff.mpr ⟨o, ho, rfl, rfl⟩
  have hs := standing_eq_live_iff.mpr hlive
  obtain ⟨handle, hhandle, -, hget⟩ := hc.identity?_of_live hs
  cases hx.symm.trans hhandle
  have hoccupant := (hc.live_iff_occupant hx).mp hs
  have hfinds : h'.get? o.handle =
      if UInt32.size ∣ gone then h'.occupant? o.handle.index else none := by
    obtain ⟨generation, hcell⟩ := occupant?_eq_some_iff.mp hoccupant
    obtain ⟨id, hx', -⟩ := hc.occupied_live hcell
    have hgeneration : o.handle.generation = generation :=
      congrArg (·.2.generation) (Option.some.inj (hx.symm.trans hx'))
    simp only [get?, h', hc.cells_after hcell calls, hgeneration, Option.bind_eq_bind,
      Option.bind_some, generation_add_eq_iff]
    rfl
  have hzero := hc.departures_eq_zero_iff hx hs calls
  have hstill := hc.occupant?_after_iff hoccupant calls
  refine ⟨hget, fun hkeeps => ?_, ?_, hfinds⟩
  · have hnone : gone = 0 := hzero.mpr hkeeps
    rw [hfinds, hnone, if_pos (Nat.dvd_zero _)]
    exact hstill.mpr hnone
  · rintro ⟨c, hmem, hremoves⟩
    have hsome : gone ≠ 0 := fun hnone => hzero.mp hnone c hmem hremoves
    refine ⟨?_, fun hfew => ?_⟩
    · rw [hfinds]
      split
      · exact fun hfound => hsome (hstill.mp hfound)
      · exact Option.some_ne_none ref ∘ Eq.symm
    · rw [hfinds, if_neg fun hdvd =>
        Nat.not_le.mpr hfew (Nat.le_of_dvd (Nat.pos_of_ne_zero hsome) hdvd)]

theorem handle_finds_after_removal :
    let h := ({ maxFreed := 0 } : Heap).after [.resolve (numberedToken 1)]
    h.get? ⟨0, 0⟩ = some 0 ∧
      (h.after [.remove (numberedToken 1), .resolve (numberedToken 2)]).get? ⟨0, 0⟩ = none := by
  intro h
  have ho : h.object? 0 = some (.first ⟨0, 0⟩ (numberedToken 1) 1) := by decide +kernel
  have hlive : h.findLive? (numberedToken 1).objectId = some 0 := by decide +kernel
  obtain ⟨hget, -, hremoved, -⟩ := handle_finds_after 0 [.resolve (numberedToken 1)]
    [.remove (numberedToken 1), .resolve (numberedToken 2)] ho hlive
  refine ⟨hget, (hremoved ⟨_, List.mem_cons_self, _, rfl, by decide, rfl⟩).2 ?_⟩
  decide +kernel

/-! ### When the generation comes round -/

/-- The calls by which one object after another comes and goes. -/
def churn (ts : List Token) : List HeapCall := ts.flatMap fun t => [.resolve t, .remove t]

/-- A heap that remembers nothing, after some number of objects came and went one by one. -/
structure Idle (count : Nat) (h : Heap) : Prop where
  consistent : h.Consistent
  maxFreed : h.maxFreed = 0
  objects : h.objects.size = count
  cell : h.cells[(0 : UInt32).toNat]? = some ⟨.ofNat count, none⟩
  vacant : h.vacant = [0]
  live : ∀ id : ObjectId, h.live[id]? = none
  freed : ∀ id : ObjectId, h.freed[id]? = none

namespace Idle

variable {h : Heap} {count : Nat} {t : Token}

/-- The next object takes the only cell, in its next generation. -/
theorem resolve (hidle : Idle count h) (ht : t.isNull = false) :
    h.next (.resolve t) = h.tick.settle 0 [] t := by
  have hunknown : h.tick.standing t.objectId = .unknown :=
    hidle.consistent.tick.standing_eq_unknown_iff.mpr ⟨hidle.live _, hidle.freed _⟩
  have hresolves := resolve_resolves ht h
  change Step.final (Heap.resolve t h) = _
  generalize Heap.resolve t h = r at hresolves ⊢
  have hvacant : h.tick.vacant = [0] := hidle.vacant
  cases hresolves with
  | known hknown => simp [hunknown, Standing.ref?] at hknown
  | detached hfreed => simp [hunknown] at hfreed
  | settled _ hroom hroom' =>
    cases hroom with
    | already =>
      cases hvacant.symm.trans hroom'
      rfl
    | grown hnone => simp [hvacant] at hnone
  | exhausted _ hnone => simp [hvacant] at hnone

theorem cells_resolve (hidle : Idle count h) (ht : t.isNull = false) :
    (h.next (.resolve t)).cells[(0 : UInt32).toNat]? = some ⟨.ofNat count, some count⟩ := by
  rw [hidle.resolve ht, cells_settle (h := h.tick) hidle.cell, if_pos rfl, ← hidle.objects]
  rfl

/-- Its handle has the generation of the cell. -/
theorem get?_resolve (hidle : Idle count h) (ht : t.isNull = false) :
    (h.next (.resolve t)).get? ⟨0, .ofNat count⟩ = some count := by
  simp only [get?, hidle.cells_resolve ht, Option.bind_eq_bind, Option.bind_some, if_true]

theorem live_resolve (hidle : Idle count h) (ht : t.isNull = false) (id : ObjectId) :
    (h.next (.resolve t)).live[id]? = if id = t.objectId then some 0 else none := by
  rw [hidle.resolve ht, live_settle]
  simp only [tick, hidle.live]

/-- The object goes, and nothing of it remains but the generation. -/
theorem remove (hidle : Idle count h) (ht : t.isNull = false) :
    (h.next (.resolve t)).next (.remove t) = (h.next (.resolve t)).leave t.objectId 0 := by
  have hmax : (h.next (.resolve t)).maxFreed = 0 :=
    (hidle.consistent.maxFreed_next _).trans hidle.maxFreed
  have hlive := (hidle.live_resolve ht t.objectId).trans (if_pos rfl)
  generalize h.next (.resolve t) = h₁ at hmax hlive ⊢
  simp only [Heap.next, call, Step.final, Heap.remove, ht, Bool.false_eq_true, if_false, vacate,
    hlive, bury, hmax, if_true, leave]

theorem next (hidle : Idle count h) (ht : t.isNull = false) :
    Idle (count + 1) ((h.next (.resolve t)).next (.remove t)) where
  consistent := (hidle.consistent.next _).next _
  maxFreed := by
    rw [(hidle.consistent.next _).maxFreed_next, hidle.consistent.maxFreed_next, hidle.maxFreed]
  objects := by
    rw [hidle.remove ht, hidle.resolve ht]
    exact (Array.size_push _).trans (congrArg (· + 1) hidle.objects)
  cell := by
    rw [hidle.remove ht, cells_leave (hidle.cells_resolve ht), if_pos rfl, UInt32.ofNat_add]
    rfl
  vacant := by
    rw [hidle.remove ht, hidle.resolve ht]
    rfl
  live id := by
    rw [hidle.remove ht, live_leave, hidle.live_resolve ht]
    split <;> rfl
  freed id := by
    rw [hidle.remove ht, hidle.resolve ht]
    exact hidle.freed id

/-- One object after another comes and goes. -/
theorem churn (hidle : Idle count h) {ts : List Token} (hts : ∀ t ∈ ts, t.isNull = false) :
    Idle (count + ts.length) (h.after (churn ts)) := by
  induction ts generalizing h count with
  | nil => exact hidle
  | cons t ts ih =>
    have hnext := hidle.next (hts t List.mem_cons_self)
    have := ih hnext fun t' ht' => hts t' (List.mem_cons_of_mem t ht')
    rw [List.length_cons, ← Nat.add_assoc, Nat.add_right_comm]
    exact this

end Idle

theorem idle_first :
    Idle 1 (({ maxFreed := 0 } : Heap).after (churn [numberedToken 1])) := by
  have hc := (consistent_start 0 (churn [numberedToken 1])).1
  have hmax : (({ maxFreed := 0 } : Heap).after (churn [numberedToken 1])).maxFreed = 0 :=
    (consistent_start 0 _).2
  have hcells : (({ maxFreed := 0 } : Heap).after (churn [numberedToken 1])).cells =
    #[⟨1, none⟩] := by decide +kernel
  refine ⟨hc, hmax, by decide +kernel, by rw [hcells]; rfl, by decide +kernel, fun id => ?_,
    fun id => ?_⟩
  · cases hlive : (({ maxFreed := 0 } : Heap).after (churn [numberedToken 1])).live[id]? with
    | none => rfl
    | some index =>
      obtain ⟨ref, generation, hcell, -⟩ := hc.live_occupied hlive
      simp [hcells, List.getElem?_cons] at hcell
  · have hlength := hc.length_freedOrder
    rw [hmax, Nat.le_zero, List.length_eq_zero_iff] at hlength
    have hiff := hc.mem_freedOrder_iff id
    rw [hlength] at hiff
    exact Option.eq_none_iff_forall_ne_some.mpr fun found hfound =>
      List.not_mem_nil (hiff.mpr ⟨found, hfound⟩)

theorem isNull_numberedToken (i : Nat) : (numberedToken i).isNull = false := by
  simp only [numberedToken, Token.isNull, Token.ofFields, beq_eq_false_iff_ne, ne_eq,
    UInt64.or_eq_zero_iff]
  rintro ⟨⟨-, hclass⟩, -⟩
  exact absurd hclass (by decide)

/-- The tokens of objects whose numbers follow each other. -/
def numberedTokens (first count : Nat) : List Token :=
  (List.range count).map fun i => numberedToken (first + i)

theorem length_numberedTokens (first count : Nat) :
    (numberedTokens first count).length = count := by
  simp [numberedTokens]

theorem isNull_of_mem_numberedTokens {first count : Nat} :
    ∀ t ∈ numberedTokens first count, t.isNull = false := by
  intro t ht
  obtain ⟨i, -, rfl⟩ := List.mem_map.mp ht
  exact isNull_numberedToken _

/-- The handle of the first object finds a later one when the generation has come round. -/
theorem get?_after_churn {others : List Token} (hothers : ∀ t ∈ others, t.isNull = false)
    {count : Nat} (hcount : 1 + others.length = count) (hround : UInt32.ofNat count = 0) {t : Token}
    (ht : t.isNull = false) :
    ((({ maxFreed := 0 } : Heap).after (churn [numberedToken 1])).after
      (churn others ++ [.resolve t])).get? ⟨0, 0⟩ = some count := by
  have hidle := idle_first.churn hothers
  rw [hcount] at hidle
  have hfound := hidle.get?_resolve ht
  rw [hround] at hfound
  rw [after_append]
  exact hfound

/-- An object that went long ago has the handle of a new one: when the cell has had all its
generations, the handle of the first object finds another. -/
theorem stale_handle_finds_other :
    let h := ({ maxFreed := 0 } : Heap).after [.resolve (numberedToken 1)]
    let gone := h.after [.remove (numberedToken 1)]
    h.lookup? (numberedToken 1) = some 0 ∧ h.get? ⟨0, 0⟩ = some 0 ∧
      gone.lookup? (numberedToken 1) = none ∧ gone.get? ⟨0, 0⟩ = none ∧
      (gone.after (churn (numberedTokens 2 (UInt32.size - 1)) ++
        [.resolve (numberedToken (UInt32.size + 1))])).get? ⟨0, 0⟩ = some UInt32.size := by
  refine ⟨by decide +kernel, by decide +kernel, by decide +kernel, by decide +kernel, ?_⟩
  have hcount : 1 + (numberedTokens 2 (UInt32.size - 1)).length = UInt32.size := by
    rw [length_numberedTokens, Nat.add_sub_of_le (by decide)]
  exact get?_after_churn isNull_of_mem_numberedTokens hcount (by decide) (isNull_numberedToken _)

end Heap

end TraceRelay
