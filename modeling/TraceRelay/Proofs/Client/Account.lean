import TraceRelay.Proofs.Client.Calls

/-!
# What was taken is sent or held back

Of each stream, the records that have left, one frame after the other, and then the records that are
held back are the records that were taken, in the order in which they were taken. The same holds of
freed tokens. A change of the ledger that takes nothing moves items from what is held back to what
has left, and nothing else.

## Main definitions

* `Parcel.Sound` : a message that leaves between the beginning and the end of a session.
* `Ledger.Accounts` : a ledger accounts for the records and tokens that were taken.

## Main results

* `Ledger.Accounts.moves` : changes that take nothing.
* `Ledger.Accounts.appendTo`, `Ledger.Accounts.free` : a record, and a token, that is taken.
* `Ledger.Accounts.closeAll` : at the end nothing is held back.
-/

namespace TraceRelay

/-! ### Parcels -/

namespace Parcel

/-- The records that a message carries for a stream. -/
def recordsOn (ref : StreamRef) (p : Parcel) : List Record :=
  match p.message with
  | .analyze _ records => if p.source = some ref then records else []
  | _ => []

/-- The freed tokens that a message carries. -/
def tokens (p : Parcel) : List Token :=
  match p.message with
  | .objectFree tokens => tokens
  | _ => []

/-- A message that leaves between the beginning and the end of a session: records come under the
ordering id of their stream, and no frame is empty. -/
def Sound (p : Parcel) : Prop :=
  match p.message with
  | .close => False
  | .analyze ordering records =>
    records ≠ [] ∧ ∃ ref, p.source = some ref ∧ ordering = ref.ordering
  | .objectFree tokens => tokens ≠ []
  | .threadEnd ordering => ∃ position,
    p.source = some (.own position) ∧ ordering = (StreamRef.own position).ordering
  | _ => True

end Parcel

/-- The records of one stream among those of all streams. -/
def recordsFor (ref : StreamRef) (taken : List (StreamRef × Record)) : List Record :=
  taken.filterMap fun (other, r) => if other = ref then some r else none

@[simp] theorem recordsFor_append (ref : StreamRef) (xs ys : List (StreamRef × Record)) :
    recordsFor ref (xs ++ ys) = recordsFor ref xs ++ recordsFor ref ys :=
  List.filterMap_append

@[simp] theorem recordsFor_singleton (ref other : StreamRef) (r : Record) :
    recordsFor ref [(other, r)] = if other = ref then [r] else [] := by
  unfold recordsFor
  by_cases h : other = ref
  · simp only [List.filterMap_cons, if_pos h, List.filterMap_nil]
  · simp only [List.filterMap_cons, if_neg h, List.filterMap_nil]

namespace Ledger

/-- A ledger accounts for the records and the tokens that were taken. -/
structure Accounts (l : Ledger) (taken : List (StreamRef × Record)) (freed : List Token) :
    Prop where
  records : ∀ ref, l.parcels.flatMap (Parcel.recordsOn ref) ++ (l.pages ref).held =
    recordsFor ref taken
  tokens : l.parcels.flatMap Parcel.tokens ++ l.frees = freed
  parcels : ∀ p ∈ l.parcels, p.Sound

variable {l : Ledger} {taken : List (StreamRef × Record)} {freed : List Token}

theorem accounts_empty (methods : MethodTable) : Accounts { methods } [] [] where
  records _ := rfl
  tokens := rfl
  parcels _ hp := nomatch hp

private theorem mem_parcels_post {p q : Parcel} (h : q ∈ (l.post p).parcels) :
    q ∈ l.parcels ∨ q = p := by
  rcases List.mem_append.1 h with hq | hq
  · exact .inl hq
  · exact .inr (List.mem_singleton.1 hq)

namespace Accounts

/-! ### Changes that take nothing -/

/-- A message without records and tokens. -/
theorem post (h : l.Accounts taken freed) {p : Parcel} (hsound : p.Sound)
    (hrecords : ∀ ref, p.recordsOn ref = []) (htokens : p.tokens = []) :
    (l.post p).Accounts taken freed where
  records ref := by
    change (l.parcels ++ [p]).flatMap _ ++ _ = _
    rw [List.flatMap_append, List.flatMap_singleton, hrecords, List.append_nil]
    exact h.records ref
  tokens := by
    change (l.parcels ++ [p]).flatMap _ ++ _ = _
    rw [List.flatMap_append, List.flatMap_singleton, htokens, List.append_nil]
    exact h.tokens
  parcels q hq := by
    rcases mem_parcels_post hq with hq | rfl
    · exact h.parcels q hq
    · exact hsound

theorem announce (h : l.Accounts taken freed) (name : String) :
    (l.announce name).Accounts taken freed :=
  post (l := { l with methods := l.methods.insert name }) ⟨h.records, h.tokens, h.parcels⟩ trivial
    (fun _ => rfl) rfl

/-- The records of a page may not change, but all else may. -/
private theorem setPage (h : l.Accounts taken freed) {ref : StreamRef} {page : Page}
    (hheld : page.held = (l.pages ref).held) : (l.setPage ref page).Accounts taken freed where
  records ref' := by
    rw [pages_setPage]
    by_cases heq : ref' = ref
    · rw [if_pos heq, hheld, heq]
      exact h.records ref
    · rw [if_neg heq]
      exact h.records ref'
  tokens := h.tokens
  parcels := h.parcels

theorem sealStream (h : l.Accounts taken freed) (ref : StreamRef) :
    (l.sealStream ref).Accounts taken freed := by
  rcases l.sealStream_cases ref with ⟨-, hsealed⟩ | ⟨hsome, hsealed⟩ <;> rw [hsealed]
  · exact h
  refine ⟨fun ref' => ?_, ?_, fun p hp => ?_⟩
  · change (l.parcels ++ [_]).flatMap _ ++ _ = _
    rw [List.flatMap_append, List.flatMap_singleton, pages_post, pages_setPage,
      ← h.records ref']
    by_cases heq : ref' = ref
    · subst heq
      rw [if_pos rfl, List.append_nil]
      exact congrArg _ (if_pos rfl)
    · have hother : Parcel.recordsOn ref' ⟨some ref, .analyze ref.ordering (l.pages ref).held⟩ =
          [] := if_neg fun hsome => heq (Option.some.inj hsome).symm
      rw [if_neg heq, hother, List.append_nil]
  · change (l.parcels ++ [_]).flatMap _ ++ l.frees = _
    rw [List.flatMap_append, List.flatMap_singleton]
    change _ ++ [] ++ _ = _
    rw [List.append_nil]
    exact h.tokens
  · rcases mem_parcels_post hp with hp | rfl
    · exact h.parcels p hp
    · exact ⟨hsome, ref, rfl, rfl⟩

theorem closeStream (h : l.Accounts taken freed) (ref : StreamRef) :
    (l.closeStream ref).Accounts taken freed := by
  have hclosed : (l.setPage ref { l.pages ref with closed := true }).Accounts taken freed :=
    h.setPage rfl
  exact hclosed.sealStream ref

theorem endStream (h : l.Accounts taken freed) (thread : ThreadId) :
    (l.endStream thread).Accounts taken freed := by
  rcases l.endStream_cases thread with ⟨-, hend⟩ | ⟨p, -, hend⟩ <;> rw [hend]
  · exact h
  · have herase : Accounts { l with streamOf := l.streamOf.erase thread } taken freed :=
      ⟨h.records, h.tokens, h.parcels⟩
    exact (herase.closeStream (.own p)).post ⟨p, rfl, rfl⟩ (fun _ => rfl) rfl

theorem orphan (h : l.Accounts taken freed) (thread : ThreadId) :
    (l.orphan thread).Accounts taken freed := by
  rcases l.orphan_cases thread with ⟨-, horphan⟩ | ⟨p, -, horphan⟩ <;> rw [horphan]
  · exact h
  · exact h.setPage rfl

theorem sealFrees (h : l.Accounts taken freed) : l.sealFrees.Accounts taken freed := by
  rcases l.sealFrees_cases with ⟨-, hsealed⟩ | ⟨hsome, hsealed⟩ <;> rw [hsealed]
  · exact h
  refine ⟨fun ref => ?_, ?_, fun p hp => ?_⟩
  · change (l.parcels ++ [_]).flatMap _ ++ (l.pages ref).held = _
    rw [List.flatMap_append, List.flatMap_singleton]
    change _ ++ [] ++ _ = _
    rw [List.append_nil]
    exact h.records ref
  · change (l.parcels ++ [_]).flatMap _ ++ [] = _
    rw [List.flatMap_append, List.flatMap_singleton, List.append_nil]
    exact h.tokens
  · rcases mem_parcels_post hp with hp | rfl
    · exact h.parcels p hp
    · exact hsome

theorem obtain (h : l.Accounts taken freed) (thread : ThreadId) :
    (l.obtain thread).Accounts taken freed := by
  rcases l.obtain_cases thread with ⟨p, -, hobtain⟩ | ⟨-, hobtain⟩ <;> rw [hobtain]
  · exact h
  · exact ⟨h.records, h.tokens, h.parcels⟩

/-- A ledger accounts for the same items as long as nothing is taken. -/
theorem moves {l' : Ledger} (h : l.Accounts taken freed) (hmoves : l.Moves l') :
    l'.Accounts taken freed := by
  induction hmoves with
  | refl => exact h
  | sealStream _ ref ih => exact ih.sealStream ref
  | endStream _ thread ih => exact ih.endStream thread
  | sealFrees _ ih => exact ih.sealFrees
  | obtain _ thread ih => exact ih.obtain thread
  | orphan _ thread ih => exact ih.orphan thread

/-! ### Changes that take something -/

theorem appendTo (h : l.Accounts taken freed) (ref : StreamRef) (r : Record) :
    (l.appendTo ref r).Accounts (taken ++ [(ref, r)]) freed where
  records ref' := by
    change l.parcels.flatMap _ ++ _ = _
    rw [Ledger.appendTo, pages_setPage, recordsFor_append, recordsFor_singleton, ← h.records ref']
    by_cases heq : ref' = ref
    · rw [if_pos heq, if_pos heq.symm, heq, List.append_assoc]
    · rw [if_neg heq, if_neg fun h => heq h.symm, List.append_nil]
  tokens := h.tokens
  parcels := h.parcels

theorem free (h : l.Accounts taken freed) (t : Token) :
    (l.free t).Accounts taken (freed ++ [t]) where
  records := h.records
  tokens := by
    change l.parcels.flatMap _ ++ (l.frees ++ [t]) = _
    rw [← List.append_assoc, h.tokens]
  parcels := h.parcels

end Accounts

/-! ### The end -/

/-- Streams that end hold nothing back. -/
private theorem held_foldl_closeStream (refs : List StreamRef) (l : Ledger) (ref : StreamRef) :
    ((refs.foldl (fun l ref => l.closeStream ref) l).pages ref).held =
      if ref ∈ refs then [] else (l.pages ref).held := by
  induction refs generalizing l with
  | nil => rfl
  | cons first refs ih =>
    rw [List.foldl_cons, ih, pages_closeStream]
    by_cases hmem : ref ∈ refs
    · rw [if_pos hmem, if_pos (List.mem_cons_of_mem _ hmem)]
    · rw [if_neg hmem]
      by_cases heq : ref = first
      · rw [if_pos heq, if_pos (heq ▸ List.mem_cons_self)]
      · rw [if_neg heq, if_neg fun h => (List.mem_cons.1 h).elim heq hmem]

theorem mem_sharedRefs (i : UInt8) : StreamRef.shared i ∈ Client.sharedRefs := by
  refine List.mem_map.2 ⟨i.toNat, List.mem_range.2 i.toNat_lt, ?_⟩
  rw [UInt8.ofNat_toNat]

theorem mem_ownRefs {thread : ThreadId} {position : Nat}
    (h : l.streamOf[thread]? = some position) : (thread, StreamRef.own position) ∈ l.ownRefs :=
  List.mem_map.2 ⟨(thread, position), Std.TreeMap.mem_toList_iff_getElem?_eq_some.2 h, rfl⟩

/-- When all streams have ended, nothing is held back. -/
theorem held_closeEvents (h : l.Sound) (ref : StreamRef) : (l.closeEvents.pages ref).held = [] := by
  have hown : l.ownRefs.foldl (fun l entry => l.closeStream entry.2) l =
      (l.ownRefs.map (·.2)).foldl (fun l ref => l.closeStream ref) l := by
    rw [List.foldl_map]
  rw [closeEvents, held_foldl_closeStream, hown, held_foldl_closeStream]
  cases ref with
  | shared i => rw [if_pos (mem_sharedRefs i)]
  | own p =>
    by_cases hp : ∃ t : ThreadId, l.streamOf[t]? = some p
    · obtain ⟨t, ht⟩ := hp
      have hmem : StreamRef.own p ∈ l.ownRefs.map (·.2) :=
        List.mem_map_of_mem (f := Prod.snd) (mem_ownRefs ht)
      rw [if_pos hmem, ite_self]
    · have hidle := h.idle p fun t ht => hp ⟨t, ht⟩
      rw [hidle, ite_self, ite_self]

/-- **At the end all that was taken has left.** What leaves last is the end of the session. -/
theorem Accounts.closeAll (h : l.Accounts taken freed) (hsound : l.Sound) :
    ∃ parcels, l.closeAll.parcels = parcels ++ [⟨none, .close⟩] ∧ (∀ p ∈ parcels, p.Sound) ∧
      (∀ ref, parcels.flatMap (Parcel.recordsOn ref) = recordsFor ref taken) ∧
      parcels.flatMap Parcel.tokens = freed := by
  have hevents : l.closeEvents.Accounts taken freed :=
    closeEvents_keeps (P := (Accounts · taken freed)) (fun _ ref h => h.closeStream ref) h
  have hheld := held_closeEvents hsound
  unfold Ledger.closeAll
  generalize l.closeEvents = l' at hevents hheld
  have hclosed : l'.closeFrees.Accounts taken freed :=
    ⟨hevents.records, hevents.tokens, hevents.parcels⟩
  have hlast := hclosed.sealFrees
  refine ⟨_, rfl, hlast.parcels, fun ref => ?_, ?_⟩
  · have hrecords := hlast.records ref
    have hnone : (l'.closeFrees.pages ref).held = [] := hheld ref
    rwa [pages_sealFrees, hnone, List.append_nil] at hrecords
  · have htokens := hlast.tokens
    rwa [frees_sealFrees, List.append_nil] at htokens

end Ledger

end TraceRelay
