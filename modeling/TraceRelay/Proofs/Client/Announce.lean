import Mathlib.Data.List.Dedup
import TraceRelay.Proofs.Client.Account
import TraceRelay.Proofs.Methods

/-!
# Methods are announced before they are used

Each method gets a number once, the numbers are given out without gaps, and the announcement goes to
the outbox before any record of the method can. Likewise the end of a stream goes to the outbox
once, when the stream ends.

## Main definitions

* `Ledger.Announces` : a ledger announced the methods that have a number, in time.
* `Ledger.Ends` : a ledger told the end of the streams that have ended.

## Main results

* `Ledger.Announces.announce`, `Ledger.Announces.moves` : a new method, and changes that take
  nothing.
* `Ledger.Ends.moves` : ends are told once.
-/

namespace TraceRelay

/-- The stream of a thread of which a message tells the end. -/
def Parcel.ends? (p : Parcel) : Option Nat :=
  match p.message, p.source with
  | .threadEnd _, some (.own position) => some position
  | _, _ => none

namespace Ledger

/-- The methods that were announced, in the order of their announcements. -/
def announced (l : Ledger) : List (MethodId × String) :=
  l.parcels.filterMap fun p => p.message.announces?

/-- The streams of threads of which the end was told. -/
def ended (l : Ledger) : List Nat := l.parcels.filterMap Parcel.ends?

/-- A ledger announced the methods that have a number, each before its records. -/
structure Announces (l : Ledger) (named : List (String × MethodId)) : Prop where
  ids : l.announced.map (·.1) = MethodId.upTo l.methods.count
  few : l.methods.count ≤ MethodTable.maxId
  find : ∀ name id, l.methods.find? name = some id ↔ (id, name) ∈ l.announced
  named : ∀ name id, (name, id) ∈ named ↔ (id, name) ∈ l.announced
  inOrder : Message.InOrder [] (l.parcels.map (·.message))
  held : ∀ ref, ∀ r ∈ (l.pages ref).held, ∃ name, (r.method, name) ∈ l.announced

variable {l : Ledger} {named : List (String × MethodId)}

theorem announces_empty : Announces {} [] where
  ids := rfl
  few := Nat.zero_le _
  find name id := by simp [MethodTable.find?, announced]
  named _ _ := by simp [announced]
  inOrder := trivial
  held _ _ hr := nomatch hr

private theorem announced_post (p : Parcel) (l : Ledger) :
    (l.post p).announced = l.announced ++ p.message.announces?.toList :=
  filterMap_concat _ l.parcels p

private theorem inOrder_post {p : Parcel} (h : Message.InOrder [] (l.parcels.map (·.message)))
    (hp : ∀ r ∈ p.message.records, ∃ name, (r.method, name) ∈ l.announced) :
    Message.InOrder [] ((l.post p).parcels.map (·.message)) := by
  change Message.InOrder [] ((l.parcels ++ [p]).map (·.message))
  rw [List.map_append, List.map_singleton, Message.inOrder_concat, List.nil_append,
    List.filterMap_map]
  exact ⟨h, hp⟩

/-- A number was given out exactly if a method was announced under it. -/
theorem Announces.contains_iff (h : l.Announces named) (id : MethodId) :
    l.methods.contains id = true ↔ ∃ name, (id, name) ∈ l.announced := by
  have hmem : (∃ name, (id, name) ∈ l.announced) ↔ id ∈ MethodId.upTo l.methods.count := by
    rw [← h.ids, List.mem_map]
    constructor
    · rintro ⟨name, hname⟩
      exact ⟨_, hname, rfl⟩
    · rintro ⟨⟨_, name⟩, hname, rfl⟩
      exact ⟨name, hname⟩
  rw [hmem, MethodTable.contains_iff h.few]

namespace Announces

/-- A message without an announcement. -/
theorem post (h : l.Announces named) {p : Parcel} (hnone : p.message.announces? = none)
    (hp : ∀ r ∈ p.message.records, ∃ name, (r.method, name) ∈ l.announced) :
    (l.post p).Announces named := by
  have hsame : (l.post p).announced = l.announced := by
    rw [announced_post, hnone, Option.toList_none, List.append_nil]
  refine ⟨?_, h.few, ?_, ?_, inOrder_post h.inOrder hp, ?_⟩
  · rw [hsame]
    exact h.ids
  · rw [hsame]
    exact h.find
  · rw [hsame]
    exact h.named
  · rw [hsame]
    exact h.held

/-- A name that is new gets the next number. -/
theorem announce (h : l.Announces named) {name : String} (hnew : l.methods.find? name = none)
    (hfew : l.methods.count < MethodTable.maxId) :
    (l.announce name).Announces (named ++ [(name, .ofNat (l.methods.count + 1))]) := by
  have hmore : (l.announce name).announced =
      l.announced ++ [(.ofNat (l.methods.count + 1), name)] :=
    announced_post _ { l with methods := l.methods.insert name }
  refine ⟨?_, hfew, fun other id => ?_, fun other id => ?_, inOrder_post h.inOrder nofun,
    fun ref r hr => ?_⟩
  · rw [hmore, List.map_append, h.ids]
    exact (MethodId.upTo_succ l.methods.count).symm
  · change (l.methods.insert name).find? other = some id ↔ _
    rw [MethodTable.find?_insert, hmore, List.mem_append, List.mem_singleton, Prod.mk.injEq]
    by_cases heq : other = name
    · have hnone : (id, other) ∉ l.announced := by
        rw [← h.find, heq, hnew]
        nofun
      rw [if_pos heq, Option.some.injEq]
      exact ⟨fun hid => .inr ⟨hid.symm, heq⟩,
        fun hmem => hmem.elim (fun hold => absurd hold hnone) fun hid => hid.1.symm⟩
    · rw [if_neg heq, h.find]
      exact ⟨.inl, fun hmem => hmem.resolve_right fun hid => heq hid.2⟩
  · rw [hmore, List.mem_append, List.mem_append, h.named, List.mem_singleton, List.mem_singleton,
      Prod.mk.injEq, Prod.mk.injEq, and_comm (a := other = name)]
  · obtain ⟨known, hknown⟩ := h.held ref r hr
    rw [hmore]
    exact ⟨known, List.mem_append_left _ hknown⟩

/-- A name that is known keeps its number. -/
theorem again (h : l.Announces named) {name : String} {id : MethodId}
    (hold : l.methods.find? name = some id) : l.Announces (named ++ [(name, id)]) := by
  refine { h with named := fun other id' => ?_ }
  rw [List.mem_append, List.mem_singleton, h.named, Prod.mk.injEq]
  refine ⟨fun hmem => hmem.elim (fun hmem => hmem) fun heq => ?_, .inl⟩
  rw [heq.1, heq.2]
  exact (h.find name id).1 hold

/-- A record of which the method has a number can be held back. -/
theorem appendTo (h : l.Announces named) (ref : StreamRef) {r : Record}
    (hr : l.methods.contains r.method = true) : (l.appendTo ref r).Announces named := by
  refine { h with held := fun ref' r' hr' => ?_ }
  rw [Ledger.appendTo, pages_setPage] at hr'
  by_cases heq : ref' = ref
  · rw [if_pos heq] at hr'
    rcases List.mem_append.1 hr' with hold | hnew
    · exact h.held ref r' hold
    · rw [List.mem_singleton.1 hnew]
      exact (h.contains_iff r.method).1 hr
  · rw [if_neg heq] at hr'
    exact h.held ref' r' hr'

theorem free (h : l.Announces named) (t : Token) : (l.free t).Announces named := { h with }

/-- What a page holds may become less. -/
private theorem setPage (h : l.Announces named) {ref : StreamRef} {page : Page}
    (hpage : ∀ r ∈ page.held, r ∈ (l.pages ref).held) : (l.setPage ref page).Announces named := by
  refine { h with held := fun ref' r hr => ?_ }
  rw [pages_setPage] at hr
  by_cases heq : ref' = ref
  · rw [if_pos heq] at hr
    exact h.held ref r (hpage r hr)
  · rw [if_neg heq] at hr
    exact h.held ref' r hr

theorem sealStream (h : l.Announces named) (ref : StreamRef) :
    (l.sealStream ref).Announces named := by
  rcases l.sealStream_cases ref with ⟨-, hsealed⟩ | ⟨-, hsealed⟩ <;> rw [hsealed]
  · exact h
  · have hpage : (l.setPage ref { l.pages ref with held := [] }).Announces named :=
      h.setPage nofun
    exact hpage.post rfl (h.held ref)

theorem closeStream (h : l.Announces named) (ref : StreamRef) :
    (l.closeStream ref).Announces named := by
  have hpage : (l.setPage ref { l.pages ref with closed := true }).Announces named :=
    h.setPage fun r hr => hr
  exact hpage.sealStream ref

theorem endStream (h : l.Announces named) (thread : ThreadId) :
    (l.endStream thread).Announces named := by
  rcases l.endStream_cases thread with ⟨-, hend⟩ | ⟨p, -, hend⟩ <;> rw [hend]
  · exact h
  · have herase : Announces { l with streamOf := l.streamOf.erase thread } named := { h with }
    exact (herase.closeStream (.own p)).post rfl nofun

theorem sealFrees (h : l.Announces named) : l.sealFrees.Announces named := by
  rcases l.sealFrees_cases with ⟨-, hsealed⟩ | ⟨-, hsealed⟩ <;> rw [hsealed]
  · exact h
  · have hfrees : Announces { l with frees := [] } named := { h with }
    exact hfrees.post rfl nofun

/-- The end of the session announces nothing. -/
theorem closeAll (h : l.Announces named) : l.closeAll.Announces named := by
  have hevents : l.closeEvents.Announces named :=
    closeEvents_keeps (P := (Announces · named)) (fun _ ref h => h.closeStream ref) h
  unfold Ledger.closeAll
  generalize l.closeEvents = l' at hevents
  have hclosed : l'.closeFrees.Announces named := { hevents with }
  exact hclosed.sealFrees.post rfl nofun

/-- Changes that take nothing announce nothing. -/
theorem moves {l' : Ledger} (h : l.Announces named) (hmoves : l.Moves l') :
    l'.Announces named := by
  induction hmoves with
  | refl => exact h
  | sealStream _ ref ih => exact ih.sealStream ref
  | endStream _ thread ih => exact ih.endStream thread
  | sealFrees _ ih => exact ih.sealFrees
  | @obtain l' _ thread ih =>
    rcases l'.obtain_cases thread with ⟨p, -, hobtain⟩ | ⟨-, hobtain⟩ <;> rw [hobtain]
    · exact ih
    · exact { ih with }
  | @orphan l' _ thread ih =>
    rcases l'.orphan_cases thread with ⟨-, horphan⟩ | ⟨p, -, horphan⟩ <;> rw [horphan]
    · exact ih
    · exact ih.setPage fun r hr => hr

end Announces

/-! ### Ends of streams -/

/-- A ledger told the end of the streams that have ended, of each once. -/
structure Ends (l : Ledger) : Prop where
  nodup : l.ended.Nodup
  mem_iff : ∀ p : Nat, p ∈ l.ended ↔ (l.pages (.own p)).closed = true

theorem ends_empty : Ends {} := ⟨List.nodup_nil, fun p => by simp [ended]⟩

private theorem ended_post (p : Parcel) (l : Ledger) :
    (l.post p).ended = l.ended ++ p.ends?.toList :=
  filterMap_concat _ l.parcels p

namespace Ends

/-- A message that does not tell the end of a stream. -/
theorem post (h : l.Ends) {p : Parcel} (hp : p.ends? = none) : (l.post p).Ends := by
  have hsame : (l.post p).ended = l.ended := by
    rw [ended_post, hp, Option.toList_none, List.append_nil]
  refine ⟨?_, ?_⟩ <;> rw [hsame]
  · exact h.nodup
  · exact h.mem_iff

theorem announce (h : l.Ends) (name : String) : (l.announce name).Ends := by
  have hmethods : Ends { l with methods := l.methods.insert name } := { h with }
  exact hmethods.post rfl

theorem free (h : l.Ends) (t : Token) : (l.free t).Ends := { h with }

/-- A page changes, but not whether the stream has ended. -/
private theorem setPage (h : l.Ends) {ref : StreamRef} {page : Page}
    (hpage : page.closed = (l.pages ref).closed) : (l.setPage ref page).Ends := by
  refine ⟨h.nodup, fun p => ?_⟩
  rw [pages_setPage]
  by_cases heq : StreamRef.own p = ref
  · rw [if_pos heq, hpage, ← heq]
    exact h.mem_iff p
  · rw [if_neg heq]
    exact h.mem_iff p

theorem appendTo (h : l.Ends) (ref : StreamRef) (r : Record) : (l.appendTo ref r).Ends :=
  h.setPage rfl

private theorem ended_sealStream (l : Ledger) (ref : StreamRef) :
    (l.sealStream ref).ended = l.ended := by
  rcases l.sealStream_cases ref with ⟨-, h⟩ | ⟨-, h⟩ <;> rw [h]
  rw [ended_post]
  exact List.append_nil _

private theorem ended_sealFrees (l : Ledger) : l.sealFrees.ended = l.ended := by
  rcases l.sealFrees_cases with ⟨-, h⟩ | ⟨-, h⟩ <;> rw [h]
  rw [ended_post]
  exact List.append_nil _

theorem sealStream (h : l.Ends) (ref : StreamRef) : (l.sealStream ref).Ends := by
  refine ⟨by rw [ended_sealStream]; exact h.nodup, fun p => ?_⟩
  rw [ended_sealStream, pages_sealStream, h.mem_iff]
  split
  · next heq => rw [heq]
  · rfl

/-- The end of a stream is told when it ends, and it has not been told before. -/
theorem endStream (h : l.Ends) (hsound : l.Sound) (thread : ThreadId) :
    (l.endStream thread).Ends := by
  rcases l.endStream_cases thread with ⟨-, hend⟩ | ⟨p, hp, hend⟩
  · rwa [hend]
  · have hopen := hsound.openOwn thread p hp
    have hended : (l.endStream thread).ended = l.ended ++ [p] := by
      rw [hend, ended_post, Ledger.closeStream, ended_sealStream]
      rfl
    refine ⟨?_, fun q => ?_⟩
    · rw [hended]
      refine List.nodup_append.2 ⟨h.nodup, List.nodup_singleton p, ?_⟩
      rintro q hq _ hmem rfl
      rw [List.mem_singleton.1 hmem, h.mem_iff, hopen] at hq
      cases hq
    · rw [hended, pages_endStream, hp, Option.map_some, List.mem_append, List.mem_singleton,
        h.mem_iff]
      by_cases heq : q = p
      · rw [heq]
        exact ⟨fun _ => by rw [if_pos rfl], fun _ => .inr rfl⟩
      · rw [if_neg fun hsome => heq (StreamRef.own.inj (Option.some.inj hsome)).symm]
        exact ⟨fun hmem => hmem.resolve_right heq, .inl⟩

/-- The end of the session tells the end of no stream. -/
theorem ended_closeAll (l : Ledger) : l.closeAll.ended = l.ended := by
  have hevents : l.closeEvents.ended = l.ended :=
    closeEvents_keeps (P := fun l' => l'.ended = l.ended)
      (fun _ ref h => (ended_sealStream _ ref).trans h) rfl
  unfold Ledger.closeAll
  generalize l.closeEvents = l' at hevents
  rw [ended_post, ended_sealFrees, ← hevents]
  exact List.append_nil _

/-- As long as nothing is taken, ends are told when streams end. -/
theorem moves {l' : Ledger} (h : l.Ends) (hsound : l.Sound) (hmoves : l.Moves l') : l'.Ends := by
  induction hmoves with
  | refl => exact h
  | sealStream _ ref ih => exact ih.sealStream ref
  | endStream hmoves thread ih => exact ih.endStream (hsound.moves hmoves) thread
  | @sealFrees l' _ ih =>
    rcases l'.sealFrees_cases with ⟨-, hsealed⟩ | ⟨-, hsealed⟩ <;> rw [hsealed]
    · exact ih
    · have hfrees : Ends { l' with frees := [] } := { ih with }
      exact hfrees.post rfl
  | @obtain l' _ thread ih =>
    rcases l'.obtain_cases thread with ⟨p, -, hobtain⟩ | ⟨-, hobtain⟩ <;> rw [hobtain]
    · exact ih
    · exact { ih with }
  | @orphan l' _ thread ih =>
    rcases l'.orphan_cases thread with ⟨-, horphan⟩ | ⟨p, -, horphan⟩ <;> rw [horphan]
    · exact ih
    · exact ih.setPage rfl

end Ends

end Ledger

end TraceRelay
