import Mathlib.Logic.Function.Basic
import TraceRelay.Client.Basic
import TraceRelay.Proofs.Maps

/-!
# The ledger of the sending side

The sending side keeps records in buffers of bytes and frames in a queue. The ledger tells the same
in lists: the records that each stream holds back, the freed tokens that are held back, and the
messages that have gone to the outbox. Each step of the sending side is a change of the ledger.

## Main definitions

* `StreamRef.ordering` : the ordering id of a stream.
* `Parcel` : a message in the outbox, and the stream that it belongs to.
* `Ledger` : the lists, and what is known of threads and methods.
* `Ledger.sealStream`, `Ledger.endStream`, `Ledger.sealEvents`, `Ledger.closeAll` : the changes.
* `Ledger.Moves` : changes by which no record and no token is taken.
-/

namespace TraceRelay

/-- The ordering id of a stream. -/
def StreamRef.ordering : StreamRef → UInt64
  | .shared ordering => ordering.toUInt64
  | .own position => .ofNat (Message.sharedOrderings + position)

/-- A message that has gone to the outbox, and the stream that it belongs to, if it does. -/
structure Parcel where
  source : Option StreamRef
  message : Message
deriving DecidableEq

/-- What there is to know of a stream. -/
@[ext] structure Page where
  /-- The records that are held back. -/
  held : List Record := []
  /-- Whether the stream has ended. -/
  closed : Bool := false
  /-- Whether the thread that the stream belongs to is gone. -/
  orphaned : Bool := false

/-- The sending side in lists. -/
structure Ledger where
  pages : StreamRef → Page := fun _ => {}
  /-- How many streams threads ever had. -/
  opened : Nat := 0
  /-- The stream that each thread has now. -/
  streamOf : Std.TreeMap ThreadId Nat := ∅
  methods : MethodTable := {}
  /-- The freed tokens that are held back. -/
  frees : List Token := []
  /-- Whether no more tokens are taken. -/
  freesClosed : Bool := false
  /-- What has gone to the outbox, first to last. -/
  parcels : List Parcel := []

namespace Ledger

/-- The streams that there are. -/
def Has (l : Ledger) : StreamRef → Prop
  | .shared _ => True
  | .own position => position < l.opened

/-- The streams that threads have now, each with its thread. -/
def ownRefs (l : Ledger) : List (ThreadId × StreamRef) :=
  l.streamOf.toList.map fun (thread, position) => (thread, .own position)

/-- The stream that a thread has, or else the one that it would get. -/
def streamFor (l : Ledger) (thread : ThreadId) : StreamRef :=
  .own (l.streamOf[thread]?.getD l.opened)

/-! ### Changes of the ledger -/

/-- A message goes to the outbox. -/
def post (p : Parcel) (l : Ledger) : Ledger := { l with parcels := l.parcels ++ [p] }

def setPage (ref : StreamRef) (page : Page) (l : Ledger) : Ledger :=
  { l with pages := Function.update l.pages ref page }

/-- The records of a stream go out, if there are any. -/
def sealStream (ref : StreamRef) (l : Ledger) : Ledger :=
  if (l.pages ref).held = [] then l
  else
    (l.setPage ref { l.pages ref with held := [] }).post
      ⟨some ref, .analyze ref.ordering (l.pages ref).held⟩

/-- A stream ends, and its records go out. -/
def closeStream (ref : StreamRef) (l : Ledger) : Ledger :=
  (l.setPage ref { l.pages ref with closed := true }).sealStream ref

/-- A record is added to a stream. -/
def appendTo (ref : StreamRef) (r : Record) (l : Ledger) : Ledger :=
  l.setPage ref { l.pages ref with held := (l.pages ref).held ++ [r] }

/-- A thread gets a stream if it has none. -/
def obtain (thread : ThreadId) (l : Ledger) : Ledger :=
  match l.streamOf[thread]? with
  | some _ => l
  | none => { l with opened := l.opened + 1, streamOf := l.streamOf.insert thread l.opened }

/-- The stream of a thread ends, if it has one. -/
def endStream (thread : ThreadId) (l : Ledger) : Ledger :=
  match l.streamOf[thread]? with
  | none => l
  | some position =>
    (({ l with streamOf := l.streamOf.erase thread } : Ledger).closeStream (.own position)).post
      ⟨some (.own position), .threadEnd (StreamRef.own position).ordering⟩

/-- A thread is gone. -/
def orphan (thread : ThreadId) (l : Ledger) : Ledger :=
  match l.streamOf[thread]? with
  | none => l
  | some position =>
    l.setPage (.own position) { l.pages (.own position) with orphaned := true }

/-- The records of a thread go out, or its stream ends if the thread is gone. -/
def visit (l : Ledger) (entry : ThreadId × StreamRef) : Ledger :=
  if (l.pages entry.2).orphaned then l.endStream entry.1 else l.sealStream entry.2

/-- All records go out. -/
def sealEvents (l : Ledger) : Ledger :=
  Client.sharedRefs.foldl (fun l ref => l.sealStream ref) (l.ownRefs.foldl visit l)

/-- A freed token is taken. -/
def free (t : Token) (l : Ledger) : Ledger := { l with frees := l.frees ++ [t] }

/-- All freed tokens go out, if there are any. -/
def sealFrees (l : Ledger) : Ledger :=
  if l.frees = [] then l
  else ({ l with frees := [] } : Ledger).post ⟨none, .objectFree l.frees⟩

/-- No more tokens are taken. -/
def closeFrees (l : Ledger) : Ledger := { l with freesClosed := true }

/-- All streams end. -/
def closeEvents (l : Ledger) : Ledger :=
  Client.sharedRefs.foldl (fun l ref => l.closeStream ref)
    (l.ownRefs.foldl (fun l entry => l.closeStream entry.2) l)

/-- All streams end, what is held back goes out, and then the end of the session. -/
def closeAll (l : Ledger) : Ledger :=
  l.closeEvents.closeFrees.sealFrees.post ⟨none, .close⟩

/-- A name gets the next number, which is announced. -/
def announce (name : String) (l : Ledger) : Ledger :=
  ({ l with methods := l.methods.insert name } : Ledger).post
    ⟨none, .registerMethod (.ofNat (l.methods.count + 1)) name⟩

/-- Threads have streams that there are. -/
def InRange (l : Ledger) : Prop :=
  ∀ (thread : ThreadId) position, l.streamOf[thread]? = some position → position < l.opened

/-! ### What a change comes to -/

section

variable (l : Ledger) (ref : StreamRef) (thread : ThreadId)

theorem sealStream_cases : ((l.pages ref).held = [] ∧ l.sealStream ref = l) ∨
    ((l.pages ref).held ≠ [] ∧ l.sealStream ref =
      (l.setPage ref { l.pages ref with held := [] }).post
        ⟨some ref, .analyze ref.ordering (l.pages ref).held⟩) := by
  by_cases h : (l.pages ref).held = []
  · exact .inl ⟨h, if_pos h⟩
  · exact .inr ⟨h, if_neg h⟩

theorem sealFrees_cases : (l.frees = [] ∧ l.sealFrees = l) ∨
    (l.frees ≠ [] ∧ l.sealFrees =
      ({ l with frees := [] } : Ledger).post ⟨none, .objectFree l.frees⟩) := by
  by_cases h : l.frees = []
  · exact .inl ⟨h, if_pos h⟩
  · exact .inr ⟨h, if_neg h⟩

theorem obtain_cases : (∃ position, l.streamOf[thread]? = some position ∧ l.obtain thread = l) ∨
    (l.streamOf[thread]? = none ∧ l.obtain thread =
      { l with opened := l.opened + 1, streamOf := l.streamOf.insert thread l.opened }) := by
  cases h : l.streamOf[thread]? with
  | some position => exact .inl ⟨position, rfl, by rw [obtain, h]⟩
  | none => exact .inr ⟨rfl, by rw [obtain, h]⟩

theorem orphan_cases : (l.streamOf[thread]? = none ∧ l.orphan thread = l) ∨
    ∃ position, l.streamOf[thread]? = some position ∧ l.orphan thread =
      l.setPage (.own position) { l.pages (.own position) with orphaned := true } := by
  cases h : l.streamOf[thread]? with
  | none => exact .inl ⟨rfl, by rw [orphan, h]⟩
  | some position => exact .inr ⟨position, rfl, by rw [orphan, h]⟩

theorem endStream_cases : (l.streamOf[thread]? = none ∧ l.endStream thread = l) ∨
    ∃ position, l.streamOf[thread]? = some position ∧ l.endStream thread =
      (({ l with streamOf := l.streamOf.erase thread } : Ledger).closeStream (.own position)).post
        ⟨some (.own position), .threadEnd (StreamRef.own position).ordering⟩ := by
  cases h : l.streamOf[thread]? with
  | none => exact .inl ⟨rfl, by rw [endStream, h]⟩
  | some position => exact .inr ⟨position, rfl, by rw [endStream, h]⟩

theorem visit_cases (entry : ThreadId × StreamRef) :
    ((l.pages entry.2).orphaned = true ∧ l.visit entry = l.endStream entry.1) ∨
    (¬(l.pages entry.2).orphaned = true ∧ l.visit entry = l.sealStream entry.2) := by
  by_cases h : (l.pages entry.2).orphaned = true
  · exact .inl ⟨h, if_pos h⟩
  · exact .inr ⟨h, if_neg h⟩

end

/-! ### What the changes leave as it was -/

section

variable (l : Ledger) (ref ref' : StreamRef) (page : Page) (thread : ThreadId)

theorem pages_setPage :
    (l.setPage ref page).pages ref' = if ref' = ref then page else l.pages ref' :=
  Function.update_apply l.pages ref page ref'

theorem setPage_self : l.setPage ref (l.pages ref) = l := by
  rw [setPage, Function.update_eq_self]

@[simp] theorem opened_sealStream : (l.sealStream ref).opened = l.opened := by
  rcases l.sealStream_cases ref with ⟨-, h⟩ | ⟨-, h⟩ <;> rw [h]
  rfl

@[simp] theorem streamOf_sealStream : (l.sealStream ref).streamOf = l.streamOf := by
  rcases l.sealStream_cases ref with ⟨-, h⟩ | ⟨-, h⟩ <;> rw [h]
  rfl

@[simp] theorem methods_sealStream : (l.sealStream ref).methods = l.methods := by
  rcases l.sealStream_cases ref with ⟨-, h⟩ | ⟨-, h⟩ <;> rw [h]
  rfl

@[simp] theorem opened_closeStream : (l.closeStream ref).opened = l.opened := by
  rw [closeStream, opened_sealStream]
  rfl

@[simp] theorem streamOf_closeStream : (l.closeStream ref).streamOf = l.streamOf := by
  rw [closeStream, streamOf_sealStream]
  rfl

@[simp] theorem methods_closeStream : (l.closeStream ref).methods = l.methods := by
  rw [closeStream, methods_sealStream]
  rfl

@[simp] theorem opened_endStream : (l.endStream thread).opened = l.opened := by
  rcases l.endStream_cases thread with ⟨-, h⟩ | ⟨position, -, h⟩ <;> rw [h]
  exact opened_closeStream _ _

@[simp] theorem methods_endStream : (l.endStream thread).methods = l.methods := by
  rcases l.endStream_cases thread with ⟨-, h⟩ | ⟨position, -, h⟩ <;> rw [h]
  exact methods_closeStream _ _

/-- Only the thread of which the stream ended has none any more. -/
theorem streamOf_endStream (other : ThreadId) : (l.endStream thread).streamOf[other]? =
    if other = thread then none else l.streamOf[other]? := by
  rcases l.endStream_cases thread with ⟨hnone, h⟩ | ⟨position, -, h⟩ <;> rw [h]
  · by_cases heq : other = thread
    · rw [if_pos heq, heq, hnone]
    · rw [if_neg heq]
  · change (closeStream (.own position) _).streamOf[other]? = _
    rw [streamOf_closeStream, getElem?_erase]

@[simp] theorem pages_sealFrees : l.sealFrees.pages = l.pages := by
  rcases l.sealFrees_cases with ⟨-, h⟩ | ⟨-, h⟩ <;> rw [h]
  rfl

@[simp] theorem frees_sealFrees : l.sealFrees.frees = [] := by
  rcases l.sealFrees_cases with ⟨hnone, h⟩ | ⟨-, h⟩ <;> rw [h]
  · exact hnone
  · rfl

@[simp] theorem opened_visit (entry : ThreadId × StreamRef) :
    (l.visit entry).opened = l.opened := by
  rcases l.visit_cases entry with ⟨-, h⟩ | ⟨-, h⟩ <;> rw [h]
  · exact opened_endStream _ _
  · exact opened_sealStream _ _

theorem streamOf_of_visit {entry : ThreadId × StreamRef} {position : Nat}
    (h : (l.visit entry).streamOf[thread]? = some position) :
    l.streamOf[thread]? = some position := by
  rcases l.visit_cases entry with ⟨-, hvisit⟩ | ⟨-, hvisit⟩ <;> rw [hvisit] at h
  · rw [streamOf_endStream] at h
    by_cases heq : thread = entry.1
    · rw [if_pos heq] at h
      cases h
    · rwa [if_neg heq] at h
  · rwa [streamOf_sealStream] at h

end

/-- What the end of a stream keeps, the end of all streams keeps. -/
theorem closeEvents_keeps {P : Ledger → Prop} (hclose : ∀ l ref, P l → P (l.closeStream ref))
    {l : Ledger} (h : P l) : P l.closeEvents := by
  have hown : P (l.ownRefs.foldl (fun l entry => l.closeStream entry.2) l) :=
    List.foldlRecOn (motive := P) _ _ h fun l' h entry _ => hclose l' entry.2 h
  exact List.foldlRecOn (motive := P) _ _ hown fun l' h ref _ => hclose l' ref h

theorem InRange.visit {l : Ledger} (h : l.InRange) (entry : ThreadId × StreamRef) :
    (l.visit entry).InRange := by
  intro thread position hp
  rw [opened_visit]
  exact h thread position (streamOf_of_visit l thread hp)

/-- The streams that threads have are streams that there are. -/
theorem InRange.has_of_mem_ownRefs {l : Ledger} (h : l.InRange) {entry : ThreadId × StreamRef}
    (hmem : entry ∈ l.ownRefs) : l.Has entry.2 := by
  obtain ⟨⟨thread, position⟩, hentry, rfl⟩ := List.mem_map.1 hmem
  exact h thread position (Std.TreeMap.mem_toList_iff_getElem?_eq_some.1 hentry)

/-! ### Changes that take nothing -/

/-- The ledger changes, but no record and no token is taken. -/
inductive Moves (l : Ledger) : Ledger → Prop
  | refl : Moves l l
  | sealStream {l' : Ledger} (h : Moves l l') (ref : StreamRef) : Moves l (l'.sealStream ref)
  | endStream {l' : Ledger} (h : Moves l l') (thread : ThreadId) : Moves l (l'.endStream thread)
  | sealFrees {l' : Ledger} (h : Moves l l') : Moves l l'.sealFrees
  | obtain {l' : Ledger} (h : Moves l l') (thread : ThreadId) : Moves l (l'.obtain thread)
  | orphan {l' : Ledger} (h : Moves l l') (thread : ThreadId) : Moves l (l'.orphan thread)

theorem Moves.methods {l l' : Ledger} (h : Moves l l') : l'.methods = l.methods := by
  induction h with
  | refl => rfl
  | sealStream _ ref ih => rw [methods_sealStream, ih]
  | endStream _ thread ih => rw [methods_endStream, ih]
  | @sealFrees l' _ ih =>
    rw [← ih]
    rcases l'.sealFrees_cases with ⟨-, h⟩ | ⟨-, h⟩ <;> rw [h]
    rfl
  | @obtain l' _ thread ih =>
    rw [← ih]
    rcases l'.obtain_cases thread with ⟨-, -, h⟩ | ⟨-, h⟩ <;> rw [h]
  | @orphan l' _ thread ih =>
    rw [← ih]
    rcases l'.orphan_cases thread with ⟨-, h⟩ | ⟨_, -, h⟩ <;> rw [h]
    rfl

theorem Moves.opened_le {l l' : Ledger} (h : Moves l l') : l.opened ≤ l'.opened := by
  induction h with
  | refl => exact Nat.le_refl _
  | sealStream _ ref ih =>
    rw [opened_sealStream]
    exact ih
  | endStream _ thread ih =>
    rw [opened_endStream]
    exact ih
  | @sealFrees l' _ ih => rcases l'.sealFrees_cases with ⟨-, h⟩ | ⟨-, h⟩ <;> rwa [h]
  | @obtain l' _ thread ih =>
    rcases l'.obtain_cases thread with ⟨-, -, h⟩ | ⟨-, h⟩ <;> rw [h]
    · exact ih
    · exact Nat.le_succ_of_le ih
  | @orphan l' _ thread ih =>
    rcases l'.orphan_cases thread with ⟨-, h⟩ | ⟨_, -, h⟩ <;> rwa [h]

theorem Has.mono {l l' : Ledger} {ref : StreamRef} (h : l.Has ref) (hle : l.opened ≤ l'.opened) :
    l'.Has ref := by
  cases ref with
  | shared i => trivial
  | own p => exact Nat.lt_of_lt_of_le h hle

theorem Moves.visit {l l' : Ledger} (h : Moves l l') (entry : ThreadId × StreamRef) :
    Moves l (l'.visit entry) := by
  rcases l'.visit_cases entry with ⟨-, hvisit⟩ | ⟨-, hvisit⟩ <;> rw [hvisit]
  · exact h.endStream entry.1
  · exact h.sealStream entry.2

theorem Moves.sealEvents {l l' : Ledger} (h : Moves l l') : Moves l l'.sealEvents := by
  have hown : Moves l (l'.ownRefs.foldl Ledger.visit l') :=
    List.foldlRecOn (motive := Moves l) _ _ h fun _ h entry _ => h.visit entry
  exact List.foldlRecOn (motive := Moves l) _ _ hown fun _ h ref _ => h.sealStream ref

end Ledger

end TraceRelay
