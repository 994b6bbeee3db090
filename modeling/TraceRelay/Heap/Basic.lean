import Std.Data.TreeMap.Basic
import TraceRelay.Fifo
import TraceRelay.Heap.Replica

/-!
# The heap of replicas

The heap of the receiving side holds one replica per live object of the observed process.
Objects are found by their object id and never by other bits of a token. They live in numbered
cells; a cell that becomes free is used again in its next generation, so that an old handle does not
find the new object.

An id that was reported as gone is remembered for a while. When it is named again it stands for a
detached object, which has no cell and can not go a second time. Only a limited number of ids is
remembered; the oldest ones are forgotten first.

## Main definitions

* `Heap` : the cells, the ids of live objects and the remembered ids.
* `Heap.resolve` : the object that a token names, made when it is named first.
* `Heap.attach` : the same, with data that describes it.
* `Heap.get?`, `Heap.lookup?` : the live object of a handle, and of a token.
* `Heap.remove` : the end of an object.
-/

namespace TraceRelay

/-- Why no object could be made. -/
inductive HeapError where
  /-- All cells are taken. -/
  | exhausted
deriving DecidableEq, Repr

/-- The wording of a cause. -/
def HeapError.message : HeapError → String
  | exhausted => "shadow heap slot table exhausted"

/-- The identity of a replica: its position among all objects that a heap has made. -/
abbrev ObjectRef := Nat

/-- A place for one live object. -/
structure Cell where
  /-- How often an object has left the cell. -/
  generation : UInt32 := 0
  occupant : Option ObjectRef := none
deriving DecidableEq, Inhabited

/-- The replicas of one session. -/
structure Heap where
  /-- How many ids that are gone are remembered. -/
  maxFreed : Nat
  /-- All replicas ever made. -/
  objects : Array Replica := #[]
  cells : Array Cell := #[]
  /-- The cells without an object, the last one that became free first. -/
  vacant : List UInt32 := []
  /-- The cell of each live object. -/
  live : Std.TreeMap ObjectId UInt32 := ∅
  /-- The remembered ids, each with its detached object once there is one. -/
  freed : Std.TreeMap ObjectId (Option ObjectRef) := ∅
  /-- The remembered ids in the order in which they went. -/
  freedOrder : Fifo ObjectId := .empty
  /-- Counts how often objects were named. -/
  clock : UInt64 := 0

namespace Heap

/-- The number of live objects. -/
def size (h : Heap) : Nat := h.live.size

/-- The number of remembered ids. -/
def freedCount (h : Heap) : Nat := h.freed.size

/-- Whether an id is remembered as gone. -/
def isFreed (h : Heap) (id : ObjectId) : Bool := h.freed.contains id

/-- What is known of an object now. -/
def object? (h : Heap) (ref : ObjectRef) : Option Replica := h.objects[ref]?

/-- The live object of an id. -/
def findLive? (h : Heap) (id : ObjectId) : Option ObjectRef := do
  let index ← h.live[id]?
  let cell ← h.cells[index.toNat]?
  cell.occupant

/-- The live object of a handle. There is none for a handle of an earlier generation. -/
def get? (h : Heap) (handle : Handle) : Option ObjectRef := do
  let cell ← h.cells[handle.index.toNat]?
  if cell.generation = handle.generation then cell.occupant else none

/-- The live object that a token names. -/
def lookup? (h : Heap) (t : Token) : Option ObjectRef := h.findLive? t.objectId

/-- Changes what is known of an object. -/
def update (h : Heap) (ref : ObjectRef) (f : Replica → Replica) : Heap :=
  { h with objects := h.objects.modify ref f }

/-- Makes an object. -/
def make (h : Heap) (o : Replica) : ObjectRef × Heap :=
  (h.objects.size, { h with objects := h.objects.push o })

/-- Makes an object that lives in a given cell. -/
def occupy (h : Heap) (index : UInt32) (t : Token) (seen : UInt64) : ObjectRef × Heap :=
  let generation := (h.cells[index.toNat]?.getD {}).generation
  let (ref, h) := h.make (.first ⟨index, generation⟩ t seen)
  (ref, { h with
    cells := h.cells.modify index.toNat ({ · with occupant := some ref })
    live := h.live.insert t.objectId index })

/-- Makes a live object in the cell that became free last, or else in a new one. -/
def insert (t : Token) (seen : UInt64) : EStateM HeapError Heap ObjectRef := fun h =>
  match h.vacant with
  | index :: vacant =>
    let (ref, h) := { h with vacant }.occupy index t seen
    .ok ref h
  | [] =>
    let count := h.cells.size
    if count ≥ Handle.detached.index.toNat then .error .exhausted h
    else
      let (ref, h) := { h with cells := h.cells.push {} }.occupy (.ofNat count) t seen
      .ok ref h

/-- The object that a token names: the live one of its id, or the detached one of an id that is
remembered as gone, or else a new one. The clock moves on whenever the token is not null. -/
def resolve (t : Token) : EStateM HeapError Heap (Option ObjectRef) := fun h =>
  if t.isNull then .ok none h
  else
    let seen := h.clock + 1
    let h := { h with clock := seen }
    let id := t.objectId
    match h.findLive? id with
    | some ref => .ok (some ref) (h.update ref (.touch t seen))
    | none =>
      match h.freed[id]? with
      | some (some ref) => .ok (some ref) (h.update ref (.touch t seen))
      | some none =>
        let (ref, h) := h.make (.first .detached t seen)
        .ok (some ref) { h with freed := h.freed.insert id (some ref) }
      | none =>
        match insert t seen h with
        | .ok ref h => .ok (some ref) h
        | .error e h => .error e h

/-- The object that a token names, to which data is attached. -/
def attach (t : Token) (data : ObjectInfo) : EStateM HeapError Heap (Option ObjectRef) := do
  let found ← resolve t
  if let some ref := found then
    modify (·.update ref ({ · with info := some data }))
  return found

/-- Forgets the id that went first if too many are remembered. It is enough to forget one, since
at most one id is added before. -/
def forget (h : Heap) : Heap :=
  if h.freedOrder.size > h.maxFreed then
    match h.freedOrder.pop? with
    | some (oldest, freedOrder) => { h with freed := h.freed.erase oldest, freedOrder }
    | none => h
  else h

/-- Remembers that an id is gone. One that is remembered already keeps its turn. -/
def bury (h : Heap) (id : ObjectId) : Heap :=
  if h.maxFreed = 0 then h
  else if h.freed.contains id then h.forget
  else { h with freed := h.freed.insert id none, freedOrder := h.freedOrder.push id }.forget

/-- Takes the object of an id out of its cell, whose next generation begins. -/
def vacate (h : Heap) (id : ObjectId) : Option ObjectRef × Heap :=
  match h.live[id]? with
  | none => (none, h)
  | some index =>
    let removed := h.findLive? id
    (removed, { h with
      live := h.live.erase id
      cells := h.cells.modify index.toNat fun cell => ⟨cell.generation + 1, none⟩
      vacant := index :: h.vacant })

/-- Ends the object that a token names. Its id is remembered as gone also if it was not live, so
that a late first mention finds a detached object. -/
def remove (t : Token) (h : Heap) : Option ObjectRef × Heap :=
  if t.isNull then (none, h)
  else
    let (removed, h) := h.vacate t.objectId
    (removed, h.bury t.objectId)

end Heap

end TraceRelay
