import TraceRelay.Bytes
import TraceRelay.Value.Error

/-!
# Append buffers

Output is collected in a buffer that grows at its end. A count or a length that is known only
later is reserved as four zero bytes and filled in afterwards, and what was written after a mark
can be taken back.

## Main definitions

* `Buffer` : the bytes written so far, seen as a list by `Buffer.toList`.
* `Write` : a writer, which hands on the buffer also when it fails.
* `Write.append`, `Write.appendWith`, `Write.reserve`, `Write.patch` : the single steps.
* `Write.allOrNothing` : takes back what a failing writer left behind.

## Main results

* `Buffer.toList_append`, `Buffer.toList_truncate` : what each operation does to the bytes.
* `Write.allOrNothing_error` : a failing writer leaves the buffer as it was, if it only appended.
-/

namespace TraceRelay

/-- The bytes written so far. -/
structure Buffer where
  /-- The bytes, first to last. -/
  bytes : ByteArray := .empty
deriving Inhabited

/-- Four bytes of a buffer that are filled in later. -/
structure Slot where
  /-- Where the first of the four bytes stands. -/
  position : Nat
deriving DecidableEq, Repr, Inhabited

namespace Buffer

/-- The bytes, first to last. -/
def toList (b : Buffer) : Bytes := b.bytes.data.toList

/-- How many bytes were written. -/
def size (b : Buffer) : Nat := b.bytes.size

/-- Whether nothing was written. -/
def isEmpty (b : Buffer) : Bool := b.bytes.isEmpty

/-- Adds bytes at the end. -/
def append (b : Buffer) (bs : Bytes) : Buffer := ⟨bs.foldl .push b.bytes⟩

/-- Adds at the end what another buffer holds. -/
def join (b c : Buffer) : Buffer := ⟨b.bytes ++ c.bytes⟩

/-- Keeps the first `n` bytes. -/
def truncate (b : Buffer) (n : Nat) : Buffer := ⟨b.bytes.extract 0 n⟩

/-- Replaces the bytes from a position on, as far as the buffer reaches. -/
def overwrite (b : Buffer) (position : Nat) : Bytes → Buffer
  | [] => b
  | byte :: bs => overwrite ⟨b.bytes.set! position byte⟩ (position + 1) bs

/-- A buffer that holds the given bytes. -/
def ofList (bs : Bytes) : Buffer := ⟨⟨bs.toArray⟩⟩

@[simp] theorem toList_empty : ({} : Buffer).toList = [] := rfl

@[simp] theorem toList_ofList (bs : Bytes) : (ofList bs).toList = bs := by simp [ofList, toList]

@[simp] theorem toList_append (b : Buffer) (bs : Bytes) :
    (b.append bs).toList = b.toList ++ bs := by
  have hpush (a : ByteArray) : (bs.foldl .push a).data.toList = a.data.toList ++ bs := by
    induction bs generalizing a with
    | nil => simp
    | cons byte bs ih => simp [ih]
  exact hpush b.bytes

@[simp] theorem toList_truncate (b : Buffer) (n : Nat) :
    (b.truncate n).toList = b.toList.take n := by
  simp [truncate, toList]

@[simp] theorem length_toList (b : Buffer) : b.toList.length = b.size := by
  simp [toList, size]

@[simp] theorem toList_join (b c : Buffer) : (b.join c).toList = b.toList ++ c.toList := by
  simp [join, toList]

theorem ext_toList {b c : Buffer} (h : b.toList = c.toList) : b = c := by
  cases b
  cases c
  simpa [toList, ByteArray.ext_iff] using h

instance : DecidableEq Buffer := fun _ _ =>
  decidable_of_decidable_of_iff ⟨ext_toList, congrArg toList⟩

end Buffer

/-- A writer. The buffer that it leaves is handed on whether it succeeds or fails. -/
abbrev Write (ε : Type) := EStateM ε Buffer

namespace Write

variable {ε α : Type}

/-- Writes bytes as they are. -/
def append (bs : Bytes) : Write ε Unit := fun b => .ok () (b.append bs)

/-- Writes bytes as they are, and then what a buffer holds. -/
def appendWith (bs : Bytes) (c : Buffer) : Write ε Unit := fun b => .ok () ((b.append bs).join c)

/-- Writes four zero bytes that `patch` fills in later. -/
def reserve : Write ε Slot := fun b => .ok ⟨b.size⟩ (b.append [0, 0, 0, 0])

/-- Fills in a reserved slot. Fails if its four bytes do not lie inside the buffer any more. -/
def patch (slot : Slot) (v : UInt32) : Write CodecError Unit := fun b =>
  if slot.position + 4 > b.size then .error (.patchOutOfBounds slot.position) b
  else .ok () (b.overwrite slot.position (Bytes.ofUInt32 v))

/-- The number of bytes written so far. -/
def size : Write ε Nat := fun b => .ok b.size b

/-- Runs a writer and, if it fails, takes back all that it wrote. -/
def allOrNothing (w : Write ε α) : Write ε α := fun b =>
  let mark := b.size
  match w b with
  | .ok a b' => .ok a b'
  | .error e b' => .error e (b'.truncate mark)

theorem appendWith_eq (bs : Bytes) (c : Buffer) :
    (appendWith bs c : Write ε Unit) = append (bs ++ c.toList) := by
  funext b
  refine congrArg (EStateM.Result.ok ()) (Buffer.ext_toList ?_)
  simp

theorem allOrNothing_ok {w : Write ε α} {b b' : Buffer} {a : α} (h : w b = .ok a b') :
    w.allOrNothing b = .ok a b' := by
  simp [allOrNothing, h]

theorem allOrNothing_error {w : Write ε α} {b b' : Buffer} {e : ε} {bs : Bytes}
    (h : w b = .error e b') (hb : b'.toList = b.toList ++ bs) :
    w.allOrNothing b = .error e b := by
  have hkeep : b'.truncate b.size = b := by
    apply Buffer.ext_toList
    rw [Buffer.toList_truncate, hb, ← Buffer.length_toList]
    simp
  simp [allOrNothing, h, hkeep]

end Write

end TraceRelay
