import TraceRelay.Bytes
import TraceRelay.Value.Error

/-!
# Reading from a byte string

A reader takes bytes from the front of a byte string. When it fails, the bytes it has already taken
stay taken.

## Main definitions

* `Read` : a reader, which hands on the rest of the input also when it fails.
* `Read.take` : the next bytes, as many as asked for.
* `Read.peekTag`, `Read.expect` : the tag of the next value.
* `Read.times` : a reader run again and again.

## Main results

* `Read.times_succ` : one run, then the others.
-/

namespace TraceRelay

/-- A reader of the bytes that are left. -/
abbrev Read (ε : Type) := EStateM ε Bytes

namespace Read

/-- Takes the next `n` bytes, or none of them if fewer are left. -/
def take (n : Nat) : Read CodecError Bytes := fun bs =>
  let head := bs.take n
  if head.length < n then .error (.truncated n bs.length) bs else .ok head (bs.drop n)

/-- How many bytes are left. -/
def remaining {ε : Type} : Read ε Nat := fun bs => .ok bs.length bs

/-- Whether no byte is left. -/
def atEnd {ε : Type} : Read ε Bool := fun bs => .ok bs.isEmpty bs

/-- A little-endian number of `width` bytes. -/
def number (width : Nat) : Read CodecError Nat := return (← take width).value

/-- A byte. -/
def uint8 : Read CodecError UInt8 := return .ofNat (← number 1)

/-- A word of two bytes. -/
def uint16 : Read CodecError UInt16 := return .ofNat (← number 2)

/-- A word of four bytes. -/
def uint32 : Read CodecError UInt32 := return .ofNat (← number 4)

/-- A word of eight bytes. -/
def uint64 : Read CodecError UInt64 := return .ofNat (← number 8)

/-- The tag of the next value, which is left in place. -/
def peekTag : Read CodecError Tag := fun bs =>
  match bs with
  | [] => .error (.truncated 1 0) bs
  | b :: _ =>
    match Tag.ofByte? b with
    | some tag => .ok tag bs
    | none => .error (.unknownTag b) bs

/-- Takes the tag of the next value if it is the expected one. -/
def expect (tag : Tag) : Read CodecError Unit := do
  let found ← peekTag
  if found = tag then
    let _ ← take 1
  else
    throw (.unexpectedTag tag found)

/-- The bytes behind a four-byte length. -/
def blob : Read CodecError Bytes := do
  take (← number 4)

/-- Adds what `n` runs of a reader give to the front of a reversed list. -/
private def timesOnto {ε α : Type} (r : Read ε α) : (n : Nat) → List α → Read ε (List α)
  | 0, got => return got.reverse
  | n + 1, got => do
    let a ← r
    timesOnto r n (a :: got)

/-- Runs a reader `n` times. -/
def times {ε α : Type} (n : Nat) (r : Read ε α) : Read ε (List α) := timesOnto r n []

private theorem timesOnto_eq {ε α : Type} (r : Read ε α) (n : Nat) (got : List α) (bs : Bytes) :
    timesOnto r n got bs = (do return got.reverse ++ (← times n r) : Read ε (List α)) bs := by
  induction n generalizing got bs with
  | zero => simp [timesOnto, times, bind, EStateM.bind, pure, EStateM.pure]
  | succ n ih =>
    simp only [times, timesOnto, bind, EStateM.bind]
    cases h : r bs with
    | error e rest => rfl
    | ok a rest =>
      simp only
      rw [ih, ih [a]]
      simp only [bind, EStateM.bind, pure, EStateM.pure]
      cases times n r rest <;> simp

@[simp] theorem times_zero {ε α : Type} (r : Read ε α) (bs : Bytes) :
    times 0 r bs = .ok [] bs := rfl

/-- One run, then the others. -/
theorem times_succ {ε α : Type} (r : Read ε α) (n : Nat) :
    times (n + 1) r = (do let a ← r; let as ← times n r; return a :: as) := by
  funext bs
  simp only [times, timesOnto, bind, EStateM.bind]
  cases h : r bs with
  | error e rest => rfl
  | ok a rest =>
    simp only
    rw [timesOnto_eq]
    simp [times, bind, EStateM.bind, pure, EStateM.pure]

end Read

end TraceRelay
