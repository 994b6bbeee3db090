/-!
# Queues

First in, first out, as two lists of which the second is reversed.

## Main definitions

* `Fifo` : a queue, seen as a list by `Fifo.toList`.
* `Fifo.push`, `Fifo.pop?` : one element in at the end, one out at the front.

## Main results

* `Fifo.toList_push`, `Fifo.pop?_eq_none_iff`, `Fifo.toList_of_pop?` : what each operation does to
  the list.
-/

namespace TraceRelay

/-- A queue. -/
structure Fifo (α : Type) where
  /-- The oldest elements, oldest first. -/
  front : List α
  /-- The other elements, newest first. -/
  back : List α
  /-- The number of elements. -/
  size : Nat
  size_eq : size = front.length + back.length

namespace Fifo

variable {α : Type}

/-- The queue without elements. -/
def empty : Fifo α := ⟨[], [], 0, rfl⟩

instance : Inhabited (Fifo α) := ⟨empty⟩

/-- The elements, oldest first. -/
def toList (q : Fifo α) : List α := q.front ++ q.back.reverse

/-- Whether there are no elements. -/
def isEmpty (q : Fifo α) : Bool := q.size == 0

/-- The queue of the elements of a list, the head being the oldest. -/
def ofList (as : List α) : Fifo α := ⟨as, [], as.length, rfl⟩

/-- Adds an element at the end. -/
def push (q : Fifo α) (a : α) : Fifo α :=
  ⟨q.front, a :: q.back, q.size + 1, by simp [q.size_eq]; omega⟩

/-- The oldest element and the queue without it. -/
def pop? (q : Fifo α) : Option (α × Fifo α) :=
  match hf : q.front with
  | a :: front => some (a, ⟨front, q.back, q.size - 1, by simp [q.size_eq, hf]⟩)
  | [] =>
    match hb : q.back.reverse with
    | a :: front =>
      have hlen : q.back.length = front.length + 1 := by
        simpa using congrArg List.length hb
      some (a, ⟨front, [], q.size - 1, by simp [q.size_eq, hf, hlen]⟩)
    | [] => none

@[simp] theorem toList_empty : (empty : Fifo α).toList = [] := rfl

@[simp] theorem toList_ofList (as : List α) : (ofList as).toList = as := by
  simp [ofList, toList]

@[simp] theorem toList_push (q : Fifo α) (a : α) : (q.push a).toList = q.toList ++ [a] := by
  simp [push, toList]

theorem length_toList (q : Fifo α) : q.toList.length = q.size := by
  simp [toList, q.size_eq]

theorem pop?_eq_none_iff (q : Fifo α) : q.pop? = none ↔ q.toList = [] := by
  unfold pop? toList
  split
  · simp [*]
  · split <;> simp_all

theorem toList_of_pop? {q r : Fifo α} {a : α} (h : q.pop? = some (a, r)) :
    q.toList = a :: r.toList := by
  unfold pop? at h
  split at h
  · cases h
    simp_all [toList]
  · split at h
    · cases h
      simp_all [toList]
    · cases h

end Fifo

end TraceRelay
