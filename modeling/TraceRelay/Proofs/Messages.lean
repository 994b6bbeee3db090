import Mathlib.Data.List.Nodup
import TraceRelay.Message.Basic

/-!
# Lists of messages

A record names its method by a number, so the message that announces the method has to come before
it.

## Main definitions

* `Token.Names` : a token names an object id.
* `Message.announces?`, `Message.records`, `Message.endsThread` : what a message announces, the
  records that it carries, and whether it tells the end of a stream.
* `Message.InOrder` : messages of which the records are announced in time.
* `MethodId.upTo` : the numbers that are given out one after the other.

## Main results

* `Message.inOrder_append` : messages in two parts.
* `MethodId.nodup_upTo`, `MethodId.ne_zero_of_mem_upTo` : no number is given out twice, and zero
  never.
-/

namespace TraceRelay

/-- What is picked out of a list that has grown at its end. -/
theorem filterMap_concat {α β : Type} (f : α → Option β) (as : List α) (a : α) :
    (as ++ [a]).filterMap f = as.filterMap f ++ (f a).toList := by
  rw [List.filterMap_append, List.filterMap_eq_flatMap_toList f [a], List.flatMap_singleton]

/-- An element of a joined list stands in one of its parts. -/
theorem exists_of_flatMap_eq {α β : Type} {f : α → List β} {xs : List α} {front back : List β}
    {b : β} (h : xs.flatMap f = front ++ b :: back) :
    ∃ before x behind front' back', xs = before ++ x :: behind ∧ f x = front' ++ b :: back' ∧
      front = before.flatMap f ++ front' ∧ back = back' ++ behind.flatMap f := by
  induction xs generalizing front with
  | nil => cases front <;> cases h
  | cons x xs ih =>
    by_cases hlen : front.length < (f x).length
    · rw [List.flatMap_cons, List.append_eq_append_iff] at h
      rcases h with ⟨rest, rfl, -⟩ | ⟨rest, hx, hrest⟩
      · rw [List.length_append] at hlen
        omega
      · cases rest with
        | nil => simp [hx] at hlen
        | cons _ back' =>
          cases hrest
          exact ⟨[], x, xs, front, back', rfl, hx, rfl, rfl⟩
    · obtain ⟨rest, rfl⟩ : f x <+: front := by
        refine List.prefix_of_prefix_length_le ?_ (List.prefix_append front (b :: back))
          (Nat.le_of_not_lt hlen)
        exact ⟨xs.flatMap f, List.flatMap_cons.symm.trans h⟩
      rw [List.flatMap_cons, List.append_assoc, List.append_cancel_left_eq] at h
      obtain ⟨before, y, behind, front', back', rfl, hy, rfl, hback⟩ := ih h
      exact ⟨x :: before, y, behind, front', back', rfl, hy, (List.append_assoc ..).symm, hback⟩

/-- A token names an object id. The null token names none. -/
def Token.Names (t : Token) (id : ObjectId) : Prop := t.isNull = false ∧ t.objectId = id

instance (t : Token) (id : ObjectId) : Decidable (t.Names id) :=
  inferInstanceAs (Decidable (_ ∧ _))

namespace Message

/-- The number and the name of the method that a message announces. -/
def announces? : Message → Option (MethodId × String)
  | registerMethod id name => some (id, name)
  | _ => none

/-- The records that a message carries. -/
def records : Message → List Record
  | analyze _ records => records
  | _ => []

/-- Whether a message tells the end of a stream. -/
def endsThread : Message → Bool
  | threadEnd _ => true
  | _ => false

/-- Each record comes after the announcement of its method. What is `known` was announced before. -/
def InOrder (known : List (MethodId × String)) : List Message → Prop
  | [] => True
  | m :: ms => (∀ r ∈ m.records, ∃ name, (r.method, name) ∈ known) ∧
      InOrder (known ++ m.announces?.toList) ms

theorem inOrder_append (known : List (MethodId × String)) (ms ms' : List Message) :
    InOrder known (ms ++ ms') ↔
      InOrder known ms ∧ InOrder (known ++ ms.filterMap announces?) ms' := by
  induction ms generalizing known with
  | nil => simp only [InOrder, List.nil_append, List.filterMap_nil, List.append_nil, true_and]
  | cons first ms ih =>
    have hknown : known ++ (first :: ms).filterMap announces? =
        known ++ first.announces?.toList ++ ms.filterMap announces? := by
      cases h : first.announces? with
      | none => rw [List.filterMap_cons_none h, Option.toList_none, List.append_nil]
      | some a => rw [List.filterMap_cons_some h, Option.toList_some, List.append_assoc,
          List.singleton_append]
    rw [List.cons_append, InOrder, InOrder, ih, hknown, and_assoc]

theorem inOrder_concat (known : List (MethodId × String)) (ms : List Message) (m : Message) :
    InOrder known (ms ++ [m]) ↔ InOrder known ms ∧
      ∀ r ∈ m.records, ∃ name, (r.method, name) ∈ known ++ ms.filterMap announces? := by
  rw [inOrder_append, InOrder, InOrder, and_true]

end Message

/-- The numbers from one on, without gaps. -/
def MethodId.upTo (n : Nat) : List MethodId := (List.range n).map fun i => .ofNat (i + 1)

theorem MethodId.upTo_succ (n : Nat) : upTo (n + 1) = upTo n ++ [.ofNat (n + 1)] := by
  rw [upTo, List.range_succ, List.map_append]
  rfl

namespace MethodId

variable {n : Nat}

/-- A number that is given out, unless there are too many. -/
theorem toNat_of_lt {i : Nat} (hn : n ≤ 65535) (hi : i < n) :
    (UInt16.ofNat (i + 1)).toNat = i + 1 :=
  UInt16.toNat_ofNat_of_lt' (show i + 1 < 65536 by omega)

theorem nodup_upTo (hn : n ≤ 65535) : (upTo n).Nodup := by
  refine List.Nodup.map_on (fun i hi j hj heq => ?_) List.nodup_range
  have hi' := toNat_of_lt hn (List.mem_range.1 hi)
  have hj' := toNat_of_lt hn (List.mem_range.1 hj)
  have htoNat := congrArg UInt16.toNat heq
  omega

theorem ne_zero_of_mem_upTo (hn : n ≤ 65535) {id : MethodId} (h : id ∈ upTo n) : id ≠ 0 := by
  obtain ⟨i, hi, rfl⟩ := List.mem_map.1 h
  intro hzero
  have htoNat := toNat_of_lt hn (List.mem_range.1 hi)
  have hzero' := congrArg UInt16.toNat hzero
  rw [htoNat] at hzero'
  cases hzero'

end MethodId

end TraceRelay
