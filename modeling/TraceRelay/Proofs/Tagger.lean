import Mathlib.Data.Nat.ModEq
import TraceRelay.Proofs.Steps
import TraceRelay.Proofs.Token
import TraceRelay.Tagger

/-!
# The ids of a run

Whatever calls a tagger was given, its counters have moved on by one for each id that was asked for,
those that did not fit a token included. So an id is given out again only after its counter has gone
all the way round: an object id after as many calls as a word has values, a class id after as many
class ids as half a word has values. Until then the ids are pairwise distinct, and none of them is
zero.

## Main definitions

* `Tagger.Call` : a request for a token.
* `Tagger.answers` : what calls are answered, one after the other.
* `Tagger.classesAsked` : for how many class ids calls have asked.

## Main results

* `Tagger.after_eq` : the counters after any calls.
* `Tagger.getElem?_answers` : a call is answered by the tagger as the calls before it left it.
* `Tagger.ids_of_answers` : which tokens of a run share an object id or a class id.
* `Tagger.classId_comes_again` : a run in which a class id is given out twice.
-/

namespace TraceRelay

namespace Tagger

/-- A request for a token. -/
inductive Call where
  | object (ofClass : Token)
  | newClass

/-- Makes a call. -/
def Call.run : Call → EStateM TaggerError Tagger Token
  | object ofClass => tagObject ofClass
  | newClass => tagClass

/-- The tagger after a call, whether it succeeded or failed. -/
def next (t : Tagger) (c : Call) : Tagger := Step.final (c.run t)

/-- The tagger after calls. -/
def after (t : Tagger) (calls : List Call) : Tagger := calls.foldl next t

/-- What a call is answered. -/
def answer (t : Tagger) (c : Call) : Except TaggerError Token :=
  match c.run t with
  | .ok token _ => .ok token
  | .error e _ => .error e

/-- What calls are answered, one after the other. -/
def answers (t : Tagger) : List Call → List (Except TaggerError Token)
  | [] => []
  | c :: calls => t.answer c :: (t.next c).answers calls

/-- Whether a call asks for a class id. That of a class does so once it has an object id. -/
def asksClass (t : Tagger) : Call → Bool
  | .object _ => false
  | .newClass => t.nextObject ≤ Token.maxObjectId

/-- For how many class ids calls have asked. -/
def classesAsked (t : Tagger) : List Call → Nat
  | [] => 0
  | c :: calls => (t.asksClass c).toNat + (t.next c).classesAsked calls

/-! ### One call -/

section

variable {o : UInt64} {k : UInt32}

theorem takeObjectId_of_le (h : o ≤ Token.maxObjectId) :
    takeObjectId ⟨o, k⟩ = .ok o ⟨o + 1, k⟩ := by
  rw [takeObjectId, if_neg (UInt64.not_lt.mpr h)]

theorem takeObjectId_of_not_le (h : ¬o ≤ Token.maxObjectId) :
    takeObjectId ⟨o, k⟩ = .error .objectIdsExhausted ⟨o + 1, k⟩ := by
  rw [takeObjectId, if_pos (UInt64.not_le.mp h)]

theorem takeClassId_of_le (h : k ≤ Token.maxClassId) :
    takeClassId ⟨o, k⟩ = .ok k ⟨o, k + 1⟩ := by
  rw [takeClassId, if_neg (UInt32.not_lt.mpr h)]

theorem takeClassId_of_not_le (h : ¬k ≤ Token.maxClassId) :
    takeClassId ⟨o, k⟩ = .error .classIdsExhausted ⟨o, k + 1⟩ := by
  rw [takeClassId, if_pos (UInt32.not_le.mp h)]

end

theorem run_object (t : Tagger) (ofClass : Token) :
    (Call.object ofClass).run t =
      if t.nextObject ≤ Token.maxObjectId then
        .ok (.ofFields t.nextObject ofClass.classId false) ⟨t.nextObject + 1, t.nextClass⟩
      else .error .objectIdsExhausted ⟨t.nextObject + 1, t.nextClass⟩ := by
  split
  case isTrue h => exact Step.bind_of_ok (takeObjectId_of_le h)
  case isFalse h => exact Step.bind_of_error (takeObjectId_of_not_le h)

/-- A call that is left without an object id does not come to ask for a class id. -/
theorem run_newClass (t : Tagger) :
    Call.newClass.run t =
      if t.nextObject ≤ Token.maxObjectId then
        if t.nextClass ≤ Token.maxClassId then
          .ok (.ofFields t.nextObject t.nextClass true) ⟨t.nextObject + 1, t.nextClass + 1⟩
        else .error .classIdsExhausted ⟨t.nextObject + 1, t.nextClass + 1⟩
      else .error .objectIdsExhausted ⟨t.nextObject + 1, t.nextClass⟩ := by
  split
  case isTrue hobject =>
    refine (Step.bind_of_ok (takeObjectId_of_le hobject)).trans ?_
    split
    case isTrue hclass => exact Step.bind_of_ok (takeClassId_of_le hclass)
    case isFalse hclass => exact Step.bind_of_error (takeClassId_of_not_le hclass)
  case isFalse hobject => exact Step.bind_of_error (takeObjectId_of_not_le hobject)

/-- Both counters move on by the ids that a call asks for, whether or not they fit a token. -/
theorem next_eq (t : Tagger) (c : Call) :
    t.next c = ⟨t.nextObject + 1, t.nextClass + .ofNat (t.asksClass c).toNat⟩ := by
  have hnone : t.nextClass = t.nextClass + .ofNat 0 := (UInt32.add_zero _).symm
  cases c with
  | object ofClass =>
    rw [next, run_object]
    split <;> exact congrArg (Tagger.mk _) hnone
  | newClass =>
    rw [next, run_newClass, asksClass]
    split
    case isTrue hobject =>
      rw [decide_eq_true hobject]
      split <;> rfl
    case isFalse hobject =>
      rw [decide_eq_false hobject]
      exact congrArg (Tagger.mk _) hnone

/-- An object's token carries the next object id, which fits, and its class's id. -/
theorem answer_object_eq_ok_iff {t : Tagger} {ofClass token : Token} :
    t.answer (.object ofClass) = .ok token ↔ t.nextObject ≤ Token.maxObjectId ∧
      .ofFields t.nextObject ofClass.classId false = token := by
  rw [answer, run_object]
  by_cases hobject : t.nextObject ≤ Token.maxObjectId <;> simp [hobject]

/-- A class's token carries the next object id and the next class id, both of which fit. -/
theorem answer_newClass_eq_ok_iff {t : Tagger} {token : Token} :
    t.answer .newClass = .ok token ↔ t.nextObject ≤ Token.maxObjectId ∧
      t.nextClass ≤ Token.maxClassId ∧ .ofFields t.nextObject t.nextClass true = token := by
  rw [answer, run_newClass]
  by_cases hobject : t.nextObject ≤ Token.maxObjectId
  · by_cases hclass : t.nextClass ≤ Token.maxClassId <;> simp [hobject, hclass]
  · simp [hobject]

/-! ### A run -/

/-- The counters after any calls. -/
theorem after_eq (t : Tagger) (calls : List Call) :
    t.after calls =
      ⟨t.nextObject + .ofNat calls.length, t.nextClass + .ofNat (t.classesAsked calls)⟩ := by
  induction calls generalizing t with
  | nil => exact (congrArg₂ Tagger.mk (UInt64.add_zero _) (UInt32.add_zero _)).symm
  | cons c calls ih =>
    change (t.next c).after calls = _
    rw [ih, classesAsked, List.length_cons, Nat.add_comm calls.length, UInt64.ofNat_add,
      UInt32.ofNat_add, ← UInt64.add_assoc, ← UInt32.add_assoc, next_eq]
    rfl

theorem classesAsked_append (t : Tagger) (xs ys : List Call) :
    t.classesAsked (xs ++ ys) = t.classesAsked xs + (t.after xs).classesAsked ys := by
  induction xs generalizing t with
  | nil => exact (Nat.zero_add _).symm
  | cons c xs ih =>
    change (t.asksClass c).toNat + (t.next c).classesAsked (xs ++ ys) =
      (t.asksClass c).toNat + (t.next c).classesAsked xs + ((t.next c).after xs).classesAsked ys
    rw [ih, Nat.add_assoc]

/-- A call is answered by the tagger as the calls before it left it. -/
theorem getElem?_answers (t : Tagger) (calls : List Call) (i : Nat) :
    (t.answers calls)[i]? = calls[i]?.map (t.after (calls.take i)).answer := by
  induction calls generalizing t i with
  | nil => rfl
  | cons c calls ih =>
    cases i with
    | zero => rfl
    | succ i => exact ih (t.next c) i

/-! ### The ids of a run -/

/-- The counters of a new tagger after some calls, and so the ids that are asked for next. -/
theorem toNat_nextObject (calls : List Call) :
    (after {} calls).nextObject.toNat = (calls.length + 1) % UInt64.size := by
  rw [after_eq, UInt64.toNat_add, UInt64.toNat_ofNat', Nat.add_mod_mod, Nat.add_comm]
  rfl

theorem toNat_nextClass (calls : List Call) :
    (after {} calls).nextClass.toNat = (classesAsked {} calls + 1) % UInt32.size := by
  rw [after_eq, UInt32.toNat_add, UInt32.toNat_ofNat', Nat.add_mod_mod, Nat.add_comm]
  rfl

/-- Of two moments of a run, no fewer class ids have been asked for at the later one. -/
theorem classesAsked_take_le (t : Tagger) (calls : List Call) {i j : Nat} (h : i ≤ j) :
    t.classesAsked (calls.take i) ≤ t.classesAsked (calls.take j) := by
  obtain ⟨n, rfl⟩ := Nat.exists_eq_add_of_le h
  rw [List.take_add, classesAsked_append]
  exact Nat.le_add_right _ _

/-- Two states of a counter are equal exactly if it has gone all the way round between them. -/
private theorem succ_mod_eq_iff {i j n : Nat} (h : i ≤ j) :
    (i + 1) % n = (j + 1) % n ↔ n ∣ j - i := by
  rw [← Nat.add_sub_add_right j 1 i]
  exact Nat.modEq_iff_dvd' (Nat.succ_le_succ h)

section

variable {calls : List Call} {i : Nat} {c : Call} {s : Token}
  (hc : calls[i]? = some c) (hs : (answers {} calls)[i]? = some (.ok s))

include hc hs

private theorem answer_of_answers : (after {} (calls.take i)).answer c = .ok s := by
  rw [getElem?_answers, hc] at hs
  exact Option.some.inj hs

/-- The object id of a token is the number of its call, as far as the counter counts. -/
theorem objectId_of_answers :
    s.objectId ≤ Token.maxObjectId ∧ s.objectId.toNat = (i + 1) % UInt64.size := by
  have hlt : i < calls.length := (List.getElem?_eq_some_iff.mp hc).1
  have hcount : (after {} (calls.take i)).nextObject.toNat = (i + 1) % UInt64.size := by
    rw [toNat_nextObject, List.length_take, Nat.min_eq_left (Nat.le_of_lt hlt)]
  have hanswer := answer_of_answers hc hs
  cases c with
  | object ofClass =>
    obtain ⟨hfits, rfl⟩ := answer_object_eq_ok_iff.mp hanswer
    rw [Token.objectId_ofFields hfits]
    exact ⟨hfits, hcount⟩
  | newClass =>
    obtain ⟨hfits, -, rfl⟩ := answer_newClass_eq_ok_iff.mp hanswer
    rw [Token.objectId_ofFields hfits]
    exact ⟨hfits, hcount⟩

end

/-- The class id of a new class is the number of class ids asked for, as far as the counter
counts. -/
theorem classId_of_answers {calls : List Call} {i : Nat} {s : Token}
    (hc : calls[i]? = some .newClass) (hs : (answers {} calls)[i]? = some (.ok s)) :
    s.isClass = true ∧ s.classId ≤ Token.maxClassId ∧
      s.classId.toNat = (classesAsked {} (calls.take i) + 1) % UInt32.size := by
  obtain ⟨-, hfits, rfl⟩ := answer_newClass_eq_ok_iff.mp (answer_of_answers hc hs)
  rw [Token.isClass_ofFields, Token.classId_ofFields hfits]
  exact ⟨rfl, hfits, toNat_nextClass _⟩

/-- An object's token names the class that the call named. -/
theorem class_of_answers {calls : List Call} {i : Nat} {ofClass s : Token}
    (hc : calls[i]? = some (.object ofClass)) (hs : (answers {} calls)[i]? = some (.ok s)) :
    s.isClass = false ∧ s.classId = ofClass.classId := by
  obtain ⟨-, rfl⟩ := answer_object_eq_ok_iff.mp (answer_of_answers hc hs)
  exact ⟨Token.isClass_ofFields _ _ _, Token.classId_ofFields ofClass.classId_le _ _⟩

/-- Which tokens of a run share an id, for any calls to a new tagger. An object id is never too
large, it is zero only for a call whose number is a multiple of the counter's size, and another
call shares it exactly if a multiple of that size lies between the two. Likewise the class id of a
new class, by the number of class ids that have been asked for. An object has the class id of its
class. -/
theorem ids_of_answers {calls : List Call} {i : Nat} {c : Call} {s : Token}
    (hc : calls[i]? = some c) (hs : (answers {} calls)[i]? = some (.ok s)) :
    (s.objectId ≤ Token.maxObjectId ∧ (s.objectId = 0 ↔ UInt64.size ∣ i + 1) ∧
      ∀ j t, i < j → (answers {} calls)[j]? = some (.ok t) →
        (s.objectId = t.objectId ↔ UInt64.size ∣ j - i)) ∧
    (c = .newClass →
      s.isClass = true ∧ s.classId ≤ Token.maxClassId ∧
      (s.classId = 0 ↔ UInt32.size ∣ classesAsked {} (calls.take i) + 1) ∧
      ∀ j t, i < j → calls[j]? = some .newClass → (answers {} calls)[j]? = some (.ok t) →
        (s.classId = t.classId ↔
          UInt32.size ∣ classesAsked {} (calls.take j) - classesAsked {} (calls.take i))) ∧
    (∀ ofClass, c = .object ofClass → s.isClass = false ∧ s.classId = ofClass.classId) := by
  refine ⟨?_, ?_, ?_⟩
  · obtain ⟨hfits, hid⟩ := objectId_of_answers hc hs
    refine ⟨hfits, ?_, fun j t hij ht => ?_⟩
    · rw [← UInt64.toNat_inj, hid, Nat.dvd_iff_mod_eq_zero]
      rfl
    · obtain ⟨c', hc'⟩ : ∃ c', calls[j]? = some c' := by
        rw [getElem?_answers] at ht
        obtain ⟨c', hc', -⟩ := Option.map_eq_some_iff.mp ht
        exact ⟨c', hc'⟩
      rw [← UInt64.toNat_inj, hid, (objectId_of_answers hc' ht).2,
        succ_mod_eq_iff (Nat.le_of_lt hij)]
  · rintro rfl
    obtain ⟨hisClass, hfits, hid⟩ := classId_of_answers hc hs
    refine ⟨hisClass, hfits, ?_, fun j t hij hc' ht => ?_⟩
    · rw [← UInt32.toNat_inj, hid, Nat.dvd_iff_mod_eq_zero]
      rfl
    · rw [← UInt32.toNat_inj, hid, (classId_of_answers hc' ht).2.2,
        succ_mod_eq_iff (classesAsked_take_le {} calls (Nat.le_of_lt hij))]
  · rintro ofClass rfl
    exact class_of_answers hc hs

/-- A class and a member of it do not share an object id. -/
theorem ids_of_answers_member :
    (answers {} [.newClass, .object (.ofFields 1 1 true)])[0]? = some (.ok (.ofFields 1 1 true)) ∧
      (answers {} [.newClass, .object (.ofFields 1 1 true)])[1]? =
        some (.ok (.ofFields 2 1 false)) ∧
      (Token.ofFields 1 1 true).objectId ≠ (Token.ofFields 2 1 false).objectId := by
  refine ⟨rfl, rfl, fun hshared => ?_⟩
  have hids := @ids_of_answers [.newClass, .object (.ofFields 1 1 true)] 0 .newClass
    (.ofFields 1 1 true) rfl rfl
  exact absurd ((hids.1.2.2 1 (.ofFields 2 1 false) (by decide) rfl).mp hshared) (by decide)

/-! ### A class id that comes again -/

/-- As long as there are object ids, each call for a class asks for a class id. -/
theorem classesAsked_replicate {n : Nat} (h : n ≤ Token.maxObjectId.toNat) :
    classesAsked {} (List.replicate n .newClass) = n := by
  induction n with
  | zero => rfl
  | succ n ih =>
    -- The next object id still fits, so the call gets as far as to ask for a class id.
    have hnext : (after {} (List.replicate n .newClass)).nextObject ≤ Token.maxObjectId := by
      rw [UInt64.le_iff_toNat_le, toNat_nextObject, List.length_replicate]
      exact Nat.le_trans (Nat.mod_le _ _) h
    rw [List.replicate_succ', classesAsked_append, ih (Nat.le_of_succ_le h)]
    exact congrArg (n + Bool.toNat ·) (decide_eq_true hnext)

/-- How one of many calls for a class is answered, if both counters stand at ids that fit. -/
private theorem getElem?_answers_replicate {n i : Nat} (hi : i < n)
    (hcount : i ≤ Token.maxObjectId.toNat) (hobject : 1 + UInt64.ofNat i ≤ Token.maxObjectId)
    (hclass : 1 + UInt32.ofNat i ≤ Token.maxClassId) :
    (answers {} (List.replicate n .newClass))[i]? =
      some (.ok (.ofFields (1 + .ofNat i) (1 + .ofNat i) true)) := by
  rw [getElem?_answers, List.getElem?_replicate_of_lt hi, List.take_replicate,
    Nat.min_eq_left (Nat.le_of_lt hi), after_eq, classesAsked_replicate hcount,
    List.length_replicate]
  exact congrArg some (answer_newClass_eq_ok_iff.mpr ⟨hobject, hclass, rfl⟩)

/-- A class id may be zero, and it may be given out twice: the counter of class ids counts the
calls that find none left as well, and has gone all the way round long before the object ids are
used up. -/
theorem classId_comes_again :
    ∃ s t u, (answers {} (List.replicate (UInt32.size + 1) .newClass))[0]? = some (.ok s) ∧
      (answers {} (List.replicate (UInt32.size + 1) .newClass))[UInt32.size - 1]? =
        some (.ok t) ∧
      (answers {} (List.replicate (UInt32.size + 1) .newClass))[UInt32.size]? = some (.ok u) ∧
      t.classId = 0 ∧ s.classId = u.classId :=
  ⟨_, _, _, getElem?_answers_replicate (by decide) (by decide) (by decide) (by decide),
    getElem?_answers_replicate (by decide) (by decide) (by decide) (by decide),
    getElem?_answers_replicate (by decide) (by decide) (by decide) (by decide), by decide,
    by decide⟩

end Tagger

end TraceRelay
