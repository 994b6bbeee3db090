import Mathlib.Data.List.Induction
import TraceRelay.Proofs.Messages
import TraceRelay.Proofs.Tagger

/-!
# How many object ids were given out

A call for the token of a class takes an object id before it asks for a class id. If no class id is
left, the call fails and the object id is lost: no token carries it, and no later call gets it. The
count of a tagger takes in the lost ids as well. A call that finds no object id takes none and is
not counted.

## Main definitions

* `Tagger.Ends` : the ways in which a call ends.
* `Tagger.tokens`, `Tagger.lost` : the tokens that calls were given, and how many ids they lost.
* `Tagger.Accounts` : the object ids that calls asked for are given out, lost or too large.

## Main results

* `Tagger.ends` : there is no other way in which a call ends.
* `Tagger.Accounts.concat`, `Tagger.accounts` : what becomes of the ids, through one more call and
  through any calls.
* `Tagger.objectsTagged_with_lost` : what the count of a tagger counts.
* `Tagger.objectsTagged_of_lost` : a run whose count is larger than the number of its tokens.
-/

namespace TraceRelay

namespace Tagger

/-- The ways in which a call ends, by the ids that it asked for. -/
inductive Ends (t : Tagger) (c : Call) : Except TaggerError Token → Prop where
  | refused (hobject : ¬t.nextObject ≤ Token.maxObjectId) (hasks : t.asksClass c = false) :
    Ends t c (.error .objectIdsExhausted)
  | lost (hobject : t.nextObject ≤ Token.maxObjectId) (hasks : t.asksClass c = true)
    (hclass : ¬t.nextClass ≤ Token.maxClassId) : Ends t c (.error .classIdsExhausted)
  | tagged {token : Token} (hobject : t.nextObject ≤ Token.maxObjectId)
    (hclass : t.asksClass c = true → t.nextClass ≤ Token.maxClassId)
    (hid : token.objectId = t.nextObject) : Ends t c (.ok token)

/-- There is no other way in which a call ends. -/
theorem ends (t : Tagger) (c : Call) : Ends t c (t.answer c) := by
  by_cases hobject : t.nextObject ≤ Token.maxObjectId
  · cases c with
    | object ofClass =>
      rw [answer, run_object, if_pos hobject]
      exact .tagged hobject (fun hasks => absurd hasks Bool.false_ne_true)
        (Token.objectId_ofFields hobject _ _)
    | newClass =>
      rw [answer, run_newClass, if_pos hobject]
      by_cases hclass : t.nextClass ≤ Token.maxClassId
      · rw [if_pos hclass]
        exact .tagged hobject (fun _ => hclass) (Token.objectId_ofFields hobject _ _)
      · rw [if_neg hclass]
        exact .lost hobject (decide_eq_true hobject) hclass
  · cases c with
    | object ofClass =>
      rw [answer, run_object, if_neg hobject]
      exact .refused hobject rfl
    | newClass =>
      rw [answer, run_newClass, if_neg hobject]
      exact .refused hobject (decide_eq_false hobject)

/-- The tokens that calls were given. -/
def tokens (t : Tagger) (calls : List Call) : List Token :=
  (t.answers calls).filterMap Except.toOption

/-- How many calls took an object id and then found no class id left. -/
def lost (t : Tagger) (calls : List Call) : Nat :=
  (t.answers calls).count (.error .classIdsExhausted)

/-! ### One more call -/

theorem answers_concat (t : Tagger) (calls : List Call) (c : Call) :
    t.answers (calls ++ [c]) = t.answers calls ++ [(t.after calls).answer c] := by
  induction calls generalizing t with
  | nil => rfl
  | cons first calls ih => exact congrArg (_ :: ·) (ih (t.next first))

theorem tokens_concat (t : Tagger) (calls : List Call) (c : Call) :
    t.tokens (calls ++ [c]) =
      t.tokens calls ++ ((t.after calls).answer c).toOption.toList := by
  rw [tokens, answers_concat, filterMap_concat]
  rfl

theorem lost_concat (t : Tagger) (calls : List Call) (c : Call) :
    t.lost (calls ++ [c]) =
      t.lost calls + [(t.after calls).answer c].count (.error .classIdsExhausted) := by
  rw [lost, answers_concat, List.count_append]
  rfl

theorem classesAsked_concat (t : Tagger) (calls : List Call) (c : Call) :
    t.classesAsked (calls ++ [c]) =
      t.classesAsked calls + ((t.after calls).asksClass c).toNat :=
  t.classesAsked_append calls [c]

/-! ### Any calls -/

/-- No id is lost as long as there are class ids for all calls that ask for one. -/
theorem lost_eq_zero_iff (calls : List Call) :
    lost {} calls = 0 ↔ classesAsked {} calls ≤ Token.maxClassId.toNat := by
  induction calls using List.reverseRecOn with
  | nil => exact iff_of_true rfl (Nat.zero_le _)
  | append_singleton calls c ih =>
    have hends := ends (after {} calls) c
    rw [lost_concat, classesAsked_concat]
    generalize (after {} calls).answer c = result at hends ⊢
    cases hends with
    | refused _ hasks =>
      rw [hasks]
      exact ih
    | lost _ hasks hclass =>
      rw [UInt32.le_iff_toNat_le, toNat_nextClass, Nat.not_le] at hclass
      rw [hasks]
      exact iff_of_false (Nat.succ_ne_zero _)
        (Nat.not_le.mpr (Nat.lt_of_lt_of_le hclass (Nat.mod_le _ _)))
    | tagged _ hclass _ =>
      change lost {} calls = 0 ↔ _
      rw [ih]
      cases hasks : (after {} calls).asksClass c with
      | false => exact Iff.rfl
      | true =>
        -- The counter of class ids has not gone round, so the next one fits as well.
        rw [UInt32.le_iff_toNat_le, toNat_nextClass] at hclass
        refine ⟨fun hasked => ?_, Nat.le_of_succ_le⟩
        have hround : classesAsked {} calls + 1 < UInt32.size :=
          Nat.lt_of_le_of_lt (Nat.succ_le_succ hasked) (by decide)
        rw [Nat.mod_eq_of_lt hround] at hclass
        exact hclass hasks

/-- The counter of object ids has not gone round. -/
theorem toNat_nextObject_of_few {calls : List Call} (hfew : calls.length + 1 < UInt64.size) :
    (after {} calls).nextObject.toNat = calls.length + 1 := by
  rw [toNat_nextObject, Nat.mod_eq_of_lt hfew]

/-- Of the object ids that calls asked for, those that fit a token were given out or lost. -/
structure Accounts (calls : List Call) : Prop where
  ids : ((tokens {} calls).map (·.objectId.toNat)).Sublist
    (List.range' 1 (min calls.length Token.maxObjectId.toNat))
  taken : (tokens {} calls).length + lost {} calls = min calls.length Token.maxObjectId.toNat

/-- One more call gets the next object id, unless it is too large. -/
theorem Accounts.concat {calls : List Call} (h : Accounts calls) (c : Call)
    (hfew : calls.length + 1 < UInt64.size) : Accounts (calls ++ [c]) := by
  obtain ⟨hids, htaken⟩ := h
  have hnext := toNat_nextObject_of_few hfew
  have hlength : (calls ++ [c]).length = calls.length + 1 := List.length_append
  have hends := ends (after {} calls) c
  have htokens := tokens_concat {} calls c
  have hlost := lost_concat {} calls c
  generalize (after {} calls).answer c = result at hends htokens hlost
  cases hends with
  | refused hobject _ =>
    -- The ids that fit a token were used up before.
    rw [UInt64.le_iff_toNat_le, hnext, Nat.not_le, Nat.lt_succ_iff] at hobject
    have hmin : min (calls.length + 1) Token.maxObjectId.toNat =
        min calls.length Token.maxObjectId.toNat := by
      rw [Nat.min_eq_right hobject, Nat.min_eq_right (Nat.le_succ_of_le hobject)]
    replace htokens : tokens {} (calls ++ [c]) = tokens {} calls :=
      htokens.trans (List.append_nil _)
    replace hlost : lost {} (calls ++ [c]) = lost {} calls := hlost
    constructor
    · rwa [htokens, hlength, hmin]
    · rw [htokens, hlost, hlength, hmin, htaken]
  | lost hobject _ _ =>
    -- The id is taken, and the list of those that were given out has a gap.
    rw [UInt64.le_iff_toNat_le, hnext] at hobject
    rw [Nat.min_eq_left (Nat.le_of_succ_le hobject)] at hids htaken
    replace htokens : tokens {} (calls ++ [c]) = tokens {} calls :=
      htokens.trans (List.append_nil _)
    replace hlost : lost {} (calls ++ [c]) = lost {} calls + 1 := hlost
    constructor
    · rw [htokens, hlength, Nat.min_eq_left hobject, List.range'_1_concat]
      exact hids.trans (List.sublist_append_left _ _)
    · rw [htokens, hlost, hlength, Nat.min_eq_left hobject, ← htaken, Nat.add_assoc]
  | @tagged token hobject _ hid =>
    rw [UInt64.le_iff_toNat_le, hnext] at hobject
    rw [Nat.min_eq_left (Nat.le_of_succ_le hobject)] at hids htaken
    replace htokens : tokens {} (calls ++ [c]) = tokens {} calls ++ [token] := htokens
    replace hlost : lost {} (calls ++ [c]) = lost {} calls := hlost
    constructor
    · rw [htokens, hlength, Nat.min_eq_left hobject, List.range'_1_concat, List.map_append,
        List.map_singleton, hid, hnext, Nat.add_comm 1]
      exact hids.append (List.Sublist.refl _)
    · rw [htokens, hlost, hlength, Nat.min_eq_left hobject, List.length_append,
        List.length_singleton, Nat.add_right_comm, htaken]

/-- What becomes of the ids, unless the counter of object ids goes all the way round. -/
theorem accounts {calls : List Call} (hfew : calls.length < UInt64.size) : Accounts calls := by
  induction calls using List.reverseRecOn with
  | nil => exact ⟨.slnil, rfl⟩
  | append_singleton calls c ih =>
    rw [List.length_append, List.length_singleton] at hfew
    exact (ih (Nat.lt_of_succ_lt hfew)).concat c hfew

/-- The count of a tagger goes up with each call until no object id is left. -/
theorem toNat_objectsTagged {calls : List Call} (hfew : calls.length + 1 < UInt64.size) :
    (after {} calls).objectsTagged.toNat = min calls.length Token.maxObjectId.toNat := by
  have hnext := toNat_nextObject_of_few hfew
  have hone : 1 ≤ (after {} calls).nextObject := by
    rw [UInt64.le_iff_toNat_le, hnext]
    exact Nat.le_add_left 1 _
  have hasked : ((after {} calls).nextObject - 1).toNat = calls.length := by
    rw [UInt64.toNat_sub_of_le _ _ hone, hnext]
    exact Nat.add_sub_cancel _ 1
  rw [objectsTagged, UInt64.toNat_min, hasked]

/-- **The count of a tagger takes in the ids that were lost,** for any calls to a new tagger that
are too few for the counter of object ids to go all the way round. The tokens that the calls were
given have different object ids, in order, from one on up to the count. The count is the number of
these tokens together with the number of calls that took an object id and failed for want of a class
id. So it is the number of the tokens exactly if no more class ids were asked for than there are. -/
theorem objectsTagged_with_lost {calls : List Call} (hfew : calls.length < 2 ^ 64 - 1) :
    let tagged := (after {} calls).objectsTagged.toNat
    ((tokens {} calls).map (·.objectId.toNat)).Sublist (List.range' 1 tagged) ∧
      tagged = (tokens {} calls).length + lost {} calls ∧
      (tagged = (tokens {} calls).length ↔ classesAsked {} calls ≤ 4194303) := by
  intro tagged
  have hround : calls.length + 1 < UInt64.size := Nat.add_lt_of_lt_sub hfew
  have htagged : tagged = min calls.length Token.maxObjectId.toNat := toNat_objectsTagged hround
  have haccounts := accounts (Nat.lt_of_succ_lt hround)
  have htaken : tagged = (tokens {} calls).length + lost {} calls :=
    htagged.trans haccounts.taken.symm
  refine ⟨htagged ▸ haccounts.ids, htaken, ?_⟩
  rw [htaken, Nat.add_eq_left]
  exact lost_eq_zero_iff calls

/-- Two classes and a member of the first one. -/
theorem objectsTagged_with_lost_three :
    let calls := [.newClass, .object (.ofFields 1 1 true), .newClass]
    calls.length < 2 ^ 64 - 1 ∧ classesAsked {} calls ≤ 4194303 ∧
      tokens {} calls = [.ofFields 1 1 true, .ofFields 2 1 false, .ofFields 3 2 true] ∧
      (after {} calls).objectsTagged.toNat = (tokens {} calls).length := by
  intro calls
  have hfew : calls.length < 2 ^ 64 - 1 := by decide
  have hasked : classesAsked {} calls ≤ 4194303 := by decide
  exact ⟨hfew, hasked, rfl, (objectsTagged_with_lost hfew).2.2.mpr hasked⟩

/-- Calls for classes alone are given a token each until the class ids are used up, and the next one
loses its object id. -/
theorem length_tokens_replicate {n : Nat} (hn : n = Token.maxClassId.toNat) :
    (tokens {} (List.replicate (n + 1) .newClass)).length = n := by
  have hobject : n + 1 ≤ Token.maxObjectId.toNat := by
    rw [hn]
    decide
  have htaken {m : Nat} (hm : m ≤ Token.maxObjectId.toNat) :
      (tokens {} (List.replicate m .newClass)).length + lost {} (List.replicate m .newClass) =
        m := by
    have hfew : (List.replicate m Call.newClass).length < UInt64.size := by
      rw [List.length_replicate]
      exact Nat.lt_of_le_of_lt hm (UInt64.toNat_lt _)
    rw [(accounts hfew).taken, List.length_replicate, Nat.min_eq_left hm]
  have hbefore : (tokens {} (List.replicate n .newClass)).length = n := by
    have hnone : lost {} (List.replicate n .newClass) = 0 := by
      rw [lost_eq_zero_iff, classesAsked_replicate (Nat.le_of_succ_le hobject), hn]
    have hall := htaken (Nat.le_of_succ_le hobject)
    rwa [hnone] at hall
  have hlost : lost {} (List.replicate (n + 1) .newClass) ≠ 0 := by
    rw [ne_eq, lost_eq_zero_iff, classesAsked_replicate hobject, hn]
    exact Nat.not_succ_le_self _
  have hmore : n ≤ (tokens {} (List.replicate (n + 1) .newClass)).length := by
    rw [List.replicate_succ', tokens_concat, List.length_append, hbefore]
    exact Nat.le_add_right _ _
  have hall := htaken hobject
  omega

/-- The call for a class after the last class id loses an object id, and the count takes it in. -/
theorem objectsTagged_of_lost :
    (List.replicate 4194304 Call.newClass).length < 2 ^ 64 - 1 ∧
      (after {} (List.replicate 4194304 .newClass)).objectsTagged.toNat = 4194304 ∧
      (tokens {} (List.replicate 4194304 .newClass)).length = 4194303 := by
  refine ⟨?_, ?_, length_tokens_replicate rfl⟩
  · rw [List.length_replicate]
    decide
  · rw [toNat_objectsTagged (by rw [List.length_replicate]; decide), List.length_replicate]
    rfl

end Tagger

end TraceRelay
