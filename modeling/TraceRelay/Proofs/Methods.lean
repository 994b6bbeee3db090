import Mathlib.Data.List.Induction
import TraceRelay.Method.Table
import TraceRelay.Proofs.Maps
import TraceRelay.Proofs.Messages
import TraceRelay.Proofs.Steps

/-!
# The numbers of methods

A table of methods is used through calls that register a name. A name that is new is announced under
the next number, and the announcement may fail. What the table knows after any calls is told by the
announcements that succeeded: their numbers are those from one on, without gaps, and the names that
they announced are those that have a number.

## Main definitions

* `Registration`, `Registration.run` : a call, and how it goes.
* `Registration.Reply` : what is seen of a call.
* `MethodTable.after`, `MethodTable.replies` : the table after any calls, and what is seen of them.
* `MethodTable.Numbers` : a table agrees with the announcements that succeeded.

## Main results

* `MethodTable.registers` : all that a call can do.
* `MethodTable.Numbers.next`, `MethodTable.numbers_after` : a table agrees with the announcements,
  through one call and through any calls.
* `MethodTable.numbered_in_order` : which numbers are given out, and which calls fail.
-/

namespace TraceRelay

/-! ### One call -/

/-- A call that registers a method. -/
structure Registration (ε : Type) where
  name : String
  /-- How the announcement under a number ends. -/
  announce : MethodId → Except ε Unit

/-- A table of methods with the numbers under which announcements were made. -/
structure Registrar where
  table : MethodTable := {}
  /-- The numbers in order, those of announcements that failed included. -/
  tried : List MethodId := []

namespace Registration

variable {ε : Type} (refuse : MethodError → ε)

/-- Announces the method. -/
def announcing (r : Registration ε) (id : MethodId) : EStateM ε Registrar Unit := do
  modify fun s => { s with tried := s.tried ++ [id] }
  match r.announce id with
  | .ok _ => return
  | .error e => throw e

/-- Registers the method, and keeps the table that has its number. -/
def run (r : Registration ε) : EStateM ε Registrar MethodId := do
  let (id, table) ← (← get).table.register refuse r.announcing r.name
  modify ({ · with table })
  return id

/-- What is seen of a call. -/
structure Reply (ε : Type) where
  name : String
  /-- The numbers under which the method was announced, also if that failed. -/
  tried : List MethodId
  result : Except ε MethodId

/-- The name that a call announced and the number under which it did. -/
def Reply.announced? (p : Reply ε) : Option (String × MethodId) :=
  match p.tried, p.result with
  | [id], .ok _ => some (p.name, id)
  | _, _ => none

end Registration

theorem MethodTable.find?_insert (t : MethodTable) (name other : String) :
    (t.insert name).find? other =
      if other = name then some (.ofNat (t.count + 1)) else t.find? other :=
  getElem?_insert t.ids name _ other

namespace MethodTable

variable {ε : Type} (refuse : MethodError → ε)

/-- What is seen of a call. -/
def reply (t : MethodTable) (r : Registration ε) : Registration.Reply ε :=
  match r.run refuse { table := t } with
  | .ok id s => ⟨r.name, s.tried, .ok id⟩
  | .error e s => ⟨r.name, s.tried, .error e⟩

/-- The table after a call. -/
def next (t : MethodTable) (r : Registration ε) : MethodTable :=
  (Step.final (r.run refuse { table := t })).table

/-- The table after calls, one after the other. -/
def after (t : MethodTable) (calls : List (Registration ε)) : MethodTable :=
  calls.foldl (next refuse) t

/-- What is seen of calls, in order. -/
def replies (t : MethodTable) : List (Registration ε) → List (Registration.Reply ε)
  | [] => []
  | r :: calls => t.reply refuse r :: (t.next refuse r).replies calls

/-- The number that a new name gets. -/
def fresh (t : MethodTable) : MethodId := .ofNat (t.count + 1)

theorem toNat_fresh {t : MethodTable} (hroom : t.count < maxId) : t.fresh.toNat = t.count + 1 :=
  MethodId.toNat_of_lt (Nat.le_refl _) hroom

/-- All that a call can do: what is seen of it, and the table that it leaves. -/
inductive Registers (t : MethodTable) (r : Registration ε) :
    Registration.Reply ε → MethodTable → Prop where
  | known {id : MethodId} (hold : t.find? r.name = some id) : Registers t r ⟨r.name, [], .ok id⟩ t
  | full (hnew : t.find? r.name = none) (hfull : maxId ≤ t.count) :
    Registers t r ⟨r.name, [], .error (refuse .tooMany)⟩ t
  | failed {e : ε} (hnew : t.find? r.name = none) (hroom : t.count < maxId)
    (hfails : r.announce t.fresh = .error e) : Registers t r ⟨r.name, [t.fresh], .error e⟩ t
  | numbered {u : Unit} (hnew : t.find? r.name = none) (hroom : t.count < maxId)
    (hdone : r.announce t.fresh = .ok u) :
    Registers t r ⟨r.name, [t.fresh], .ok t.fresh⟩ (t.insert r.name)

/-- There is nothing else that a call does. -/
theorem registers (t : MethodTable) (r : Registration ε) :
    Registers refuse t r (t.reply refuse r) (t.next refuse r) := by
  unfold reply next
  rw [Registration.run, Step.get_bind, register]
  cases hfind : t.find? r.name with
  | some id => exact .known hfind
  | none =>
    by_cases hfull : t.count ≥ maxId
    · simp only [if_pos hfull]
      exact .full hfind hfull
    · simp only [if_neg hfull]
      have hroom : t.count < maxId := Nat.not_le.1 hfull
      cases hdone : r.announce t.fresh with
      | ok u =>
        have hrun : r.announcing (.ofNat (t.count + 1)) { table := t } = .ok () ⟨t, [t.fresh]⟩ := by
          rw [Registration.announcing, Step.modify_bind, ← fresh, hdone]
          rfl
        rw [bind_assoc, Step.bind_of_ok hrun]
        exact .numbered hfind hroom hdone
      | error e =>
        have hrun : r.announcing (.ofNat (t.count + 1)) { table := t } =
            .error e ⟨t, [t.fresh]⟩ := by
          rw [Registration.announcing, Step.modify_bind, ← fresh, hdone]
          rfl
        rw [bind_assoc, Step.bind_of_error hrun]
        exact .failed hfind hroom hdone

variable {refuse} in
/-- What a call gives and leaves, by what the table knows of its name. -/
theorem Registers.tells {t t' : MethodTable} {r : Registration ε} {p : Registration.Reply ε}
    (h : Registers refuse t r p t') (hfew : t.count ≤ maxId) :
    (∀ id, t.find? r.name = some id → p = ⟨r.name, [], .ok id⟩ ∧ t' = t) ∧
    (t.find? r.name = none → t.count < maxId → ∃ id : MethodId,
      id.toNat = t.count + 1 ∧ p.tried = [id] ∧
      (∀ u, r.announce id = .ok u → p.result = .ok id ∧ t'.count = t.count + 1) ∧
      ∀ e, r.announce id = .error e → p.result = .error e ∧ t' = t) ∧
    ((∃ e, p.result = .error e ∧ p.tried = []) ↔ t.find? r.name = none ∧ t.count = maxId) ∧
    ∀ e, p.result = .error e → t' = t ∧ (p.tried = [] → e = refuse .tooMany) := by
  cases h with
  | known hold => simp [hold]
  | full hnew hfull =>
    refine ⟨by simp [hnew], fun _ hroom => absurd hroom (Nat.not_lt.2 hfull), ?_, ?_⟩
    · exact iff_of_true ⟨_, rfl, rfl⟩ ⟨hnew, Nat.le_antisymm hfew hfull⟩
    · rintro e ⟨⟩
      exact ⟨rfl, fun _ => rfl⟩
  | failed hnew hroom hfails =>
    refine ⟨by simp [hnew], fun _ _ => ⟨t.fresh, toNat_fresh hroom, rfl, ?_, ?_⟩, ?_, ?_⟩
    · rintro u hdone
      cases hfails.symm.trans hdone
    · rintro e' he
      cases hfails.symm.trans he
      exact ⟨rfl, rfl⟩
    · simp [Nat.ne_of_lt hroom]
    · exact fun _ _ => ⟨rfl, nofun⟩
  | numbered hnew hroom hdone =>
    refine ⟨by simp [hnew], fun _ _ => ⟨t.fresh, toNat_fresh hroom, rfl, ?_, ?_⟩,
      by simp [Nat.ne_of_lt hroom], nofun⟩
    · exact fun _ _ => ⟨rfl, rfl⟩
    · rintro e he
      cases hdone.symm.trans he

/-! ### Any calls -/

theorem after_concat (t : MethodTable) (calls : List (Registration ε)) (r : Registration ε) :
    t.after refuse (calls ++ [r]) = (t.after refuse calls).next refuse r := by
  rw [after, List.foldl_append]
  rfl

theorem replies_concat (t : MethodTable) (calls : List (Registration ε)) (r : Registration ε) :
    t.replies refuse (calls ++ [r]) =
      t.replies refuse calls ++ [(t.after refuse calls).reply refuse r] := by
  induction calls generalizing t with
  | nil => rfl
  | cons first calls ih => exact congrArg (_ :: ·) (ih (t.next refuse first))

/-- A table agrees with the announcements that succeeded: of each it has the name and the number,
and the numbers are those from one on. -/
structure Numbers (announced : List (String × MethodId)) (t : MethodTable) : Prop where
  ids : announced.map (·.2) = MethodId.upTo t.count
  nodup : (announced.map (·.1)).Nodup
  few : t.count ≤ maxId
  find : ∀ name id, t.find? name = some id ↔ (name, id) ∈ announced

variable {refuse} {announced : List (String × MethodId)} {t : MethodTable} {r : Registration ε}

/-- A number is in the table exactly if it is among the first ones. -/
theorem contains_iff (hfew : t.count ≤ maxId) (id : MethodId) :
    t.contains id = true ↔ id ∈ MethodId.upTo t.count := by
  rw [contains, Bool.and_eq_true, bne_iff_ne, decide_eq_true_eq, MethodId.upTo, List.mem_map]
  constructor
  · rintro ⟨hzero, hle⟩
    have hpos : id.toNat ≠ 0 := fun heq => hzero (UInt16.toNat_inj.1 heq)
    refine ⟨id.toNat - 1, List.mem_range.2 (by omega), ?_⟩
    rw [show id.toNat - 1 + 1 = id.toNat by omega, UInt16.ofNat_toNat]
  · rintro ⟨n, hn, rfl⟩
    have hlt := List.mem_range.1 hn
    have htoNat := MethodId.toNat_of_lt hfew hlt
    exact ⟨MethodId.ne_zero_of_mem_upTo hfew (List.mem_map_of_mem hn), by omega⟩

namespace Numbers

theorem empty : Numbers [] {} where
  ids := rfl
  nodup := .nil
  few := Nat.zero_le _
  find name id := by simp [find?]

/-- A name is new exactly if no announcement of it succeeded. -/
theorem find?_eq_none_iff (h : Numbers announced t) {name : String} :
    t.find? name = none ↔ name ∉ announced.map (·.1) := by
  rw [← not_iff_not, not_not, ← ne_eq, Option.ne_none_iff_exists', List.mem_map]
  constructor
  · rintro ⟨id, hid⟩
    exact ⟨(name, id), (h.find name id).1 hid, rfl⟩
  · rintro ⟨⟨_, id⟩, hmem, rfl⟩
    exact ⟨id, (h.find _ id).2 hmem⟩

/-- An announcement succeeds. -/
theorem insert (h : Numbers announced t) {name : String} (hnew : t.find? name = none)
    (hroom : t.count < maxId) : Numbers (announced ++ [(name, t.fresh)]) (t.insert name) where
  ids := by
    rw [List.map_append, h.ids]
    exact (MethodId.upTo_succ t.count).symm
  nodup := by
    rw [List.map_append, List.nodup_append]
    refine ⟨h.nodup, List.nodup_singleton _, fun other hother last hlast => ?_⟩
    obtain rfl := List.mem_singleton.1 hlast
    exact ne_of_mem_of_not_mem hother (h.find?_eq_none_iff.1 hnew)
  few := hroom
  find other id := by
    rw [find?_insert, List.mem_append, List.mem_singleton, Prod.mk.injEq]
    by_cases heq : other = name
    · have hnone : (other, id) ∉ announced := by
        rw [← h.find, heq, hnew]
        nofun
      rw [if_pos heq, Option.some.injEq, or_iff_right hnone]
      exact ⟨fun hid => ⟨heq, hid.symm⟩, fun hmem => hmem.2.symm⟩
    · rw [if_neg heq, h.find]
      exact ⟨.inl, fun hmem => hmem.resolve_right fun hid => heq hid.1⟩

/-- Each call keeps the table in agreement with the announcements. -/
theorem next (h : Numbers announced t) (r : Registration ε) :
    Numbers (announced ++ (t.reply refuse r).announced?.toList) (t.next refuse r) := by
  have hregisters := registers refuse t r
  generalize t.reply refuse r = p at hregisters ⊢
  generalize t.next refuse r = t' at hregisters ⊢
  cases hregisters with
  | known | full | failed =>
    rwa [Registration.Reply.announced?, Option.toList_none, List.append_nil]
  | numbered hnew hroom => exact h.insert hnew hroom

end Numbers

/-- The numbers and the names of a table are those of the announcements that succeeded. -/
theorem numbers_after (calls : List (Registration ε)) :
    Numbers ((replies refuse {} calls).filterMap Registration.Reply.announced?)
      (after refuse {} calls) := by
  induction calls using List.reverseRecOn with
  | nil => exact .empty
  | append_singleton calls r ih =>
    rw [replies_concat, after_concat, filterMap_concat]
    exact ih.next r

/-- A call that succeeds gives the number under which the name was announced. -/
theorem result_mem_announced {calls : List (Registration ε)} {p : Registration.Reply ε}
    (hp : p ∈ replies refuse {} calls) {id : MethodId} (hid : p.result = .ok id) :
    (p.name, id) ∈ (replies refuse {} calls).filterMap Registration.Reply.announced? := by
  induction calls using List.reverseRecOn with
  | nil => cases hp
  | append_singleton calls r ih =>
    rw [replies_concat, List.mem_append, List.mem_singleton] at hp
    rw [replies_concat, filterMap_concat, List.mem_append]
    rcases hp with hp | rfl
    · exact .inl (ih hp)
    · have hnumbers : Numbers _ (after refuse {} calls) := numbers_after calls
      have hregisters := registers refuse (after refuse {} calls) r
      generalize (after refuse {} calls).reply refuse r = p at hregisters hid ⊢
      generalize (after refuse {} calls).next refuse r = t' at hregisters
      cases hregisters with
      | known hold =>
        cases hid
        exact .inl ((hnumbers.find _ _).1 hold)
      | full | failed => cases hid
      | numbered =>
        cases hid
        exact .inr List.mem_cons_self

/-- **Numbers are given out in order,** whatever calls are made and however the announcements end.
The numbers announced with success are those from one on, for names that are all different, and the
table knows exactly these. Calls that succeed give the same number exactly if they have the same
name. Of a further call this tells what it gives and what it leaves: a name that was announced has
its number without another announcement; a new one is announced under the next number and has it if
that succeeds, unless all numbers are taken, and only then the call is refused without an
announcement. A call that fails changes nothing. -/
theorem numbered_in_order (refuse : MethodError → ε) (calls : List (Registration ε)) :
    let t := after refuse {} calls
    let announced := (replies refuse {} calls).filterMap Registration.Reply.announced?
    announced.map (·.2) = MethodId.upTo t.count ∧ (announced.map (·.1)).Nodup ∧ t.count ≤ 65535 ∧
    (∀ id, t.contains id = true ↔ 1 ≤ id.toNat ∧ id.toNat ≤ t.count) ∧
    (∀ p ∈ replies refuse {} calls, ∀ q ∈ replies refuse {} calls, ∀ id id',
      p.result = .ok id → q.result = .ok id' → (id = id' ↔ p.name = q.name)) ∧
    ∀ r : Registration ε,
      let p := t.reply refuse r
      let t' := t.next refuse r
      (∀ id, (r.name, id) ∈ announced → p = ⟨r.name, [], .ok id⟩ ∧ t' = t) ∧
      (r.name ∉ announced.map (·.1) → t.count < 65535 → ∃ id : MethodId,
        id.toNat = t.count + 1 ∧ p.tried = [id] ∧
        (∀ u, r.announce id = .ok u → p.result = .ok id ∧ t'.count = t.count + 1) ∧
        ∀ e, r.announce id = .error e → p.result = .error e ∧ t' = t) ∧
      ((∃ e, p.result = .error e ∧ p.tried = []) ↔
        r.name ∉ announced.map (·.1) ∧ t.count = 65535) ∧
      ∀ e, p.result = .error e → t' = t ∧ (p.tried = [] → e = refuse .tooMany) := by
  intro t announced
  have hnumbers : Numbers announced t := numbers_after calls
  have hfew : t.count ≤ 65535 := hnumbers.few
  refine ⟨hnumbers.ids, hnumbers.nodup, hfew, fun id => ?_, fun p hp q hq id id' hid hid' => ?_,
    fun r => ?_⟩
  · rw [contains, Bool.and_eq_true, bne_iff_ne, decide_eq_true_eq, ne_eq, ← UInt16.toNat_inj]
    exact and_congr_left fun _ => Nat.pos_iff_ne_zero.symm
  · have hmem := result_mem_announced hp hid
    have hmem' := result_mem_announced hq hid'
    constructor
    · rintro rfl
      have hnodup : (announced.map (·.2)).Nodup := hnumbers.ids ▸ MethodId.nodup_upTo hfew
      exact congrArg Prod.fst (List.inj_on_of_nodup_map hnodup hmem hmem' rfl)
    · intro hname
      exact congrArg Prod.snd (List.inj_on_of_nodup_map hnumbers.nodup hmem hmem' hname)
  · have hregisters := registers refuse t r
    intro p t'
    rw [← hnumbers.find?_eq_none_iff]
    simp only [← hnumbers.find]
    exact hregisters.tells hfew

end MethodTable

end TraceRelay
