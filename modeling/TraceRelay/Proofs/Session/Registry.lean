import TraceRelay.Proofs.Session.Routes

/-!
# Registries after any calls

Analyses are installed and numbers are bound in any order, and each call may be refused. What is
installed, the positions of the scopes and the bound numbers speak of one another, and stay in step:
a call checks all there is to check before it writes anything.

## Main definitions

* `Registry.Call`, `Registry.perform` : a call, one check or write after the other.
* `Registry.run` : what any calls leave.
* `Registry.Consistent` : the three parts of a registry are in step.

## Main results

* `Registry.perform_eq` : the calls, step by step, are `Registry.install` and `Registry.bind`.
* `Registry.Consistent.perform` : what one call keeps.
* `Registry.after_consistent` : what holds after any calls.
-/

namespace TraceRelay

variable {σ : Type}

namespace Registry

/-- A call to a registry. -/
inductive Call (σ : Type) where
  | install (scope : String) (analysis : Analysis σ)
  | bind (id : MethodId) (name : String)

/-- A call that changes the registry in place, one check or write after the other. -/
def perform : Call σ → EStateM MethodError (Registry σ) Unit
  | .install scope analysis => do
    if (← get).positions.contains scope then throw (.duplicateScope scope)
    modify fun r => { r with positions := r.positions.insert scope r.installed.size }
    modify (·.push ⟨scope, analysis⟩)
  | .bind id name => do
    if id = 0 then throw .reservedId
    match (← get).binding? id with
    | some existing =>
      unless existing.name = name do throw (.conflict id existing.name name)
    | none =>
      match MethodName.ofText name with
      | .error e => throw e
      | .ok parts =>
        match (← get).positions[parts.scope]? with
        | none => throw (.unknownAnalysis name)
        | some position =>
          let r ← get
          if h : position < r.installed.size then
            unless r.installed[position].analysis.accepts parts.method do throw (.unsupported name)
            set (r.assign id ⟨name, parts.method, position⟩ h)
          else throw (.unknownAnalysis name)

/-- The registry that a call leads to, or why it is refused. -/
def call (r : Registry σ) : Call σ → Except MethodError (Registry σ)
  | .install scope analysis => r.install scope analysis
  | .bind id name => r.bind id name

/-- A call in place does what is asked for, and writes nothing when it is refused. -/
theorem perform_eq (c : Call σ) (r : Registry σ) : perform c r =
    match r.call c with
    | .ok r' => .ok () r'
    | .error e => .error e r := by
  cases c with
  | install scope analysis =>
    simp only [perform, call, install, Step.get_bind]
    by_cases h : r.positions.contains scope
    · rw [if_pos h, if_pos h]
      rfl
    · rw [if_neg h, if_neg h]
      rfl
  | bind id name =>
    simp only [perform, call, bind]
    by_cases hid : id = 0
    · rw [if_pos hid, if_pos hid]
      rfl
    rw [if_neg hid, if_neg hid]
    change (match r.binding? id with | some existing => _ | none => _ : EStateM _ _ _) r = _
    cases r.binding? id with
    | some existing =>
      by_cases hname : existing.name = name
      · simp only [if_pos hname]
        rfl
      · simp only [if_neg hname]
        rfl
    | none =>
      cases MethodName.ofText name with
      | error e => rfl
      | ok parts =>
        have hparts (f : MethodName → Except MethodError (Registry σ)) :
            (Except.ok parts >>= f) = f parts := rfl
        simp only [hparts, Step.get_bind]
        cases r.positions[parts.scope]? with
        | none => rfl
        | some position =>
          simp only [Step.get_bind]
          by_cases hlt : position < r.installed.size
          · simp only [dif_pos hlt]
            by_cases haccepts : r.installed[position].analysis.accepts parts.method
            · simp only [if_pos haccepts]
              rfl
            · simp only [if_neg haccepts]
              rfl
          · simp only [dif_neg hlt]
            rfl

/-- What any calls leave of a registry, whether they are refused or not. -/
def run (r : Registry σ) (calls : List (Call σ)) : Registry σ :=
  calls.foldl (fun r c => Step.final (perform c r)) r

/-- The parts of a registry are in step: the scopes are at their positions, and each bound number
leads to the scope of its name. -/
structure Consistent (r : Registry σ) : Prop where
  position : ∀ {scope : String} {position : Nat},
    r.positions[scope]? = some position ↔ r.scopes[position]? = some scope
  binding : ∀ {id : MethodId} {b : Binding}, r.binding? id = some b →
    ∃ scope, r.scopes[b.position]? = some scope ∧ b.name = scope ++ "." ++ b.method ∧
      b.method ≠ "" ∧ '.' ∉ b.method.toList

/-- A later registry: analyses came behind those that were installed, and numbers were bound that
were not bound before. -/
structure Extends (r r' : Registry σ) : Prop where
  installed : r.installed.toList <+: r'.installed.toList
  binding : ∀ {id : MethodId} {b : Binding}, r.binding? id = some b → r'.binding? id = some b

variable {r r' r'' : Registry σ}

theorem Extends.refl (r : Registry σ) : r.Extends r := ⟨List.prefix_rfl, id⟩

theorem Extends.trans (h : r.Extends r') (h' : r'.Extends r'') : r.Extends r'' :=
  ⟨h.installed.trans h'.installed, fun hb => h'.binding (h.binding hb)⟩

theorem Consistent.empty : Consistent ({} : Registry σ) where
  position := by simp [scopes]
  binding := by simp [binding?]

/-! ### One call -/

/-- An analysis is installed exactly for a scope that has none, behind all others. -/
theorem install_eq_ok_iff {scope : String} {a : Analysis σ} :
    r.install scope a = .ok r' ↔ r.positions[scope]? = none ∧
      r' = { r with positions := r.positions.insert scope r.installed.size }.push ⟨scope, a⟩ := by
  have hcontains : r.positions.contains scope = false ↔ r.positions[scope]? = none := by
    rw [Std.TreeMap.contains_eq_isSome_getElem?, Option.isSome_eq_false_iff,
      Option.isNone_iff_eq_none]
  unfold Registry.install
  cases h : r.positions.contains scope with
  | true => simp [← hcontains, h]
  | false => simp [hcontains.1 h, eq_comm]

private theorem getElem?_concat_eq_some_iff {l : List String} {last s : String} {n : Nat} :
    (l ++ [last])[n]? = some s ↔ l[n]? = some s ∨ n = l.length ∧ last = s := by
  rcases Nat.lt_trichotomy n l.length with hlt | rfl | hgt
  · simp [List.getElem?_append_left hlt, Nat.ne_of_lt hlt]
  · simp
  · have hle := Nat.le_of_lt hgt
    have hsub : n - l.length ≠ 0 := Nat.sub_ne_zero_of_lt hgt
    simp [List.getElem?_append_right hle, List.getElem?_eq_none hle, Nat.ne_of_gt hgt, hsub]

/-- Installing keeps the parts of a registry in step, and all that is in them. -/
theorem Consistent.install (h : r.Consistent) {scope : String} {a : Analysis σ}
    (hok : r.install scope a = .ok r') : r'.Consistent ∧ r.Extends r' := by
  obtain ⟨hnone, rfl⟩ := install_eq_ok_iff.1 hok
  have hscopes : ({ r with positions := r.positions.insert scope r.installed.size }.push
      ⟨scope, a⟩).scopes = r.scopes ++ [scope] := by simp [scopes, push]
  have hsize : r.scopes.length = r.installed.size := by simp [scopes]
  have hprefix : r.installed.toList <+: (r.installed.push ⟨scope, a⟩).toList := by
    rw [Array.toList_push]
    exact List.prefix_append _ _
  refine ⟨⟨fun {other position} => ?_, fun {id b} hb => ?_⟩, hprefix, id⟩
  · rw [hscopes, push, getElem?_insert, getElem?_concat_eq_some_iff, hsize, ← h.position]
    split_ifs with hother
    · simp [hother, hnone, eq_comm]
    · simp [Ne.symm hother]
  · obtain ⟨found, hfound, hname⟩ := h.binding hb
    exact ⟨found, hscopes ▸ getElem?_concat_eq_some_iff.2 (.inl hfound), hname⟩

/-- Binding keeps the parts of a registry in step, and all that is in them. -/
theorem Consistent.bind (h : r.Consistent) {id : MethodId} {name : String}
    (hok : r.bind id name = .ok r') : r'.Consistent ∧ r.Extends r' := by
  cases (bind_cases hok).2 with
  | already => exact ⟨h, .refl r⟩
  | @newly parts position hunbound hparts hposition =>
    obtain ⟨hname, -, hmethod, hdot⟩ := MethodName.ofText_eq_ok_iff.1 hparts
    refine ⟨⟨h.position, fun {other b} hb => ?_⟩, List.prefix_rfl, fun {other b} hb => ?_⟩
    all_goals rw [binding?_assign] at *
    · split_ifs at hb with hother
      · cases hb
        exact ⟨parts.scope, h.position.1 hposition, hname, hmethod, hdot⟩
      · exact h.binding hb
    · rw [if_neg]
      · exact hb
      · rintro rfl
        cases hunbound.symm.trans hb

/-- A call keeps the parts of a registry in step, and all that is in them. -/
theorem Consistent.perform (h : r.Consistent) (c : Call σ) :
    (Step.final (perform c r)).Consistent ∧ r.Extends (Step.final (perform c r)) := by
  rw [perform_eq]
  cases hcall : r.call c with
  | error e => exact ⟨h, .refl r⟩
  | ok r' =>
    cases c with
    | install => exact h.install hcall
    | bind => exact h.bind hcall

/-! ### All calls -/

theorem Consistent.run (h : r.Consistent) (calls : List (Call σ)) :
    (r.run calls).Consistent ∧ r.Extends (r.run calls) := by
  induction calls generalizing r with
  | nil => exact ⟨h, .refl r⟩
  | cons c calls ih =>
    obtain ⟨hone, hextends⟩ := h.perform c
    obtain ⟨hall, hmore⟩ := ih hone
    exact ⟨hall, hextends.trans hmore⟩

/-- Each position has one scope, and each scope one position. -/
theorem Consistent.nodup (h : r.Consistent) : r.scopes.Nodup := by
  rw [List.nodup_iff_getElem?_ne_getElem?]
  intro i j hij hj heq
  obtain ⟨scope, hscope⟩ : ∃ scope, r.scopes[j]? = some scope := ⟨_, List.getElem?_eq_getElem hj⟩
  have hi := h.position.2 (heq.trans hscope)
  rw [h.position.2 hscope] at hi
  cases hi
  exact Nat.lt_irrefl i hij

/-- **A registry is in step after any calls.** Each bound number leads to an installed analysis, and
its name is the scope of that analysis, a dot, and a method that is not empty and holds no dot. No
scope is installed twice, and each leads to the position at which it was installed. Later calls
leave the installed analyses and the bound numbers as they are, and a call that is refused changes
nothing. -/
theorem after_consistent (calls : List (Call σ)) :
    let r := run {} calls
    (∀ id b, r.binding? id = some b → ∃ installed, r.installed[b.position]? = some installed ∧
      b.name = installed.scope ++ "." ++ b.method ∧ b.method ≠ "" ∧ '.' ∉ b.method.toList) ∧
    r.scopes.Nodup ∧
    (∀ (scope : String) (position : Nat),
      r.positions[scope]? = some position ↔ r.scopes[position]? = some scope) ∧
    (∀ more, r.installed.toList <+: (run {} (calls ++ more)).installed.toList ∧
      ∀ id b, r.binding? id = some b → (run {} (calls ++ more)).binding? id = some b) ∧
    ∀ c e r', perform c r = .error e r' → r' = r := by
  intro r
  obtain ⟨hr, -⟩ := Consistent.empty.run calls
  refine ⟨fun id b hb => ?_, hr.nodup, fun scope position => ?_, fun more => ?_,
    fun c e r' hfail => ?_⟩
  · obtain ⟨scope, hscope, hname⟩ := hr.binding hb
    rw [scopes, List.getElem?_map, Array.getElem?_toList, Option.map_eq_some_iff] at hscope
    obtain ⟨installed, hinstalled, rfl⟩ := hscope
    exact ⟨installed, hinstalled, hname⟩
  · exact hr.position
  · obtain ⟨-, hmore⟩ := hr.run more
    have happend : run {} (calls ++ more) = r.run more := List.foldl_append
    rw [happend]
    exact ⟨hmore.installed, fun _ _ => hmore.binding⟩
  · rw [perform_eq] at hfail
    split at hfail <;> cases hfail
    rfl

/-- An analysis that comes after a number was bound, a second one for the same scope, and a number
that is bound again. -/
theorem after_consistent_twoScopes :
    let calls : List (Call Unit) := [.install "canvas" { name := "a" }, .bind 1 "canvas.draw",
      .install "canvas" { name := "b" }, .install "canvas.draw" { name := "c" }]
    let more : List (Call Unit) := [.bind 1 "canvas.draw.line", .bind 2 "canvas.draw.line",
      .bind 3 "canvas."]
    let r := run {} calls
    let b : Binding := ⟨"canvas.draw", "draw", 0⟩
    r.binding? 1 = some b ∧ (∃ installed, r.installed[0]? = some installed ∧
        b.name = installed.scope ++ "." ++ b.method) ∧
      r.scopes = ["canvas", "canvas.draw"] ∧ r.scopes.Nodup ∧
      (run {} (calls ++ more)).binding? 1 = some b ∧
      (run {} (calls ++ more)).binding? 2 = some ⟨"canvas.draw.line", "line", 1⟩ := by
  intro calls more r b
  obtain ⟨hbinding, hnodup, -, hmore, -⟩ := after_consistent calls
  have hb : r.binding? 1 = some b := by decide +kernel
  obtain ⟨installed, hinstalled, hname, -⟩ := hbinding 1 b hb
  exact ⟨hb, ⟨installed, hinstalled, hname⟩, by decide +kernel, hnodup, (hmore more).2 1 b hb,
    by decide +kernel⟩

end Registry

end TraceRelay
