import Std.Data.TreeMap.Lemmas
import TraceRelay.Analysis.Basic
import TraceRelay.Method.Name

/-!
# Installed analyses

An analysis is installed for a scope. When a method is announced, its number is bound to the
analysis for the scope of its name, once and for all.

## Main definitions

* `Registry` : the installed analyses and the bound numbers.
* `Registry.install` : one more analysis.
* `Registry.bind` : one more number.
* `Registry.route?` : where the records of a method go.
-/

namespace TraceRelay

/-- An analysis and the scope that it is installed for. -/
structure Installed (σ : Type) where
  scope : String
  analysis : Analysis σ

/-- What the number of a method stands for. -/
structure Binding where
  /-- The full name of the method. -/
  name : String
  /-- The method, without its scope. -/
  method : String
  /-- The position of the analysis among the installed ones. -/
  position : Nat
deriving DecidableEq, Repr, Inhabited

/-- Where no number is bound, each bound number leads to an analysis. -/
theorem Binding.bound_of_empty {n : Nat} {id : MethodId} {b : Binding}
    (h : (∅ : Std.TreeMap MethodId Binding)[id]? = some b) : b.position < n := by
  cases Std.TreeMap.getElem?_emptyc.symm.trans h

/-- The installed analyses and the bound numbers. A number is bound only to an analysis that is
there, and analyses are never taken away. -/
structure Registry (σ : Type) where
  /-- The analyses in the order in which they were installed. -/
  installed : Array (Installed σ) := #[]
  /-- The position of the analysis for each scope. -/
  positions : Std.TreeMap String Nat := ∅
  /-- What each number stands for. -/
  bindings : Std.TreeMap MethodId Binding := ∅
  /-- Bound numbers lead to installed analyses. -/
  position_lt : ∀ {id : MethodId} {b : Binding}, bindings[id]? = some b →
    b.position < installed.size := by exact Binding.bound_of_empty

namespace Registry

variable {σ : Type}

/-- One more analysis, behind all others. -/
def push (i : Installed σ) (r : Registry σ) : Registry σ :=
  { r with
    installed := r.installed.push i
    position_lt := fun hb => by
      rw [Array.size_push]
      exact Nat.lt_succ_of_lt (r.position_lt hb) }

/-- A number stands for a method of an installed analysis. -/
def assign (id : MethodId) (b : Binding) (r : Registry σ) (h : b.position < r.installed.size) :
    Registry σ :=
  { r with
    bindings := r.bindings.insert id b
    position_lt := fun hb => by
      rw [Std.TreeMap.getElem?_insert] at hb
      split at hb
      · cases hb
        exact h
      · exact r.position_lt hb }

/-- Installs an analysis, unless there is one for the scope. -/
def install (r : Registry σ) (scope : String) (analysis : Analysis σ) :
    Except MethodError (Registry σ) :=
  if r.positions.contains scope then .error (.duplicateScope scope)
  else .ok ({ r with positions := r.positions.insert scope r.installed.size }.push
    ⟨scope, analysis⟩)

/-- What a number stands for. -/
def binding? (r : Registry σ) (id : MethodId) : Option Binding := r.bindings[id]?

/-- Binds a number to the method of a name. A number that is bound already stays bound to the same
name. No scope leads to a position without an analysis. -/
def bind (r : Registry σ) (id : MethodId) (name : String) : Except MethodError (Registry σ) :=
  if id = 0 then .error .reservedId
  else
    match r.binding? id with
    | some existing =>
      if existing.name = name then .ok r else .error (.conflict id existing.name name)
    | none => do
      let parts ← MethodName.ofText name
      match r.positions[parts.scope]? with
      | none => .error (.unknownAnalysis name)
      | some position =>
        if h : position < r.installed.size then
          if r.installed[position].analysis.accepts parts.method then
            .ok (r.assign id ⟨name, parts.method, position⟩ h)
          else .error (.unsupported name)
        else .error (.unknownAnalysis name)

/-- What a number stands for, and the analysis that it leads to. -/
def route? (r : Registry σ) (id : MethodId) : Option (Binding × Analysis σ) :=
  match h : r.bindings[id]? with
  | none => none
  | some b =>
    have := r.position_lt h
    some (b, r.installed[b.position].analysis)

/-- The analyses in the order in which they were installed. -/
def analyses (r : Registry σ) : List (Analysis σ) := r.installed.toList.map (·.analysis)

/-- The scopes in the order in which they were installed. -/
def scopes (r : Registry σ) : List String := r.installed.toList.map (·.scope)

end Registry

end TraceRelay
