import TraceRelay.Method.Name

/-!
# The parts of a name

A name is split at its last dot, wherever other dots stand. So the parts of a name are the only two
texts that give the name when they are joined by a dot and of which the second holds none. A name
that has no such parts, or of which one part would be empty, is malformed.

## Main results

* `MethodName.ofText_eq_ok_iff` : the names that have parts.
* `MethodName.eq_malformedName_of_ofText` : the one cause for which a name is refused.
* `MethodName.ofText_at_last_dot` : the two together.
-/

namespace TraceRelay.MethodName

/-- A name has the parts that it is joined of by a dot. Neither is empty, and the method holds no
dot. -/
theorem ofText_eq_ok_iff {name : String} {parts : MethodName} :
    ofText name = .ok parts ↔ name = parts.text ∧ parts.scope ≠ "" ∧ parts.method ≠ "" ∧
      '.' ∉ parts.method.toList := by
  unfold ofText
  constructor
  · intro h
    cases hsplit : Text.splitLast '.' name.toList with
    | none => simp [hsplit] at h
    | some found =>
      obtain ⟨scope, method⟩ := found
      simp only [hsplit] at h
      split at h
      · cases h
      next hsome =>
        cases h
        obtain ⟨hname, hdot⟩ := Text.splitLast_eq_some_iff.1 hsplit
        obtain ⟨hscope, hmethod⟩ : scope ≠ [] ∧ method ≠ [] := by simpa using hsome
        refine ⟨String.ext ?_, ?_, ?_, by rwa [String.toList_ofList]⟩
        · simp [text, hname]
        · simpa using hscope
        · simpa using hmethod
  · rintro ⟨rfl, hscope, hmethod, hdot⟩
    have hsplit : Text.splitLast '.' parts.text.toList =
        some (parts.scope.toList, parts.method.toList) :=
      Text.splitLast_eq_some_iff.2 ⟨by simp [text], hdot⟩
    simp [hsplit, hscope, hmethod]

/-- Whatever is wrong with a name, it is refused as malformed. -/
theorem eq_malformedName_of_ofText {name : String} {e : MethodError}
    (h : ofText name = .error e) : e = .malformedName name := by
  unfold ofText at h
  split at h
  next scope method _ =>
    -- There is a dot, so a part is empty.
    split at h
    · cases h
      rfl
    · cases h
  · cases h
    rfl

/-- **A name is split at its last dot.** It has two parts exactly if they give the name when a dot
is put between them, neither of them is empty, and the method holds no dot. A name without such
parts is malformed, and no other name is. -/
theorem ofText_at_last_dot (name : String) :
    (∀ scope method : String, ofText name = .ok ⟨scope, method⟩ ↔
      scope ≠ "" ∧ method ≠ "" ∧ '.' ∉ method.toList ∧ name = scope ++ "." ++ method) ∧
    (ofText name = .error (.malformedName name) ↔
      ¬∃ scope method : String,
        scope ≠ "" ∧ method ≠ "" ∧ '.' ∉ method.toList ∧ name = scope ++ "." ++ method) := by
  have hok (scope method : String) : ofText name = .ok ⟨scope, method⟩ ↔
      scope ≠ "" ∧ method ≠ "" ∧ '.' ∉ method.toList ∧ name = scope ++ "." ++ method := by
    rw [ofText_eq_ok_iff, and_comm, and_assoc, and_assoc]
    rfl
  refine ⟨hok, ?_⟩
  simp only [← hok]
  constructor
  · rintro herror ⟨scope, method, hparts⟩
    cases herror.symm.trans hparts
  · intro hnone
    cases hresult : ofText name with
    | ok parts => exact absurd ⟨parts.scope, parts.method, hresult⟩ hnone
    | error e => rw [eq_malformedName_of_ofText hresult]

example : ofText "a..b.é" = .ok ⟨"a..b", "é"⟩ := by cbv

end TraceRelay.MethodName
