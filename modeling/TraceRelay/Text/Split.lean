/-!
# Splitting at the last separator

## Main definitions

* `splitLast` : what stands before and after the last separator.

## Main results

* `splitLast_eq_some_iff` : the second part is the longest end without a separator.
* `splitLast_eq_none_iff` : only a text without a separator is not split.
-/

namespace TraceRelay.Text

/-- What stands before and after the last `sep`, if there is one. -/
def splitLast (sep : Char) (cs : List Char) : Option (List Char × List Char) :=
  match cs.reverse.dropWhile (· ≠ sep) with
  | [] => none
  | _ :: front => some (front.reverse, (cs.reverse.takeWhile (· ≠ sep)).reverse)

private theorem span_append_sep {sep : Char} {xs : List Char} (ys : List Char)
    (h : sep ∉ xs) :
    (xs ++ sep :: ys).dropWhile (· ≠ sep) = sep :: ys ∧
      (xs ++ sep :: ys).takeWhile (· ≠ sep) = xs := by
  induction xs with
  | nil => simp
  | cons x xs ih =>
    obtain ⟨hx, hxs⟩ : ¬sep = x ∧ sep ∉ xs := by simpa [not_or] using h
    have hne : x ≠ sep := fun e => hx e.symm
    simpa [hne] using ih hxs

private theorem sep_not_mem_takeWhile (sep : Char) (cs : List Char) :
    sep ∉ cs.takeWhile (· ≠ sep) := by
  intro hmem
  have hall := List.all_takeWhile (p := (· ≠ sep)) (l := cs)
  rw [List.all_eq_true] at hall
  simpa using hall sep hmem

theorem splitLast_append {sep : Char} {a b : List Char} (h : sep ∉ b) :
    splitLast sep (a ++ sep :: b) = some (a, b) := by
  have hb : sep ∉ b.reverse := by simpa using h
  have hspan := span_append_sep a.reverse hb
  have hrev : (a ++ sep :: b).reverse = b.reverse ++ sep :: a.reverse := by simp
  unfold splitLast
  rw [hrev, hspan.1, hspan.2]
  simp

theorem splitLast_eq_some_iff {sep : Char} {cs a b : List Char} :
    splitLast sep cs = some (a, b) ↔ cs = a ++ sep :: b ∧ sep ∉ b := by
  constructor
  · intro h
    unfold splitLast at h
    split at h
    · cases h
    · rename_i x front hdrop
      cases h
      have hx : x = sep := by
        have hne : cs.reverse.dropWhile (· ≠ sep) ≠ [] := by rw [hdrop]; exact List.cons_ne_nil _ _
        have hhead := List.head_dropWhile_not (· ≠ sep) hne
        simp only [hdrop, List.head_cons] at hhead
        simpa using hhead
      have hsplit := List.takeWhile_append_dropWhile (p := (· ≠ sep)) (l := cs.reverse)
      rw [hdrop, hx] at hsplit
      constructor
      · simpa using (congrArg List.reverse hsplit).symm
      · simpa using sep_not_mem_takeWhile sep cs.reverse
  · rintro ⟨rfl, h⟩
    exact splitLast_append h

theorem splitLast_eq_none_iff {sep : Char} {cs : List Char} :
    splitLast sep cs = none ↔ sep ∉ cs := by
  constructor
  · intro h hmem
    unfold splitLast at h
    split at h
    · rename_i hdrop
      have hsplit := List.takeWhile_append_dropWhile (p := (· ≠ sep)) (l := cs.reverse)
      rw [hdrop, List.append_nil] at hsplit
      exact sep_not_mem_takeWhile sep cs.reverse (by rw [hsplit]; simpa using hmem)
    · cases h
  · intro h
    cases hs : splitLast sep cs with
    | none => rfl
    | some ab =>
      have := (splitLast_eq_some_iff (a := ab.1) (b := ab.2)).1 hs
      exact absurd (by rw [this.1]; simp) h

end TraceRelay.Text
