import TraceRelay.Text.Ranges

/-!
# Blanks

Blanks are the characters of the white space property, not only those of ASCII.

## Main definitions

* `isBlank` : whether a character is a blank.
* `trimBlanks` : a text without the blanks at its ends.

## Main results

* `head?_trimBlanks` : what is left starts with no blank.
* `trimBlanks_eq_self` : nothing is taken of a text without blanks at its ends.
-/

namespace TraceRelay.Text

/-- The code points of white space. -/
def blanks : Ranges := [
    (0x9, 0xD), (0x20, 0x20), (0x85, 0x85), (0xA0, 0xA0), (0x1680, 0x1680), (0x2000, 0x200A),
    (0x2028, 0x2029), (0x202F, 0x202F), (0x205F, 0x205F), (0x3000, 0x3000)]

/-- Whether a character is a blank. -/
def isBlank (c : Char) : Bool := blanks.contains c

/-- The text without the blanks at its ends. -/
def trimBlanks (cs : List Char) : List Char :=
  ((cs.dropWhile isBlank).reverse.dropWhile isBlank).reverse

theorem isBlank_of_isDigit {c : Char} (h : c.isDigit = true) : isBlank c = false := by
  have hrange : 48 ≤ c.toNat ∧ c.toNat ≤ 57 := Char.isDigit_iff_toNat.1 h
  simp only [isBlank, Ranges.contains, blanks, List.any_cons, List.any_nil]
  simp
  omega

private theorem dropWhile_eq_self {cs : List Char} (h : ∀ c ∈ cs.head?, isBlank c = false) :
    cs.dropWhile isBlank = cs := by
  cases cs with
  | nil => rfl
  | cons c cs => rw [List.dropWhile_cons_of_neg (by simp [h c rfl])]

theorem trimBlanks_eq_self {cs : List Char} (hfirst : ∀ c ∈ cs.head?, isBlank c = false)
    (hlast : ∀ c ∈ cs.getLast?, isBlank c = false) : trimBlanks cs = cs := by
  rw [trimBlanks, dropWhile_eq_self hfirst, dropWhile_eq_self, List.reverse_reverse]
  rwa [List.head?_reverse]

theorem head?_trimBlanks {cs : List Char} {c : Char} (h : c ∈ (trimBlanks cs).head?) :
    isBlank c = false := by
  -- What is left at the end is a front of what was left at the start.
  have hfront : (cs.dropWhile isBlank).head? = some c := by
    have hsplit := List.takeWhile_append_dropWhile (p := isBlank)
      (l := (cs.dropWhile isBlank).reverse)
    rw [trimBlanks, Option.mem_def] at h
    rw [← List.reverse_reverse (cs.dropWhile isBlank), ← hsplit, List.reverse_append,
      List.head?_append, h, Option.some_or]
  have hnot := List.head?_dropWhile_not isBlank cs
  rwa [hfront] at hnot

end TraceRelay.Text
