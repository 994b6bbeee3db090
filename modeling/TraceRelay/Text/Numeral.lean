/-!
# Decimal numerals

## Main definitions

* `Numeral.ofDigits` : the number that decimal digits denote.
* `Numeral.read?` : an unsigned number of limited size.

## Main results

* `Numeral.read?_toDigits` : the digits of a number are read as the number.
-/

namespace TraceRelay.Text.Numeral

/-- The number that decimal digits denote, most significant first. -/
def ofDigits (ds : List Char) : Nat := ds.foldl (fun n d => 10 * n + (d.toNat - '0'.toNat)) 0

/-- Reads at least one ASCII digit, of which any number may be leading zeros, behind at most one
plus sign. Refuses a number above `max`. -/
def read? (max : Nat) (cs : List Char) : Option Nat :=
  let ds := match cs with
    | '+' :: ds => ds
    | ds => ds
  if ds.isEmpty || !ds.all Char.isDigit then none
  else
    let n := ofDigits ds
    if n ≤ max then some n else none

theorem read?_toDigits {max n : Nat} (h : n ≤ max) : read? max (Nat.toDigits 10 n) = some n := by
  have hdigit {d : Char} (hd : d ∈ Nat.toDigits 10 n) : d.isDigit = true :=
    Nat.isDigit_of_mem_toDigits (by decide) (by decide) hd
  have hvalue : ofDigits (Nat.toDigits 10 n) = n := Nat.ofDigitChars_ten_toDigits
  have hall : (Nat.toDigits 10 n).all Char.isDigit = true := List.all_eq_true.2 fun _ => hdigit
  cases hdigits : Nat.toDigits 10 n with
  | nil => exact absurd hdigits Nat.toDigits_ne_nil
  | cons d ds =>
    rw [hdigits] at hdigit hvalue hall
    have hplus : d ≠ '+' := by
      rintro rfl
      exact absurd (hdigit List.mem_cons_self) (by decide)
    simp [read?, hplus, hall, hvalue, h]

end TraceRelay.Text.Numeral
