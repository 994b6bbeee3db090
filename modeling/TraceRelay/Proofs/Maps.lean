import Mathlib.Logic.Basic
import Std.Data.TreeMap.Lemmas

/-!
# Maps

What is found in a map after one of its entries was changed.

## Main results

* `getElem?_insert` : an entry is put in.
* `getElem?_erase` : an entry is taken out.
-/

namespace TraceRelay

variable {κ ν : Type} [Ord κ] [Std.TransOrd κ] [Std.LawfulEqOrd κ] [DecidableEq κ]

/-- Only the key that was put in has a new value. -/
theorem getElem?_insert (m : Std.TreeMap κ ν) (key : κ) (value : ν) (other : κ) :
    (m.insert key value)[other]? = if other = key then some value else m[other]? := by
  rw [Std.TreeMap.getElem?_insert]
  by_cases h : other = key
  · rw [if_pos h, h, if_pos Std.ReflCmp.compare_self]
  · rw [if_neg h, if_neg fun heq => h (Std.LawfulEqCmp.eq_of_compare heq).symm]

/-- Only the key that was taken out has no value any more. -/
theorem getElem?_erase (m : Std.TreeMap κ ν) (key other : κ) :
    (m.erase key)[other]? = if other = key then none else m[other]? := by
  rw [Std.TreeMap.getElem?_erase]
  by_cases h : other = key
  · rw [if_pos h, h, if_pos Std.ReflCmp.compare_self]
  · rw [if_neg h, if_neg fun heq => h (Std.LawfulEqCmp.eq_of_compare heq).symm]

end TraceRelay
