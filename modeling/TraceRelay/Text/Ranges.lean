/-!
# Sets of characters

A property of characters is given by the ranges of code points that have it.

## Main definitions

* `Ranges` : inclusive ranges of code points.
* `Ranges.contains` : whether a character lies in one of them.
-/

namespace TraceRelay.Text

/-- Ranges of code points, both ends included. -/
abbrev Ranges := List (Nat × Nat)

/-- Whether a character lies in one of the ranges. -/
def Ranges.contains (rs : Ranges) (c : Char) : Bool :=
  rs.any fun r => r.1 ≤ c.toNat && c.toNat ≤ r.2

end TraceRelay.Text
