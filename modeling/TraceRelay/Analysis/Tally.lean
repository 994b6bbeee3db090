import TraceRelay.Analysis.Registry

/-!
# Counting calls

The analysis that comes with the server counts the calls of each method and the objects that went.

## Main definitions

* `Tally` : the numbers so far.
* `Tally.totals` : the numbers of calls as a text.
* `Tally.analysis`, `Tally.registry` : the analysis, and a registry that holds nothing else.
-/

namespace TraceRelay

/-- How often each method was called, and how many objects went. The numbers have no bound. Counters
of 64 bits would show the same until one of them reaches `2 ^ 64`. -/
structure Tally where
  /-- The number of calls of each method that was called. -/
  calls : Std.TreeMap String Nat := ∅
  frees : Nat := 0
deriving Inhabited

namespace Tally

/-- The number of calls of a method. -/
def count (t : Tally) (method : String) : Nat := t.calls[method]?.getD 0

/-- Counts a call. -/
def addCall (t : Tally) (method : String) : Tally :=
  { t with calls := t.calls.insert method (t.count method + 1) }

/-- Counts an object that went. -/
def addFree (t : Tally) : Tally := { t with frees := t.frees + 1 }

/-- The methods that were called, in the order of their names, each with its number of calls. -/
def totals (t : Tally) : String :=
  " & ".intercalate (t.calls.toList.map fun (method, n) => s!"{method} {n}")

/-- The analysis that counts. It takes all methods and never fails. -/
def analysis : Analysis Tally where
  name := "counting"
  handle _ i := modify (·.addCall i.method)
  onFree _ _ t := t.addFree

/-- A registry that holds the analysis that counts and nothing else. -/
def registry (scope : String) : Except MethodError (Registry Tally) :=
  ({} : Registry Tally).install scope analysis

end Tally

end TraceRelay
