import Std.Data.TreeMap.Basic
import TraceRelay.Method.Error

/-!
# The table of announced methods

The sending side numbers the methods that it knows, from one on and without gaps. A number is given
out only if the method could be announced under it.

## Main definitions

* `MethodTable` : the names that have a number.
* `MethodTable.register` : the number of a name, after announcing a name that is new.
* `MethodTable.contains` : whether a number was given out.
-/

namespace TraceRelay

/-- The names that have a number. -/
structure MethodTable where
  /-- The number of each name. -/
  ids : Std.TreeMap String MethodId := ∅
  /-- How many numbers were given out. -/
  count : Nat := 0

namespace MethodTable

/-- The largest number that can be given out. -/
def maxId : Nat := 65535

/-- The number of a name. -/
def find? (t : MethodTable) (name : String) : Option MethodId := t.ids[name]?

/-- Whether a number was given out. -/
def contains (t : MethodTable) (id : MethodId) : Bool := id != 0 && id.toNat ≤ t.count

/-- Gives a name the next number. -/
def insert (t : MethodTable) (name : String) : MethodTable :=
  ⟨t.ids.insert name (.ofNat (t.count + 1)), t.count + 1⟩

/-- The number of a name, and the table that has it. A new name is announced under the next number
first; if there is none left, or the announcement fails, there is no new table. -/
def register {ε σ : Type} (refuse : MethodError → ε) (announce : MethodId → EStateM ε σ Unit)
    (t : MethodTable) (name : String) : EStateM ε σ (MethodId × MethodTable) := do
  match t.find? name with
  | some id => return (id, t)
  | none =>
    if t.count ≥ maxId then throw (refuse .tooMany)
    let id : MethodId := .ofNat (t.count + 1)
    announce id
    return (id, t.insert name)

end MethodTable

end TraceRelay
