import TraceRelay.Record.Basic
import TraceRelay.Text.Quoted

/-!
# Refused method names

Why a method could not be given a number, or a number not be bound to a method.

## Main definitions

* `MethodError` : the causes.
* `MethodError.message` : their wording.
-/

namespace TraceRelay

/-- Why a method could not be announced or bound. -/
inductive MethodError where
  /-- All numbers are given out. -/
  | tooMany
  /-- The number zero stands for no method. -/
  | reservedId
  /-- The number already stands for another method. -/
  | conflict (id : MethodId) (existing requested : String)
  /-- The name has no scope or no method. -/
  | malformedName (name : String)
  /-- No analysis is installed for the scope of the name. -/
  | unknownAnalysis (name : String)
  /-- The analysis for the scope does not take the method. -/
  | unsupported (name : String)
  /-- There is an analysis for the scope already. -/
  | duplicateScope (scope : String)
deriving DecidableEq, Repr

namespace MethodError

open Text (quote)

/-- The wording of a cause. -/
def message : MethodError → String
  | tooMany => "method id space exhausted"
  | reservedId => "method id 0 is reserved"
  | conflict id existing requested =>
    s!"{id.text} is bound to {quote existing}, cannot rebind to {quote requested}"
  | malformedName name => s!"malformed method name {quote name}"
  | unknownAnalysis name => s!"no analysis installed for {quote name}"
  | unsupported name => s!"analysis does not handle {quote name}"
  | duplicateScope scope => s!"an analysis is already installed under {quote scope}"

end MethodError

end TraceRelay
