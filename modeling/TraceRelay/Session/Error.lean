import TraceRelay.Analysis.Invocation
import TraceRelay.Method.Error
import TraceRelay.WireError

/-!
# Failures of a session

## Main definitions

* `SessionError` : the causes that end a session on the receiving side.
* `SessionError.message` : their wording.
-/

namespace TraceRelay

/-- Why a session was given up. -/
inductive SessionError where
  /-- The bytes are no stream of frames. -/
  | wire (cause : WireError)
  /-- A record carries a number that stands for no method. -/
  | unknownMethod (id : MethodId)
  /-- A number could not be bound. -/
  | registration (id : MethodId) (name : String) (cause : MethodError)
  /-- An analysis refused a record. -/
  | analysis (id : MethodId) (name : String) (cause : HandlerError)
  /-- There is no place for another replica. -/
  | heap (cause : HeapError)
deriving DecidableEq, Repr

namespace SessionError

open Text (quote)

/-- The wording of a cause. -/
def message : SessionError → String
  | wire cause => s!"protocol error: {cause.message}"
  | unknownMethod id => s!"record for unregistered {id.text}"
  | registration id name cause => s!"cannot register {id.text} as {quote name}: {cause.message}"
  | analysis id name cause => s!"analysis failed in {quote name} ({id.text}): {cause.message}"
  | heap cause => s!"shadow heap error: {cause.message}"

end SessionError

end TraceRelay
