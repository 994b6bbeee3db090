import TraceRelay.Method.Error
import TraceRelay.Settings.Error
import TraceRelay.Transport.Error
import TraceRelay.WireError

/-!
# Refused calls

## Main definitions

* `ClientError` : why a call of the sending side was refused.
* `ClientError.message` : the wording.
-/

namespace TraceRelay

/-- Why a call of the sending side was refused. -/
inductive ClientError where
  /-- The session has ended or its transport has failed. -/
  | sessionClosed
  /-- Frames were still waiting when the time was over. -/
  | drainTimeout
  /-- A method could not be announced. -/
  | registration (cause : MethodError)
  /-- A record carries a number that was never given out. -/
  | unknownMethod (id : MethodId)
  /-- Something could not be written. -/
  | wire (cause : WireError)
  /-- The transport failed and thereby ended the session. -/
  | transport (cause : TransportError)
  /-- The settings were refused. -/
  | settings (cause : SettingsError)
  /-- There is nothing that could run the sender. -/
  | noRuntime
  /-- The sender died. -/
  | taskFailed (detail : String)
deriving DecidableEq, Repr

namespace ClientError

/-- The wording of a cause. -/
def message : ClientError → String
  | sessionClosed => "dispatch session closed"
  | drainTimeout => "timed out draining queued frames"
  | registration cause => s!"registration failed: {cause.message}"
  | unknownMethod id => s!"{id.text} was never registered"
  | wire cause => s!"encoding failed: {cause.message}"
  | transport cause => s!"transport failed: {cause.message}"
  | settings cause => s!"invalid configuration: {cause.message}"
  | noRuntime => "no tokio runtime to run the sender task"
  | taskFailed detail => s!"background task failed: {detail}"

end ClientError

end TraceRelay
