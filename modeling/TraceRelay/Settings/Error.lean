import TraceRelay.Text.Quoted

/-!
# Refused settings

## Main definitions

* `SettingsError` : the causes.
* `SettingsError.message` : their wording.
-/

namespace TraceRelay

/-- Why settings were refused. -/
inductive SettingsError where
  /-- The text is no port number. -/
  | invalidPort (text : String)
  /-- A limit is zero that must not be. -/
  | zeroLimit (name : String)
deriving DecidableEq, Repr

/-- The wording of a cause. -/
def SettingsError.message : SettingsError → String
  | invalidPort text => s!"invalid port {Text.quote text}"
  | zeroLimit name => s!"{name} must be greater than zero"

end TraceRelay
