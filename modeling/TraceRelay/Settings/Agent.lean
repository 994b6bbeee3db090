import TraceRelay.Settings.Error
import TraceRelay.Text.Blank
import TraceRelay.Text.Numeral
import TraceRelay.Text.Split

/-!
# Options of the agent

The observed process is told in one text where its server is: a host, and after the last colon a
port. Either may be missing.

## Main definitions

* `AgentOptions` : a host and a port.
* `AgentOptions.ofText` : the options that a text gives.
* `AgentOptions.address` : the options as an address.
-/

namespace TraceRelay

/-- Where the server is. -/
structure AgentOptions where
  host : String := "localhost"
  port : UInt16 := 11218
deriving DecidableEq, Repr, Inhabited

namespace AgentOptions

/-- The given host, or the usual one if it is empty. -/
def hostOr (host : List Char) : String :=
  if host.isEmpty then ({} : AgentOptions).host else String.ofList host

/-- The options that a text gives. Blanks around the whole text do not count; blanks inside it
do. -/
def ofText (text : String) : Except SettingsError AgentOptions :=
  let cs := Text.trimBlanks text.toList
  match Text.splitLast ':' cs with
  | none => .ok { host := hostOr cs }
  | some (host, port) =>
    match Text.Numeral.read? 65535 port with
    | none => .error (.invalidPort (String.ofList port))
    | some n => .ok { host := hostOr host, port := .ofNat n }

/-- The options as an address to connect to. -/
def address (o : AgentOptions) : String := s!"{o.host}:{o.port.toNat}"

end AgentOptions

end TraceRelay
