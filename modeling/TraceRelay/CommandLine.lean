import TraceRelay.Settings.Server
import TraceRelay.Text.Numeral

/-!
# The command line of the server

Each option takes a value, given behind an equals sign or as the next argument, and each has a
variable of the environment that stands in for it. No option may be given twice.

## Main definitions

* `ServerOption` : the options.
* `CommandLine` : the values of all options.
* `CommandLine.ofArgs` : the values that arguments and environment give.
* `CommandLine.usage` : the help text.
-/

namespace TraceRelay

/-- The options of the server. -/
inductive ServerOption where
  | listen
  | maxFrame
  | readChunk
  | maxTombstones
  | analysis
  | sessions
  | log
deriving DecidableEq, Repr

namespace ServerOption

/-- All options. -/
def all : List ServerOption :=
  [listen, maxFrame, readChunk, maxTombstones, analysis, sessions, log]

/-- An option as it is written, without the dashes. -/
def name : ServerOption → String
  | listen => "listen"
  | maxFrame => "max-frame"
  | readChunk => "read-chunk"
  | maxTombstones => "max-tombstones"
  | analysis => "analysis"
  | sessions => "sessions"
  | log => "log"

/-- The variable of the environment that stands in for an option. -/
def variableName : ServerOption → String
  | listen => "SHADOWD_LISTEN"
  | maxFrame => "SHADOWD_MAX_FRAME"
  | readChunk => "SHADOWD_READ_CHUNK"
  | maxTombstones => "SHADOWD_MAX_TOMBSTONES"
  | analysis => "SHADOWD_ANALYSIS"
  | sessions => "SHADOWD_SESSIONS"
  | log => "SHADOWD_LOG"

/-- Whether the value of an option is a number. -/
def isNumeric : ServerOption → Bool
  | maxFrame | readChunk | maxTombstones | sessions => true
  | listen | analysis | log => false

/-- The option of a name. Names are not abbreviated. -/
def ofName? (name : String) : Option ServerOption := all.find? (·.name == name)

/-- The number that a value is. -/
def number? (value : String) : Option Nat := Text.Numeral.read? (UInt64.size - 1) value.toList

/-- Whether an option can have a value. -/
def admits (o : ServerOption) (value : String) : Bool := !o.isNumeric || (number? value).isSome

end ServerOption

/-- Why a command line was refused, or not carried out. -/
inductive UsageError where
  /-- An argument is no option and no value of one. -/
  | unknownArgument
  /-- An option has no value. -/
  | missingValue
  /-- The value of an option is not a number that fits. -/
  | invalidValue
  /-- An option was given twice. -/
  | repeated
  /-- Help has a value. -/
  | surplusValue
  /-- Help was asked for. -/
  | help
deriving DecidableEq, Repr

/-- The wording of a cause. -/
def UsageError.message : UsageError → String
  | unknownArgument => "an argument is no option"
  | missingValue => "an option has no value"
  | invalidValue => "the value of an option is not a number that fits"
  | repeated => "an option was given twice"
  | surplusValue => "help takes no value"
  | help => "help was asked for"

/-- The values of all options. -/
structure CommandLine where
  listen : String := "127.0.0.1:11218"
  maxFrame : Option Nat := none
  readChunk : Option Nat := none
  maxTombstones : Option Nat := none
  /-- The scope of the analysis that counts. -/
  analysis : String := "analysis.Remote"
  /-- How many sessions are served, or zero for no limit. -/
  sessions : Nat := 0
  log : Option String := none
deriving DecidableEq, Repr, Inhabited

namespace CommandLine

/-- The arguments that were read so far. -/
structure Reading where
  /-- The options that have their values. -/
  given : List (ServerOption × String) := []
  /-- The last option, while its value can still come or has not been looked at. -/
  pending : Option (ServerOption × Option String) := none

/-- Gives an option its value. -/
def accept (o : ServerOption) (value : String) (r : Reading) : Except UsageError Reading :=
  if r.given.any (·.1 = o) then .error .repeated
  else if o.admits value then .ok { given := (o, value) :: r.given }
  else .error .invalidValue

/-- Looks at the value of the last option. This happens when the next option comes, or the end. -/
def settle (r : Reading) : Except UsageError Reading :=
  match r.pending with
  | none => .ok r
  | some (_, none) => .error .missingValue
  | some (o, some value) => accept o value r

/-- Reads an argument that starts with two dashes. An unknown option is refused before the value of
the last one is looked at. -/
def readLong (text : List Char) (r : Reading) : Except UsageError Reading := do
  let name := String.ofList (text.takeWhile (· ≠ '='))
  let value := match text.dropWhile (· ≠ '=') with
    | [] => none
    | _ :: value => some (String.ofList value)
  match ServerOption.ofName? name with
  | some o =>
    let r ← settle r
    match value with
    | some value => accept o value r
    | none => return { r with pending := some (o, none) }
  | none =>
    if name = "help" then
      if value.isSome then throw .surplusValue
      let _ ← settle r
      throw .help
    throw .unknownArgument

/-- Reads an argument that starts with one dash. -/
def readShort (letter : Char) (r : Reading) : Except UsageError Reading := do
  if letter = 'h' then
    let _ ← settle r
    throw .help
  throw .unknownArgument

/-- Reads an argument that is no option. It has to be the value of the last one. -/
def readValue (text : String) (r : Reading) : Except UsageError Reading :=
  match r.pending with
  | some (o, none) => .ok { r with pending := some (o, some text) }
  | _ => .error .unknownArgument

/-- Reads all arguments. Nothing may follow two dashes that stand alone. -/
def readArgs : List String → Reading → Except UsageError Reading
  | [], r => settle r
  | arg :: args, r =>
    match arg.toList with
    | ['-', '-'] => if args.isEmpty then settle r else .error .unknownArgument
    | '-' :: '-' :: text => readLong text r >>= readArgs args
    | '-' :: letter :: _ => readShort letter r >>= readArgs args
    | _ => readValue arg r >>= readArgs args

/-- The value of each option that has one. The environment stands in for an option that was not
given, and its variable is not looked at otherwise. -/
def withEnvironment (env : String → Option String) (r : Reading) :
    List ServerOption → Except UsageError (List (ServerOption × String))
  | [] => .ok r.given
  | o :: os => do
    let rest ← withEnvironment env r os
    if r.given.any (·.1 = o) then return rest
    match env o.variableName with
    | none => return rest
    | some value => if o.admits value then return (o, value) :: rest else throw .invalidValue

/-- The values that arguments and environment give. -/
def ofArgs (args : List String) (env : String → Option String) :
    Except UsageError CommandLine := do
  let r ← readArgs args {}
  let values ← withEnvironment env r ServerOption.all
  let text? := fun o => (values.find? (·.1 = o)).map (·.2)
  let number? := fun o => text? o >>= ServerOption.number?
  let usual : CommandLine := {}
  return {
    listen := (text? .listen).getD usual.listen
    maxFrame := number? .maxFrame
    readChunk := number? .readChunk
    maxTombstones := number? .maxTombstones
    analysis := (text? .analysis).getD usual.analysis
    sessions := (number? .sessions).getD usual.sessions
    log := text? .log }

/-- The options with their variables, one on a line. -/
def usage : String :=
  let line := fun (o : ServerOption) => s!"  --{o.name} VALUE, or the variable {o.variableName}\n"
  "options:\n" ++ String.join (ServerOption.all.map line)

/-- The settings of the server. -/
def settings (c : CommandLine) : ServerSettings :=
  let usual : ServerSettings := {}
  { listen := c.listen
    maxFrame := c.maxFrame.getD usual.maxFrame
    readChunk := c.readChunk.getD usual.readChunk
    maxTombstones := c.maxTombstones.getD usual.maxTombstones }

end CommandLine

end TraceRelay
