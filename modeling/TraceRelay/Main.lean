import TraceRelay.Analysis.Tally
import TraceRelay.CommandLine
import TraceRelay.Session.Basic

/-!
# The server on standard input

Runs one session over the bytes of standard input, with the analysis that counts, and prints what
was counted. A session that is refused is told on standard error.

## Main definitions

* `Summary.lines` : what is printed after a session.
* `main` : the program.
-/

namespace TraceRelay

/-- What is printed after a session. -/
def Summary.lines (s : Summary) (t : Tally) : List String :=
  [s!"events {s.events}", s!"frees {s.frees}", s!"registrations {s.registrations}",
    s!"thread ends {s.threadEnds}", s!"bytes {s.bytes}", s!"closed {s.closedCleanly}",
    s!"totals {t.totals}"]

/-- The most bytes that are asked for at once, whatever the settings say. -/
def largestRead : Nat := 1024 * 1024

/-- The chunks that a stream delivers until it ends. -/
private partial def readChunks (input : IO.FS.Stream) (size : Nat)
    (got : List (Except TransportError Bytes)) : IO (List (Except TransportError Bytes)) := do
  let chunk ← input.read (.ofNat (min size largestRead))
  if chunk.isEmpty then return got.reverse
  readChunks input size (.ok chunk.toList :: got)

/-- Runs a session with the given values of the options. -/
private def serve (c : CommandLine) : IO UInt32 := do
  let settings := c.settings
  match settings.validate, Tally.registry c.analysis with
  | .error e, _ =>
    IO.eprintln s!"invalid server settings: {e.message}"
    return 1
  | _, .error e =>
    IO.eprintln e.message
    return 1
  | .ok _, .ok registry =>
    let arrivals ← readChunks (← IO.getStdin) settings.readChunk []
    let start := Session.start registry ({} : Tally) settings.maxFrame settings.maxTombstones
    match start.run arrivals with
    | (.ok summary, session) =>
      (summary.lines session.host.state).forM IO.println
      return 0
    | (.error e, _) =>
      IO.eprintln s!"session aborted: {e.message}"
      return 1

end TraceRelay

/-- Serves one session, unless the command line asks for help or is refused. -/
def main (args : List String) : IO UInt32 := do
  let environment ← TraceRelay.ServerOption.all.mapM fun o =>
    return (o.variableName, ← IO.getEnv o.variableName)
  match TraceRelay.CommandLine.ofArgs args fun name => (environment.lookup name).join with
  | .ok c => TraceRelay.serve c
  | .error .help =>
    IO.print TraceRelay.CommandLine.usage
    return 0
  | .error e =>
    IO.eprintln e.message
    return 2
