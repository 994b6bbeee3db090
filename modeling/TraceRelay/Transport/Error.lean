/-!
# Failures of a transport

## Main definitions

* `TransportError` : the causes.
* `TransportError.message` : their wording.
* `IoKind`, `TransportError.ofIo` : failures that the system reports.
-/

namespace TraceRelay

/-- Why bytes could not be moved. -/
inductive TransportError where
  /-- The peer hung up or can not be reached. -/
  | connectionLost (detail : String)
  /-- This side has closed the transport. -/
  | closed
  /-- Any other failure. -/
  | io (detail : String)
deriving DecidableEq, Repr

/-- The failures of input and output that mean a lost connection, and all others. -/
inductive IoKind where
  | brokenPipe
  | connectionReset
  | connectionAborted
  | unexpectedEnd
  | other
deriving DecidableEq, Repr

namespace TransportError

/-- The wording of a cause. -/
def message : TransportError → String
  | connectionLost detail => s!"connection lost: {detail}"
  | closed => "transport closed by this side"
  | io detail => s!"transport i/o: {detail}"

/-- A failure that the system reports. -/
def ofIo (kind : IoKind) (detail : String) : TransportError :=
  match kind with
  | .brokenPipe | .connectionReset | .connectionAborted | .unexpectedEnd => connectionLost detail
  | .other => io detail

end TransportError

end TraceRelay
