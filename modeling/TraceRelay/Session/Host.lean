import TraceRelay.Analysis.Registry
import TraceRelay.Session.Error

/-!
# The host of the analyses

The host ties the installed analyses to the heap that they look at and to the state that they keep,
and calls them: with records, with objects that went, and once at the end.

## Main definitions

* `Host` : analyses, heap and state of a session.
* `Host.deliver` : a record for the analysis of its method.
* `Host.notifyFree`, `Host.notifyExit` : an object that went, and the end.
-/

namespace TraceRelay

/-- The analyses of a session with the heap and the state that they work on. -/
structure Host (σ : Type) where
  registry : Registry σ
  heap : Heap
  /-- The state that the analyses share. -/
  state : σ
  /-- Whether the analyses were told of the end. -/
  exited : Bool := false
  /-- Of how many objects the analyses were told that they went. Like the counts of a session this
  one has no bound, while a counter of 64 bits would start again at `2 ^ 64`. -/
  frees : Nat := 0

namespace Host

variable {σ : Type}

/-- A host without objects. -/
def start (registry : Registry σ) (state : σ) (maxFreed : Nat) : Host σ :=
  { registry, heap := { maxFreed }, state }

/-- Gives a record to the analysis of its method. The method is looked up before the arguments are
resolved. -/
def deliver (ordering : UInt64) (r : Record) : EStateM SessionError (Host σ) Unit :=
  fun ⟨registry, heap, state, exited, frees⟩ =>
    match registry.route? r.method with
    | none => .error (.unknownMethod r.method) ⟨registry, heap, state, exited, frees⟩
    | some (binding, analysis) =>
      match Argument.resolveAll r.args heap with
      | .error e heap => .error (.heap e) ⟨registry, heap, state, exited, frees⟩
      | .ok args heap =>
        let invocation := { method := binding.method, methodId := r.method, ordering, args }
        match analysis.handle heap invocation state with
        | .ok _ state => .ok () ⟨registry, heap, state, exited, frees⟩
        | .error e state =>
          .error (.analysis r.method binding.name e) ⟨registry, heap, state, exited, frees⟩

/-- Attaches data to the object that a token names. -/
def attach (t : Token) (data : ObjectInfo) : EStateM SessionError (Host σ) Unit :=
  fun ⟨registry, heap, state, exited, frees⟩ =>
    match Heap.attach t data heap with
    | .ok _ heap => .ok () ⟨registry, heap, state, exited, frees⟩
    | .error e heap => .error (.heap e) ⟨registry, heap, state, exited, frees⟩

/-- Binds a number to the method of a name. -/
def bind (id : MethodId) (name : String) : EStateM SessionError (Host σ) Unit := fun host =>
  match host.registry.bind id name with
  | .ok registry => .ok () { host with registry }
  | .error e => .error (.registration id name e) host

/-- Ends the object that a token names and tells all analyses, in the order in which they were
installed. Tells whether there was a live object; if not, no analysis is called. -/
def notifyFree (t : Token) : Host σ → Bool × Host σ := fun ⟨registry, heap, state, exited, frees⟩ =>
  match Heap.remove t heap with
  | (none, heap) => (false, ⟨registry, heap, state, exited, frees⟩)
  | (some ref, heap) =>
    let state := registry.analyses.foldl (fun s a => a.onFree heap ref s) state
    (true, ⟨registry, heap, state, exited, frees + 1⟩)

/-- Tells all analyses that the session has ended, in the order in which they were installed. Tells
whether this is the first time; if not, no analysis is called. -/
def notifyExit (host : Host σ) : Bool × Host σ :=
  if host.exited then (false, host)
  else
    let state := host.registry.analyses.foldl (fun s a => a.onExit s) host.state
    (true, { host with state, exited := true })

end Host

end TraceRelay
