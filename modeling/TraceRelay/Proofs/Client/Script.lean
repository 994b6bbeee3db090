import TraceRelay.Client.Calls

/-!
# Scripts of calls

A script is a list of calls that threads make one after the other, in any order, with the sender run
in between. Running it tells which calls succeeded, and which frames were sent until then.

## Main definitions

* `Call` : a call, or a run of the sender.
* `Draft` : a record that is being sent, and the arguments that it was given.
* `Run` : a client, and what happened until now.
* `Run.step`, `Run.play` : one call, and all calls of a script.
* `Run.Completed` : a session from its beginning to its end.
-/

namespace TraceRelay

/-- What happens next in the observed process, or at the sender. -/
inductive Call where
  | register (name : String)
  | dispatch (thread : ThreadId) (id : MethodId) (args : List Value)
  /-- A record is begun. Until it is finished or discarded it goes by the given number. -/
  | begin (draft : Nat) (id : MethodId) (ordering : Option UInt8)
  | send (draft : Nat) (v : Value)
  | finish (thread : ThreadId) (draft : Nat)
  /-- A record that was begun is given up. -/
  | discard (draft : Nat)
  | objectFreed (t : Token)
  | classInfo (info : ClassInfo)
  | stringInfo (subject : Token) (text : String)
  | threadInfo (info : ThreadInfo)
  | flush
  | threadEnd (thread : ThreadId)
  /-- A thread is gone without having ended its stream. -/
  | threadGone (thread : ThreadId)
  /-- The sender runs until it has nothing left to do. -/
  | runSender (deliver : Nat → Delivery)

/-- The message that a call makes known, if it is one of those that only tell something. -/
def Call.tells? : Call → Option Message
  | .classInfo info => some (.classInfo info)
  | .stringInfo subject text => some (.stringInfo subject text)
  | .threadInfo info => some (.threadInfo info)
  | _ => none

/-- A record that is being sent, and the arguments that it was given. -/
structure Draft where
  writer : EventWriter
  method : MethodId
  args : List Value := []

/-- One more argument. -/
def Draft.send (v : Value) (d : Draft) : Draft :=
  { d with writer := d.writer.send v, args := d.args ++ [v] }

/-- The stream that a record goes to if the thread finishes it now. -/
def Client.streamFor (c : Client) (thread : ThreadId) : Option UInt8 → StreamRef
  | some ordering => .shared ordering
  | none => (c.streamOf? thread).getD (.own c.own.size)

/-- A client, and what happened until now. -/
structure Run where
  client : Client
  /-- The records that were begun and neither finished nor discarded. -/
  drafts : Nat → Option Draft := fun _ => none
  /-- The frames that were handed to the transport. -/
  sent : List Bytes := []
  /-- The records that were accepted, each with its stream. -/
  accepted : List (StreamRef × Record) := []
  /-- The freed tokens that were accepted. -/
  freed : List Token := []
  /-- The names that were registered, each with its number. -/
  named : List (String × MethodId) := []
  /-- The faults of the calls that failed. -/
  faults : List ClientError := []

namespace Run

variable {α : Type}

/-- Makes a call, and notes its result if it succeeds. -/
def perform (call : EStateM ClientError Client α) (note : α → Run → Run) (r : Run) : Run :=
  match call r.client with
  | .ok a client => note a { r with client }
  | .error e client => { r with client, faults := r.faults ++ [e] }

def setDraft (n : Nat) (d : Option Draft) (r : Run) : Run :=
  { r with drafts := fun m => if m = n then d else r.drafts m }

/-- Notes a record that was accepted. -/
def accept (ref : StreamRef) (record : Record) (r : Run) : Run :=
  { r with accepted := r.accepted ++ [(ref, record)] }

/-- Makes a message known that is not held back. -/
def tell (m : Message) : Run → Run := perform (Client.tell m) fun _ r => r

/-- One call. -/
def step (r : Run) : Call → Run
  | .register name =>
    r.perform (Client.register name) fun id r => { r with named := r.named ++ [(name, id)] }
  | .dispatch thread id args =>
    r.perform (Client.dispatch thread id args) fun _ =>
      accept (r.client.streamFor thread none) ⟨id, args⟩
  | .begin n id ordering =>
    r.perform (Client.beginEvent id ordering) fun writer =>
      setDraft n (some { writer, method := id })
  | .send n v => r.setDraft n ((r.drafts n).map (·.send v))
  | .finish thread n =>
    match r.drafts n with
    | none => r
    | some d =>
      (r.setDraft n none).perform (Client.finishEvent thread d.writer) fun _ =>
        accept (r.client.streamFor thread d.writer.ordering) ⟨d.method, d.args⟩
  | .discard n => r.setDraft n none
  | .objectFreed t =>
    r.perform (Client.objectFreed t) fun _ r => { r with freed := r.freed ++ [t] }
  | .classInfo info => r.tell (.classInfo info)
  | .stringInfo subject text => r.tell (.stringInfo subject text)
  | .threadInfo info => r.tell (.threadInfo info)
  | .flush => r.perform Client.flush fun _ r => r
  | .threadEnd thread => r.perform (Client.threadEnd thread) fun _ r => r
  | .threadGone thread => { r with client := r.client.threadGone thread }
  | .runSender deliver =>
    { r with
      client := (r.client.runSender deliver).2
      sent := r.sent ++ (r.client.runSender deliver).1 }

theorem step_finish_of_none {r : Run} {n : Nat} (h : r.drafts n = none) (thread : ThreadId) :
    r.step (.finish thread n) = r := by
  simp only [step, h]

theorem step_finish_of_some {r : Run} {n : Nat} {d : Draft} (h : r.drafts n = some d)
    (thread : ThreadId) : r.step (.finish thread n) =
      (r.setDraft n none).perform (Client.finishEvent thread d.writer) fun _ =>
        accept (r.client.streamFor thread d.writer.ordering) ⟨d.method, d.args⟩ := by
  simp only [step, h]

/-- All calls of a script. -/
def play (r : Run) (calls : List Call) : Run := calls.foldl step r

/-- A session from its beginning to its end: it starts under the settings, no call of the script
meets a batch that is too large, and the session is shut down in order. `r` is the run of the
script, and `frames` is all that was handed to the transport. -/
structure Completed (settings : ClientSettings) (calls : List Call) (r : Run)
    (frames : List Bytes) : Prop where
  started : ∃ c, Client.start settings true = .ok c ∧ r = play { client := c } calls
  noneTooLarge : .wire .batchTooLarge ∉ r.faults
  ended : ∃ deliver out c, r.client.shutdown deliver = (.ok (), out, c) ∧ frames = r.sent ++ out

end Run

end TraceRelay
