import TraceRelay.Proofs.Client.Effects
import TraceRelay.Proofs.Client.Jobs

/-!
# Threads that interrupt each other

Several threads make calls at once. At each moment one of them does its next job, or the sender
runs; a thread that wants the frees while another one keeps them locked has to wait. What is written
down beside the client is when records were accepted and when objects were reported as freed, so
that it can be said which of them a frame carries.

## Main definitions

* `Accepted`, `Reported`, `Departure` : what is written down.
* `Machine` : the client, what each thread has still to do, and what was written down.
* `Machine.move` : what happens at a moment.
* `Shift` : what a job can do to the streams and to what is written down of them.
* `Faithful` : what is written down of the streams is what they hold.

## Main results

* `Faithful.shift` : what is written down of the streams stays right.
-/

namespace TraceRelay

/-- A record that was accepted, and when. -/
structure Accepted where
  record : Record
  moment : Nat
deriving DecidableEq

/-- A freed token, and when the call was made that reported it. -/
structure Reported where
  token : Token
  moment : Nat
deriving DecidableEq

/-- What a frame carries. -/
inductive Load where
  | records (ref : StreamRef) (entries : List Accepted)
  /-- Freed tokens, for which streams were looked up from the time `since` on. When they left, the
  streams `leaving` were no thread's any more but had not ended. -/
  | frees (occasion : Occasion) (since : Nat) (leaving : List StreamRef) (tokens : List Reported)
  | told (m : Message)
deriving DecidableEq

/-- The message that a frame is of. -/
def Load.message : Load → Message
  | .records ref entries => .analyze ref.ordering (entries.map (·.record))
  | .frees _ _ _ tokens => .objectFree (tokens.map (·.token))
  | .told m => m

/-- A frame that went to the outbox. -/
structure Departure where
  frame : Bytes
  load : Load
deriving DecidableEq

/-- The streams that were taken from their threads but have not ended yet. -/
def Client.leaving (c : Client) : List StreamRef :=
  ((List.range c.own.size).map .own).filter fun ref =>
    !(c.stream ref).closed && !(c.ownRefs.any fun entry => entry.2 == ref)

/-- Threads that share a client. -/
structure Machine where
  client : Client
  /-- What each thread has still to do. -/
  jobs : ThreadId → List Job := fun _ => []
  /-- The thread that keeps the frees locked. -/
  holder : Option ThreadId := none
  /-- How many moments have passed. -/
  clock : Nat := 0
  /-- The records that each stream holds back. -/
  held : StreamRef → List Accepted := fun _ => []
  /-- The freed tokens that are held back. -/
  pending : List Reported := []
  /-- What has gone to the outbox, first to last. -/
  log : List Departure := []

/-- What happens at a moment. -/
inductive Move where
  /-- A thread that has nothing to do makes a call. -/
  | call (thread : ThreadId) (request : Request)
  /-- A thread does its next job. -/
  | go (thread : ThreadId)
  /-- The sender runs until it has nothing left to do, or as long as the transport answers. -/
  | sender (deliver : Nat → Delivery)
  /-- A thread that has nothing to do is gone. -/
  | exit (thread : ThreadId)

/-- Whether a job needs the frees for itself. -/
def Job.locks : Job → Bool
  | .free .. | .sealFrees .. => true
  | _ => false

namespace Machine

/-- A record that was taken just now, if it was. -/
def taken (m : Machine) (r : Record) (ok : Bool) : List Accepted :=
  if ok then [⟨r, m.clock⟩] else []

/-- The stream that a job works on, and the records that it finds or puts there. -/
def page? (m : Machine) (ok : Bool) : Job → Option (StreamRef × List Accepted)
  | .append ref _ r => some (ref, m.held ref ++ m.taken r ok)
  | .visit _ ref | .seal ref | .close ref => some (ref, m.held ref)
  | _ => none

/-- What the frame carries that a job sends, if it sends one. -/
def load (m : Machine) (ok : Bool) (job : Job) : Load :=
  match m.page? ok job, job with
  | some (ref, entries), _ => .records ref entries
  | none, .sealFrees occasion since => .frees occasion since m.client.leaving m.pending
  | none, .register name => .told (.registerMethod (.ofNat (m.client.methods.count + 1)) name)
  | none, .tellEnd ref => .told (.threadEnd (m.client.stream ref).ordering)
  | none, .post message => .told message
  | none, _ => .told .close

/-- Writes down what a job did that left the client as it is given. -/
def noted (m : Machine) (job : Job) (ok : Bool) (c : Client) : Machine :=
  let frames := c.outbox.waiting.toList.drop m.client.outbox.waiting.toList.length
  { m with
    client := c
    held := match m.page? ok job with
      | none => m.held
      | some (ref, entries) =>
        Function.update m.held ref (if (c.stream ref).batch.isNone then [] else entries)
    pending := match job with
      | .free t called => if ok then m.pending ++ [⟨t, called⟩] else m.pending
      | .sealFrees .. => []
      | _ => m.pending
    log := m.log ++ frames.map fun frame => ⟨frame, m.load ok job⟩ }

/-- The frees are kept locked while all streams are sent because of them, and are free again
afterwards. -/
def holderAfter (m : Machine) (thread : ThreadId) (more : List Job) : Job → Option ThreadId
  | .free .. => if more.isEmpty then none else some thread
  | .sealFrees .. => none
  | _ => m.holder

/-- A thread does its next job, unless it has to wait. -/
def go (parts : Parts) (thread : ThreadId) (m : Machine) : Machine :=
  match m.jobs thread with
  | [] => m
  | job :: rest =>
    if job.locks && m.holder.any (· != thread) then m
    else
      match job.perform parts thread m.clock m.client with
      | .ok more c =>
        { m.noted job true c with
          jobs := Function.update m.jobs thread (more ++ rest)
          holder := m.holderAfter thread more job }
      | .error _ c =>
        -- The call ends, and what it kept locked is free again.
        { m.noted job false c with
          jobs := Function.update m.jobs thread (rest.filter Job.isAlways)
          holder := if m.holder = some thread then none else m.holder }

/-- What happens at a moment. -/
def move (parts : Parts) (m : Machine) (move : Move) : Machine :=
  let next := match move with
    | .call thread request =>
      if (m.jobs thread).isEmpty then
        { m with jobs := Function.update m.jobs thread (request.jobs thread m.clock) }
      else m
    | .go thread => m.go parts thread
    | .sender deliver => { m with client := (m.client.runSender deliver).2 }
    | .exit thread =>
      if (m.jobs thread).isEmpty then { m with client := m.client.threadGone thread } else m
  { next with clock := m.clock + 1 }

/-- A session before its first call. -/
def start (settings : ClientSettings) : Machine := { client := { settings } }

/-- What happens one moment after the other. -/
def play (parts : Parts) (m : Machine) (moves : List Move) : Machine := moves.foldl (move parts) m

end Machine

/-! ### What happens to streams -/

/-- What can happen to the streams, and to what is written down of them. -/
inductive Shift (now : Nat) (c : Client) (held : StreamRef → List Accepted) :
    Client → (StreamRef → List Accepted) → Prop
  | same {c' : Client} (hc : c.SameStreams c') : Shift now c held c' held
  /-- A stream has other records, and may have ended. -/
  | set {c' : Client} {ref : StreamRef} {s : RecordStream} {entries : List Accepted}
    (hc : (c.setStream ref s).SameStreams c') (href : c.Has ref)
    (hordering : s.ordering = (c.stream ref).ordering)
    (hholds : s.Holds (entries.map (·.record)))
    (hentries : ∀ e ∈ entries, e ∈ held ref ∨ e.moment = now)
    (hclosed : (c.stream ref).closed = true → s.closed = true)
    (hended : s.closed = true → entries = []) :
    Shift now c held c' (Function.update held ref entries)
  /-- A thread gets a stream. -/
  | obtain {c' : Client} (thread : ThreadId) (hnone : c.streamOf[thread]? = none)
    (hc : Client.SameStreams
      { c with
        own := c.own.push { ordering := .ofNat (Message.sharedOrderings + c.own.size) }
        streamOf := c.streamOf.insert thread c.own.size } c') :
    Shift now c held c' held
  /-- A thread loses its stream. -/
  | detach {c' : Client} (thread : ThreadId)
    (hc : Client.SameStreams { c with streamOf := c.streamOf.erase thread } c') :
    Shift now c held c' held

/-- What is written down of the streams is what they hold. -/
structure Faithful (now : Nat) (c : Client) (held : StreamRef → List Accepted) : Prop where
  placed : c.Placed
  ordering : ∀ ref, c.Has ref → (c.stream ref).ordering = ref.ordering
  holds : ∀ ref, (c.stream ref).Holds ((held ref).map (·.record))
  ended : ∀ ref, (c.stream ref).closed = true → held ref = []
  earlier : ∀ ref, ∀ e ∈ held ref, e.moment < now

/-- What does not touch the streams may follow. -/
theorem Shift.same_after {now : Nat} {c c' c'' : Client} {held held' : StreamRef → List Accepted}
    (h : Shift now c held c' held') (hc : c'.SameStreams c'') : Shift now c held c'' held' := by
  cases h with
  | same h => exact .same (h.trans hc)
  | set h href hordering hholds hentries hclosed hended =>
    exact .set (h.trans hc) href hordering hholds hentries hclosed hended
  | obtain thread hnone h => exact .obtain thread hnone (h.trans hc)
  | detach thread h => exact .detach thread (h.trans hc)

namespace Faithful

variable {now : Nat} {c c' : Client} {held held' : StreamRef → List Accepted}

theorem later (h : Faithful now c held) : Faithful (now + 1) c held :=
  { h with earlier := fun ref e he => Nat.lt_succ_of_lt (h.earlier ref e he) }

theorem same (h : Faithful now c held) (hc : c.SameStreams c') : Faithful now c' held where
  placed := hc.placed h.placed
  ordering ref href := by
    rw [hc.stream]
    exact h.ordering ref ((hc.has ref).1 href)
  holds ref := by
    rw [hc.stream]
    exact h.holds ref
  ended ref := by
    rw [hc.stream]
    exact h.ended ref
  earlier := h.earlier

theorem set (h : Faithful now c held) {ref : StreamRef} {s : RecordStream}
    {entries : List Accepted} (href : c.Has ref) (hordering : s.ordering = (c.stream ref).ordering)
    (hholds : s.Holds (entries.map (·.record)))
    (hentries : ∀ e ∈ entries, e ∈ held ref ∨ e.moment = now)
    (hended : s.closed = true → entries = []) :
    Faithful (now + 1) (c.setStream ref s) (Function.update held ref entries) := by
  have hstream := Client.stream_setStream_of_has h.placed.size_shared href s
  refine ⟨h.placed.setStream ref s, ?_, fun other => ?_, fun other => ?_, fun other e he => ?_⟩
  · exact Client.forall_setStream (P := fun other t => t.ordering = other.ordering)
      h.placed.size_shared href h.ordering (hordering.trans (h.ordering ref href))
  · rw [hstream, Function.update_apply]
    split
    · exact hholds
    · exact h.holds other
  · rw [hstream, Function.update_apply]
    split
    · exact hended
    · exact h.ended other
  · rw [Function.update_apply] at he
    split at he
    · rcases hentries e he with hold | rfl
      · exact Nat.lt_succ_of_lt (h.earlier ref e hold)
      · exact Nat.lt_succ_self _
    · exact Nat.lt_succ_of_lt (h.earlier other e he)

/-- A stream that is not there holds nothing. -/
theorem held_of_not_has (h : Faithful now c held) : held (.own c.own.size) = [] := by
  have hholds := h.holds (.own c.own.size)
  rw [Client.stream_of_not_has c.not_has_size] at hholds
  exact List.map_eq_nil_iff.1 hholds

/-- A thread gets a stream. -/
theorem obtain (h : Faithful now c held) (thread : ThreadId) : Faithful now
    { c with
      own := c.own.push { ordering := .ofNat (Message.sharedOrderings + c.own.size) }
      streamOf := c.streamOf.insert thread c.own.size } held := by
  have hstream (ref : StreamRef) := Client.stream_push c
    { ordering := .ofNat (Message.sharedOrderings + c.own.size) } ref
  refine ⟨h.placed.obtain thread _, ?_, fun ref => ?_, fun ref hclosed => ?_, h.earlier⟩
  · exact Client.forall_push (P := fun ref t => t.ordering = ref.ordering) h.ordering rfl
  · refine Eq.subst (motive := fun s => RecordStream.Holds s _) (hstream ref).symm ?_
    by_cases hnew : ref = .own c.own.size
    · rw [if_pos hnew, hnew, h.held_of_not_has]
      rfl
    · rw [if_neg hnew]
      exact h.holds ref
  · by_cases hnew : ref = .own c.own.size
    · rw [hnew]
      exact h.held_of_not_has
    · have heq := (hstream ref).trans (if_neg hnew)
      exact h.ended ref ((congrArg RecordStream.closed heq).symm.trans hclosed)

/-- **What is written down stays right.** -/
theorem shift (h : Faithful now c held) (hshift : Shift now c held c' held') :
    Faithful (now + 1) c' held' := by
  cases hshift with
  | same hc => exact (h.same hc).later
  | set hc href hordering hholds hentries hclosed hended =>
    exact (h.set href hordering hholds hentries hended).same hc
  | obtain thread hnone hc => exact ((h.obtain thread).same hc).later
  | detach thread hc =>
    have hdetach : Faithful now { c with streamOf := c.streamOf.erase thread } held :=
      { h with placed := h.placed.detach thread }
    exact (hdetach.same hc).later

end Faithful

end TraceRelay
