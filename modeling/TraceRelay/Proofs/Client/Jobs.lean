import TraceRelay.Client.Calls
import TraceRelay.Proofs.Client.Effects
import TraceRelay.Proofs.Steps

/-!
# Calls step by step

A call of the sending side takes locks one after the other, and between two of them other threads
can go on. A call is a list of jobs, each of which no other thread can interrupt; doing a job may
show what is left to do. A call that nobody interrupts ends as the client says.

The streams of threads are looked up in parts, each of which is locked for itself.

## Main definitions

* `Request`, `Job` : what a thread asks of the client, and what has to be done for it.
* `Parts` : the parts in which the streams of threads are looked up.
* `Job.perform` : a job is done, and leaves jobs.
* `Job.Does` : what becomes of a client when jobs are done without interruption.

## Main results

* `Request.does_call` : a request that nobody interrupts is the call of the client.
-/

namespace TraceRelay

/-- What a thread asks of the client. -/
inductive Request where
  | register (name : String)
  | begin (id : MethodId)
  /-- A record is finished that was begun before and was given arguments. -/
  | finish (id : MethodId) (ordering : Option UInt8) (args : List Value)
  | dispatch (id : MethodId) (args : List Value)
  | objectFreed (t : Token)
  | classInfo (info : ClassInfo)
  | stringInfo (subject : Token) (text : String)
  | threadInfo (info : ThreadInfo)
  | flush
  | threadEnd
  | shutdown

/-- Why frees are sent. -/
inductive Occasion where
  /-- There are as many of them as fit a frame. -/
  | full
  /-- All that is held back was asked to be sent. -/
  | flush
  /-- The session ends. -/
  | shutdown
deriving DecidableEq

/-- What can be done without interruption. -/
inductive Job where
  /-- The request is refused if the session was closed. It carries the time of the call. -/
  | check (request : Request) (called : Nat)
  | register (name : String)
  /-- A method must have been given its number. -/
  | known (id : MethodId)
  /-- The stream of a record is found. -/
  | finish (w : EventWriter) (r : Record)
  | append (ref : StreamRef) (b : RecordBuilder) (r : Record)
  | post (m : Message)
  /-- A freed token is taken, which was reported at the given time. -/
  | free (t : Token) (called : Nat)
  | beginEnd
  /-- All streams are to be sent, and the frees behind them. -/
  | sealAll (occasion : Occasion)
  /-- The streams of one more part are looked up, `found` being those of the parts before. The
  first part was looked up at the time `since`. -/
  | collect (occasion : Occasion) (part : Nat) (found : List (ThreadId × StreamRef)) (since : Nat)
  | visit (thread : ThreadId) (ref : StreamRef)
  | seal (ref : StreamRef)
  | close (ref : StreamRef)
  | detach (thread : ThreadId)
  | tellEnd (ref : StreamRef)
  | sealFrees (occasion : Occasion) (since : Nat)
  | closeOutbox

/-- A record under way that was given arguments. -/
def EventWriter.given (id : MethodId) (ordering : Option UInt8) (args : List Value) :
    EventWriter :=
  args.foldl (fun w v => w.send v) { record := .start id, ordering }

/-- The end of a session as far as the outbox: all streams end, what they hold goes to the outbox,
and it takes no more frames. -/
def Client.drain : EStateM ClientError Client Unit := fun c =>
  if c.ending then .ok ⟨⟩ c
  else
    match Client.closeAll { c with ending := true, closed := true } with
    | .ok _ c => .ok ⟨⟩ { c with outbox := c.outbox.close }
    | .error e c => .error e { c with outbox := c.outbox.close }

namespace Request

/-- What is left to do for a request that was not refused. -/
def rest (thread : ThreadId) (called : Nat) : Request → List Job
  | .register name => [.register name]
  | .begin id => [.known id]
  | .finish id ordering args => [.finish (.given id ordering args) ⟨id, args⟩]
  | .dispatch id args => [.known id, .finish (.given id none args) ⟨id, args⟩]
  | .objectFreed t => [.free t called]
  | .classInfo info => [.post (.classInfo info)]
  | .stringInfo subject text => [.post (.stringInfo subject text)]
  | .threadInfo info => [.post (.threadInfo info)]
  | .flush => [.sealAll .flush]
  | .threadEnd => [.detach thread]
  | .shutdown => [.beginEnd]

/-- What has to be done for a request. A record that was begun is finished, and the session ends,
even if the session was closed. -/
def jobs (thread : ThreadId) (called : Nat) (request : Request) : List Job :=
  match request with
  | .finish .. | .shutdown => request.rest thread called
  | _ => [.check request called]

/-- The call of the client that a request stands for. -/
def call (thread : ThreadId) : Request → EStateM ClientError Client Unit
  | .register name => do let _ ← Client.register name
  | .begin id => do let _ ← Client.beginEvent id none
  | .finish id ordering args => Client.finishEvent thread (.given id ordering args)
  | .dispatch id args => Client.dispatch thread id args
  | .objectFreed t => Client.objectFreed t
  | .classInfo info => Client.tell (.classInfo info)
  | .stringInfo subject text => Client.tell (.stringInfo subject text)
  | .threadInfo info => Client.tell (.threadInfo info)
  | .flush => Client.flush
  | .threadEnd => Client.threadEnd thread
  | .shutdown => Client.drain

end Request

/-- The parts in which the streams of threads are looked up. -/
structure Parts where
  count : Nat
  of : ThreadId → Fin count

/-- All streams of threads are looked up at once. -/
def Parts.whole : Parts := ⟨1, fun _ => 0⟩

namespace Job

/-- What is to be done with the streams that were found, and with the shared ones. -/
def visits (found : List (ThreadId × StreamRef)) : Occasion → List Job
  | .shutdown => found.map (fun entry => .close entry.2) ++ Client.sharedRefs.map .close
  | _ => found.map (fun entry => .visit entry.1 entry.2) ++ Client.sharedRefs.map .seal

/-- The streams of a part are looked up, and then those of the parts behind it. Last of all the
streams are visited. -/
def lookUp (parts : Parts) (occasion : Occasion) (part : Nat) (found : List (ThreadId × StreamRef))
    (since : Nat) : EStateM ClientError Client (List Job) := do
  let found := found ++ (← get).ownRefs.filter fun entry => (parts.of entry.1).val == part
  if part + 1 < parts.count then return [.collect occasion (part + 1) found since]
  else return visits found occasion ++ [.sealFrees occasion since]

/-- A job is done at a time, on behalf of a thread. Gives the jobs that are left of it. -/
def perform (parts : Parts) (thread : ThreadId) (now : Nat) :
    Job → EStateM ClientError Client (List Job)
  | .check request called => do
    Client.ensureOpen
    return request.rest thread called
  | .register name => do
    let announce := fun id => Client.enqueueMessage (.registerMethod id name)
    let (_, methods) ← (← get).methods.register .registration announce name
    modify ({ · with methods })
    return []
  | .known id => do
    unless (← get).methods.contains id do
      throw (.unknownMethod id)
    return []
  | .finish w r =>
    match w.fault, w.ordering with
    | some e, _ => throw (.wire e)
    | none, none => return [.append (← Client.obtain thread) w.record r]
    | none, some ordering => do
      if let some ref := (← get).streamOf? thread then
        return [.seal ref, .append (.shared ordering) w.record r]
      return [.append (.shared ordering) w.record r]
  | .append ref b _ => do
    Client.appendTo ref b
    return []
  | .post m => do
    Client.enqueueMessage m
    return []
  | .free t _ => do
    Client.onFrees (FreeStream.append t)
    let c ← get
    return if c.frees.isFull c.settings then [.sealAll .full] else []
  | .beginEnd => do
    if (← get).ending then return []
    modify ({ · with ending := true, closed := true })
    return [.sealAll .shutdown, .post .close, .closeOutbox]
  | .sealAll occasion => lookUp parts occasion 0 [] now
  | .collect occasion part found since => lookUp parts occasion part found since
  | .visit thread ref => do
    if ((← get).stream ref).orphaned then return [.detach thread]
    Client.sealStream ref
    return []
  | .seal ref => do
    Client.sealStream ref
    return []
  | .close ref => do
    Client.closeStream ref
    return []
  | .detach thread => do
    let some ref ← Client.detach thread | return []
    return [.close ref, .tellEnd ref]
  | .tellEnd ref => do
    Client.enqueueMessage (.threadEnd ((← get).stream ref).ordering)
    return []
  | .sealFrees occasion _ => do
    if occasion = .shutdown then
      modify fun c => { c with frees := { c.frees with closed := true } }
    Client.sealFrees
    return []
  | .closeOutbox => do
    modify fun c => { c with outbox := c.outbox.close }
    return []

/-- Whether a job is done even if one before it failed. -/
def isAlways : Job → Bool
  | .closeOutbox => true
  | _ => false

/-- What becomes of a client when jobs are done one after the other without interruption. -/
inductive Does (parts : Parts) (thread : ThreadId) :
    List Job → Client → EStateM.Result ClientError Client Unit → Prop
  | nil (c : Client) : Does parts thread [] c (.ok ⟨⟩ c)
  | next {job : Job} {now : Nat} {more jobs : List Job} {c c' : Client}
      {result : EStateM.Result ClientError Client Unit}
      (h : job.perform parts thread now c = .ok more c')
      (hrest : Does parts thread (more ++ jobs) c' result) :
      Does parts thread (job :: jobs) c result
  | fault {job : Job} {now : Nat} {jobs : List Job} {c c' c'' : Client} {e : ClientError}
      (h : job.perform parts thread now c = .error e c')
      (hrest : Does parts thread (jobs.filter isAlways) c' (.ok ⟨⟩ c'')) :
      Does parts thread (job :: jobs) c (.error e c'')

/-! ### Jobs one after the other -/

variable {parts : Parts} {thread : ThreadId}

theorem Does.append {ts us : List Job} {c c' : Client}
    {result : EStateM.Result ClientError Client Unit} (h : Does parts thread ts c (.ok ⟨⟩ c'))
    (h' : Does parts thread us c' result) : Does parts thread (ts ++ us) c result := by
  generalize hr : EStateM.Result.ok PUnit.unit c' = r at h
  induction h with
  | nil c =>
    cases hr
    exact h'
  | next hperform _ ih =>
    rw [List.cons_append]
    refine .next hperform ?_
    rw [← List.append_assoc]
    exact ih hr
  | fault => cases hr

/-- After a fault only the jobs are done that always are. -/
theorem Does.append_fault {ts us : List Job} {c c' c'' : Client} {e : ClientError}
    (h : Does parts thread ts c (.error e c'))
    (h' : Does parts thread (us.filter isAlways) c' (.ok ⟨⟩ c'')) :
    Does parts thread (ts ++ us) c (.error e c'') := by
  generalize hr : EStateM.Result.error e c' = r at h
  induction h with
  | nil c => cases hr
  | next hperform _ ih =>
    rw [List.cons_append]
    refine .next hperform ?_
    rw [← List.append_assoc]
    exact ih hr
  | fault hperform hrest =>
    cases hr
    rw [List.cons_append]
    refine .fault hperform ?_
    rw [List.filter_append]
    exact hrest.append h'

/-- A job, and what it leaves to do. -/
theorem Does.last {job : Job} {now : Nat} {more : List Job} {c c' : Client}
    {result : EStateM.Result ClientError Client Unit}
    (h : job.perform parts thread now c = .ok more c') (h' : Does parts thread more c' result) :
    Does parts thread [job] c result := by
  refine .next h ?_
  rwa [List.append_nil]

/-- A job that leaves nothing to do. -/
theorem Does.lone {job : Job} {n : Nat} {c : Client} {m : EStateM ClientError Client Unit}
    (h : job.perform parts thread n c = (do m; return [] : EStateM _ _ _) c) :
    Does parts thread [job] c (m c) := by
  cases hm : m c with
  | ok a c' => exact .last (h.trans (Step.bind_of_ok hm)) (.nil c')
  | error e c' => exact .fault (h.trans (Step.bind_of_error hm)) (.nil c')

/-- Jobs make up a step of the client. -/
def MakeUp (parts : Parts) (thread : ThreadId) (ts : List Job)
    (m : EStateM ClientError Client Unit) : Prop := ∀ c, Does parts thread ts c (m c)

namespace MakeUp

variable {ts us : List Job} {m n : EStateM ClientError Client Unit}

theorem single {job : Job} (h : job.perform parts thread 0 = (do m; return [])) :
    MakeUp parts thread [job] m :=
  fun c => .lone (congrFun h c)

theorem bind (h : MakeUp parts thread ts m) (h' : MakeUp parts thread us n)
    (hus : us.filter isAlways = []) : MakeUp parts thread (ts ++ us) (do m; n) := by
  intro c
  have hc := h c
  cases hm : m c with
  | ok a c' =>
    rw [hm] at hc
    rw [Step.bind_of_ok hm]
    exact hc.append (h' c')
  | error e c' =>
    rw [hm] at hc
    rw [Step.bind_of_error hm]
    refine hc.append_fault ?_
    rw [hus]
    exact .nil c'

theorem forM {α : Type} {f : α → Job} {g : α → EStateM ClientError Client Unit}
    (h : ∀ a, MakeUp parts thread [f a] (g a)) (hf : ∀ a, (f a).isAlways = false) (as : List α) :
    MakeUp parts thread (as.map f) (as.forM g) := by
  induction as with
  | nil => exact fun c => .nil c
  | cons a as ih =>
    refine bind (h a) ih (List.filter_eq_nil_iff.2 fun job hjob => ?_)
    obtain ⟨b, -, rfl⟩ := List.mem_map.1 hjob
    rw [hf b]
    exact Bool.false_ne_true

end MakeUp

end Job

/-! ### Requests that nobody interrupts -/

namespace Request

open Job

variable {thread : ThreadId} {c : Client}

/-- What is done behind the check of a request. -/
private theorem does_checked (request : Request) (called : Nat)
    {m : EStateM ClientError Client Unit}
    (h : c.closed = false → Does .whole thread (request.rest thread called) c (m c)) :
    Does .whole thread [.check request called] c ((do Client.ensureOpen; m) c) := by
  cases hclosed : c.closed with
  | true =>
    have hcheck := Client.ensureOpen_of_closed hclosed
    have hperform : (Job.check request called).perform .whole thread 0 c =
        .error .sessionClosed c := Step.bind_of_error hcheck
    rw [Step.bind_of_error hcheck]
    exact .fault hperform (.nil c)
  | false =>
    have hcheck := Client.ensureOpen_of_open hclosed
    have hperform : (Job.check request called).perform .whole thread 0 c =
        .ok (request.rest thread called) c := Step.bind_of_ok hcheck
    rw [Step.bind_of_ok hcheck]
    exact .last hperform (h hclosed)

theorem makeUp_finish (w : EventWriter) (r : Record) :
    MakeUp .whole thread [.finish w r] (Client.finishEvent thread w) := by
  intro c
  have happend (ref : StreamRef) :
      MakeUp .whole thread [.append ref w.record r] (Client.appendTo ref w.record) := .single rfl
  unfold Client.finishEvent
  cases hfault : w.fault with
  | some e =>
    have hperform : (Job.finish w r).perform .whole thread 0 c = .error (.wire e) c := by
      rw [Job.perform, hfault]
      rfl
    exact .fault hperform (.nil c)
  | none =>
    cases hordering : w.ordering with
    | none =>
      obtain ⟨ref, c', hobtain⟩ := Client.exists_obtain thread c
      have hperform : (Job.finish w r).perform .whole thread 0 c =
          .ok [.append ref w.record r] c' := by
        rw [Job.perform, hfault, hordering]
        exact Step.bind_of_ok hobtain
      simp only [Client.appendLocal, Step.bind_of_ok hobtain]
      exact .last hperform (happend ref c')
    | some i =>
      simp only [Client.appendShared, Step.get_bind]
      cases hstream : c.streamOf? thread with
      | none =>
        have hperform : (Job.finish w r).perform .whole thread 0 c =
            .ok [.append (.shared i) w.record r] c := by
          rw [Job.perform, hfault, hordering]
          simp only [Step.get_bind, hstream]
          rfl
        exact .last hperform (happend (.shared i) c)
      | some ref =>
        have hperform : (Job.finish w r).perform .whole thread 0 c =
            .ok [.seal ref, .append (.shared i) w.record r] c := by
          rw [Job.perform, hfault, hordering]
          simp only [Step.get_bind, hstream]
          rfl
        have hseal : MakeUp .whole thread [.seal ref] (Client.sealStream ref) := .single rfl
        exact .last hperform (hseal.bind (happend (.shared i)) rfl c)

theorem makeUp_endStream (other : ThreadId) :
    MakeUp .whole thread [.detach other] (Client.endStream other) := by
  intro c
  rw [Client.endStream]
  cases hstream : c.streamOf? other with
  | none =>
    have hdetach : Client.detach other c = .ok none c := by
      rw [Client.detach, hstream]
    have hperform : (Job.detach other).perform .whole thread 0 c = .ok [] c := by
      rw [Job.perform, Step.bind_of_ok hdetach]
      rfl
    rw [Step.bind_of_ok hdetach]
    exact .last hperform (.nil c)
  | some ref =>
    obtain ⟨c', hdetach⟩ : ∃ c', Client.detach other c = .ok (some ref) c' := by
      rw [Client.detach, hstream]
      exact ⟨_, rfl⟩
    have hperform : (Job.detach other).perform .whole thread 0 c =
        .ok [.close ref, .tellEnd ref] c' := by
      rw [Job.perform, Step.bind_of_ok hdetach]
      rfl
    have hclose : MakeUp .whole thread [.close ref] (Client.closeStream ref) := .single rfl
    have htell : MakeUp .whole thread [.tellEnd ref]
        (do Client.enqueueMessage (.threadEnd ((← get).stream ref).ordering)) :=
      .single (by rw [Job.perform, bind_assoc])
    rw [Step.bind_of_ok hdetach]
    exact .last hperform (hclose.bind htell rfl c')

theorem makeUp_visit (entry : ThreadId × StreamRef) :
    MakeUp .whole thread [.visit entry.1 entry.2] (Client.visit entry.1 entry.2) := by
  intro c
  rw [Client.visit, Step.get_bind]
  cases horphaned : (c.stream entry.2).orphaned with
  | true =>
    have hperform : (Job.visit entry.1 entry.2).perform .whole thread 0 c =
        .ok [.detach entry.1] c := by
      rw [Job.perform, Step.get_bind, horphaned]
      rfl
    exact .last hperform (makeUp_endStream entry.1 c)
  | false =>
    have hperform : (Job.visit entry.1 entry.2).perform .whole thread 0 c =
        (do Client.sealStream entry.2; return [] : EStateM ClientError Client (List Job)) c := by
      rw [Job.perform, Step.get_bind, horphaned]
      rfl
    exact .lone hperform

/-- All streams are looked up at once. -/
private theorem lookUp_whole (occasion : Occasion) (now : Nat) (c : Client) :
    lookUp .whole occasion 0 [] now c =
      .ok (visits c.ownRefs occasion ++ [.sealFrees occasion now]) c := by
  have hall : c.ownRefs.filter (fun entry => (Parts.whole.of entry.1).val == 0) = c.ownRefs :=
    List.filter_eq_self.2 fun _ _ => rfl
  rw [lookUp, Step.get_bind, hall]
  rfl

/-- Something is done with each stream, and then with each shared one. -/
private theorem makeUp_streams {f : ThreadId × StreamRef → Job} {f' : StreamRef → Job}
    {g : ThreadId × StreamRef → EStateM ClientError Client Unit}
    {g' : StreamRef → EStateM ClientError Client Unit}
    (h : ∀ entry, MakeUp .whole thread [f entry] (g entry))
    (h' : ∀ ref, MakeUp .whole thread [f' ref] (g' ref))
    (hf : ∀ entry, (f entry).isAlways = false) (hf' : ∀ ref, (f' ref).isAlways = false)
    (refs : List (ThreadId × StreamRef)) :
    MakeUp .whole thread (refs.map f ++ Client.sharedRefs.map f')
      (do refs.forM g; Client.sharedRefs.forM g') := by
  refine .bind (.forM h hf refs) (.forM h' hf' Client.sharedRefs) ?_
  refine List.filter_eq_nil_iff.2 fun job hjob => ?_
  obtain ⟨ref, -, rfl⟩ := List.mem_map.1 hjob
  rw [hf']
  exact Bool.false_ne_true

/-- All records are sent, and the frees behind them. -/
private theorem makeUp_sealAll {occasion : Occasion} (h : occasion ≠ .shutdown) :
    MakeUp .whole thread [.sealAll occasion] (do Client.sealEvents; Client.sealFrees) := by
  intro c
  have hvisits : MakeUp .whole thread (visits c.ownRefs occasion)
      (do c.ownRefs.forM (fun entry => Client.visit entry.1 entry.2)
          Client.sharedRefs.forM Client.sealStream) := by
    have hjobs : visits c.ownRefs occasion =
        c.ownRefs.map (fun entry => .visit entry.1 entry.2) ++ Client.sharedRefs.map .seal := by
      cases occasion with
      | shutdown => exact absurd rfl h
      | _ => rfl
    rw [hjobs]
    exact makeUp_streams makeUp_visit (fun _ => .single rfl) (fun _ => rfl) (fun _ => rfl) _
  have hfrees : MakeUp .whole thread [.sealFrees occasion 0] Client.sealFrees := by
    refine .single ?_
    rw [Job.perform, if_neg h]
  rw [Client.sealEvents, bind_assoc, Step.get_bind]
  exact .last (lookUp_whole occasion 0 c) (hvisits.bind hfrees rfl c)

/-- All streams end, and the session behind them. -/
private theorem makeUp_closeAll : MakeUp .whole thread [.sealAll .shutdown, .post .close]
    Client.closeAll := by
  intro c
  have hvisits : MakeUp .whole thread (visits c.ownRefs .shutdown)
      (do c.ownRefs.forM (fun entry => Client.closeStream entry.2)
          Client.sharedRefs.forM Client.closeStream) :=
    makeUp_streams (fun _ => .single rfl) (fun _ => .single rfl) (fun _ => rfl) (fun _ => rfl) _
  have hfrees : MakeUp .whole thread [.sealFrees .shutdown 0]
      (do modify fun c => { c with frees := { c.frees with closed := true } }
          Client.sealFrees) :=
    .single (by rw [Job.perform, if_pos rfl, bind_assoc])
  have hclose : MakeUp .whole thread [.post .close] (Client.enqueueMessage .close) := .single rfl
  have hall := (hvisits.bind hfrees rfl).bind hclose rfl c
  simp only [bind_assoc] at hall
  exact .next (lookUp_whole .shutdown 0 c) hall

/-- A record that is begun, and what is done with it. -/
private theorem beginEvent_bind (id : MethodId) (ordering : Option UInt8)
    (f : EventWriter → EStateM ClientError Client Unit) :
    (do let w ← Client.beginEvent id ordering; f w) = (do
      Client.ensureOpen
      fun c => if c.methods.contains id then f { record := .start id, ordering } c
        else .error (.unknownMethod id) c) := by
  rw [Client.beginEvent, bind_assoc]
  refine bind_congr fun _ => funext fun c => ?_
  rw [bind_assoc, Step.get_bind]
  cases c.methods.contains id <;> rfl

/-- What is done behind the check that a method has its number. -/
private theorem does_known {id : MethodId} {c : Client} {jobs : List Job}
    {result : EStateM.Result ClientError Client Unit} (h : Does .whole thread jobs c result)
    (hjobs : jobs.filter isAlways = []) : Does .whole thread (.known id :: jobs) c
      (if c.methods.contains id then result else .error (.unknownMethod id) c) := by
  cases hid : c.methods.contains id with
  | true =>
    have hperform : (Job.known id).perform .whole thread 0 c = .ok [] c := by
      rw [Job.perform, Step.get_bind, hid]
      rfl
    exact .next hperform h
  | false =>
    have hperform : (Job.known id).perform .whole thread 0 c = .error (.unknownMethod id) c := by
      rw [Job.perform, Step.get_bind, hid]
      rfl
    refine .fault hperform ?_
    rw [hjobs]
    exact .nil c

private theorem does_objectFreed (t : Token) (called : Nat) (c : Client) :
    Does .whole thread [.free t called] c ((do
      Client.onFrees (FreeStream.append t)
      let c ← get
      if c.frees.isFull c.settings then
        Client.sealEvents
        Client.sealFrees : EStateM ClientError Client Unit) c) := by
  cases happend : Client.onFrees (FreeStream.append t) c with
  | error e c' =>
    have hperform : (Job.free t called).perform .whole thread 0 c = .error e c' :=
      Step.bind_of_error happend
    rw [Step.bind_of_error happend]
    exact .fault hperform (.nil c')
  | ok a c' =>
    rw [Step.bind_of_ok happend, Step.get_bind]
    by_cases hfull : c'.frees.isFull c'.settings = true
    · have hperform : (Job.free t called).perform .whole thread 0 c = .ok [.sealAll .full] c' := by
        rw [Job.perform, Step.bind_of_ok happend, Step.get_bind, if_pos hfull]
        rfl
      rw [if_pos hfull]
      exact .last hperform (makeUp_sealAll (by decide) c')
    · have hperform : (Job.free t called).perform .whole thread 0 c = .ok [] c' := by
        rw [Job.perform, Step.bind_of_ok happend, Step.get_bind, if_neg hfull]
        rfl
      rw [if_neg hfull]
      exact .last hperform (.nil c')

private theorem makeUp_drain : MakeUp .whole thread [.beginEnd] Client.drain := by
  intro c
  rw [Client.drain]
  by_cases hending : c.ending = true
  · have hperform : Job.beginEnd.perform .whole thread 0 c = .ok [] c := by
      rw [Job.perform, Step.get_bind, if_pos hending]
      rfl
    rw [if_pos hending]
    exact .last hperform (.nil c)
  · have hperform : Job.beginEnd.perform .whole thread 0 c =
        .ok ([.sealAll .shutdown, .post .close] ++ [.closeOutbox])
          { c with ending := true, closed := true } := by
      rw [Job.perform, Step.get_bind, if_neg hending]
      rfl
    have hoff : MakeUp .whole thread [.closeOutbox]
        (modify fun c => { c with outbox := c.outbox.close }) := .single rfl
    have hall : Does .whole thread [.sealAll .shutdown, .post .close] _ _ :=
      makeUp_closeAll { c with ending := true, closed := true }
    rw [if_neg hending]
    refine .last hperform ?_
    cases hend : Client.closeAll { c with ending := true, closed := true } with
    | ok a c' =>
      rw [hend] at hall
      exact hall.append (hoff c')
    | error e c' =>
      rw [hend] at hall
      exact hall.append_fault (hoff c')

/-- **A request that nobody interrupts** is the call of the client. -/
theorem does_call (request : Request) (called : Nat) (c : Client) :
    Does .whole thread (request.jobs thread called) c (request.call thread c) := by
  cases request with
  | finish id ordering args => exact makeUp_finish _ _ c
  | shutdown => exact makeUp_drain c
  | flush =>
    have hall : MakeUp .whole thread [.sealAll .flush] _ := makeUp_sealAll (by decide)
    exact does_checked .flush called fun _ => hall c
  | threadEnd => exact does_checked .threadEnd called fun _ => makeUp_endStream thread c
  | classInfo info => exact does_checked (.classInfo info) called fun _ => MakeUp.single rfl c
  | stringInfo subject text =>
    exact does_checked (.stringInfo subject text) called fun _ => MakeUp.single rfl c
  | threadInfo info => exact does_checked (.threadInfo info) called fun _ => MakeUp.single rfl c
  | objectFreed t => exact does_checked (.objectFreed t) called fun _ => does_objectFreed t called c
  | register name =>
    rw [Request.call, Client.register, bind_assoc]
    refine does_checked (.register name) called fun _ => .lone (n := 0) ?_
    rw [Job.perform]
    simp only [bind_assoc, pure_bind]
  | begin id =>
    rw [Request.call, beginEvent_bind]
    exact does_checked (.begin id) called fun _ => does_known (.nil c) rfl
  | dispatch id args =>
    rw [Request.call, Client.dispatch, beginEvent_bind]
    exact does_checked (.dispatch id args) called fun _ => does_known (makeUp_finish _ _ c) rfl

end Request

end TraceRelay
