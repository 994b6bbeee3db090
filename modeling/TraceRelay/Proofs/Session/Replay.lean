import TraceRelay.Proofs.Session.Handle
import TraceRelay.Proofs.Stream.Frames

/-!
# What a stream asks a host for

A message asks the host of the analyses for a list of actions: an action for each record of the
message, in order, or for each token, or one action in all. A byte string asks for the actions of
its whole frames, up to the first one that closes the session. So the effect of a stream can be said
without chunks and without a session under way: the actions are taken one after the other, until one
of them fails.

## Main definitions

* `Action`, `Message.actions` : what messages ask for.
* `Host.act`, `Host.actAll` : the effect of an action, and of a list of actions.
* `Frame.untilClose` : the frames up to the first one that closes the session.
* `Host.replay` : the effect of a byte string.

## Main results

* `Host.replay_append_of_no_frame` : whatever stands where a whole frame should, no action is taken
  for it.
* `Host.replay_append_of_closes` : what comes behind the message that closes the session has no
  effect.
-/

namespace TraceRelay

/-- One thing that a message asks for. -/
inductive Action where
  /-- A record goes to the analysis of its method. -/
  | deliver (ordering : UInt64) (r : Record)
  /-- The object of a token is gone. -/
  | free (t : Token)
  /-- A number stands for a method from now on. -/
  | bind (id : MethodId) (name : String)
  /-- Data describes the object of a token. -/
  | attach (t : Token) (data : ObjectInfo)

/-- What a message asks for, in order. -/
def Message.actions : Message → List Action
  | analyze ordering records => records.map (.deliver ordering)
  | objectFree tokens => tokens.map .free
  | registerMethod id name => [.bind id name]
  | classInfo info => [.attach info.subject (.ofClass info)]
  | stringInfo subject text => [.attach subject (.text text)]
  | threadInfo info => [.attach info.subject (.ofThread info)]
  | close | threadEnd _ => []

/-! ### Actions -/

namespace Host

variable {σ α : Type}

/-- A step of the heap as a step of the host. -/
def onHeap (step : EStateM HeapError Heap α) : EStateM SessionError (Host σ) α := fun host =>
  match step host.heap with
  | .ok a heap => .ok a { host with heap }
  | .error e heap => .error (.heap e) { host with heap }

/-- Calls the analysis of a method that goes by a name. -/
def invoke (analysis : Analysis σ) (name : String) (i : Invocation) :
    EStateM SessionError (Host σ) Unit := fun host =>
  match analysis.handle host.heap i host.state with
  | .ok _ state => .ok () { host with state }
  | .error e state => .error (.analysis i.methodId name e) { host with state }

/-- The effect of an action. The values of a record become arguments one after the other, from the
first to the last. -/
def act : Action → EStateM SessionError (Host σ) Unit
  | .deliver ordering r => do
    match (← get).registry.route? r.method with
    | none => throw (.unknownMethod r.method)
    | some (binding, analysis) =>
      let args ← r.args.mapM fun v => onHeap (Argument.resolve v)
      invoke analysis binding.name
        { method := binding.method, methodId := r.method, ordering, args }
  | .free t => modify fun host => (host.notifyFree t).2
  | .bind id name => Host.bind id name
  | .attach t data => do
    let _ ← onHeap (Heap.attach t data)

/-- The effect of actions, one after the other, until one of them fails. -/
def actAll : List Action → EStateM SessionError (Host σ) Unit
  | [] => return
  | a :: as => do
    act a
    actAll as

theorem actAll_append (as bs : List Action) :
    (actAll (as ++ bs) : EStateM SessionError (Host σ) Unit) =
      actAll as >>= fun _ => actAll bs := by
  induction as with
  | nil => rfl
  | cons a as ih => rw [List.cons_append, actAll, actAll, ih, bind_assoc]

/-- The arguments of a record, resolved as a step of the host. -/
private theorem mapM_resolve (vs : List Value) (host : Host σ) :
    (vs.mapM fun v => onHeap (Argument.resolve v)) host = onHeap (Argument.resolveAll vs) host := by
  induction vs generalizing host with
  | nil => rfl
  | cons v vs ih =>
    rw [List.mapM_cons]
    cases hv : Argument.resolve v host.heap with
    | error e heap =>
      have hfirst : onHeap (Argument.resolve v) host = .error (.heap e) { host with heap } := by
        simp only [onHeap, hv]
      rw [Step.bind_of_error hfirst]
      simp only [onHeap, Argument.resolveAll, Step.bind_of_error hv]
    | ok arg heap =>
      have hfirst : onHeap (Argument.resolve v) host = .ok arg { host with heap } := by
        simp only [onHeap, hv]
      rw [Step.bind_of_ok hfirst]
      cases hvs : Argument.resolveAll vs heap with
      | error e heap' =>
        have hrest := ih { host with heap }
        simp only [onHeap, hvs] at hrest
        rw [Step.bind_of_error hrest]
        simp only [onHeap, Argument.resolveAll, Step.bind_of_ok hv, Step.bind_of_error hvs]
      | ok args heap' =>
        have hrest := ih { host with heap }
        simp only [onHeap, hvs] at hrest
        rw [Step.bind_of_ok hrest]
        simp only [onHeap, Argument.resolveAll, Step.bind_of_ok hv, Step.bind_of_ok hvs]
        rfl

/-- A record is delivered as the action says. -/
theorem deliver_eq_act (ordering : UInt64) (r : Record) (host : Host σ) :
    deliver ordering r host = act (.deliver ordering r) host := by
  obtain ⟨registry, heap, state, exited, frees⟩ := host
  rw [act, Step.get_bind]
  simp only [deliver]
  cases registry.route? r.method with
  | none => rfl
  | some route =>
    obtain ⟨binding, analysis⟩ := route
    have hargs := mapM_resolve r.args ⟨registry, heap, state, exited, frees⟩
    cases hresolve : Argument.resolveAll r.args heap with
    | error e heap' =>
      simp only [onHeap, hresolve] at hargs ⊢
      rw [Step.bind_of_error hargs]
    | ok args heap' =>
      simp only [onHeap, hresolve] at hargs ⊢
      rw [Step.bind_of_ok hargs]
      cases hhandle : analysis.handle heap'
          { method := binding.method, methodId := r.method, ordering, args } state <;>
        simp only [invoke, hhandle]

/-- Data is attached as the action says. -/
theorem attach_eq_act (t : Token) (data : ObjectInfo) (host : Host σ) :
    attach t data host = act (.attach t data) host := by
  cases hattach : Heap.attach t data host.heap with
  | ok a heap =>
    have hheap : onHeap (Heap.attach t data) host = .ok a { host with heap } := by
      simp only [onHeap, hattach]
    rw [act, Step.bind_of_ok hheap]
    simp only [attach, hattach]
    rfl
  | error e heap =>
    have hheap : onHeap (Heap.attach t data) host = .error (.heap e) { host with heap } := by
      simp only [onHeap, hattach]
    rw [act, Step.bind_of_error hheap]
    simp only [attach, hattach]

/-- Objects go one after the other. -/
theorem actAll_free (tokens : List Token) (host : Host σ) :
    actAll (tokens.map .free) host =
      .ok () (tokens.foldl (fun host t => (host.notifyFree t).2) host) := by
  induction tokens generalizing host with
  | nil => rfl
  | cons t tokens ih => exact ih (host.notifyFree t).2

end Host

/-! ### Frames -/

namespace Frame

/-- The frames up to the first one that closes the session, and that one. -/
def untilClose : List Frame → List Frame
  | [] => []
  | frame :: frames => if frame.message = .close then [frame] else frame :: untilClose frames

/-- Whether a frame closes the session. -/
def closes (frames : List Frame) : Bool := frames.any fun frame => frame.message = .close

/-- What frames ask for. -/
def actions (frames : List Frame) : List Action := frames.flatMap fun frame => frame.message.actions

/-- How long the frame is that a byte string starts with, as far as its head tells. -/
def needed (maxFrame : Nat) (bs : Bytes) : Nat :=
  match head maxFrame bs with
  | .ok (some (_, length)) => Message.headSize + length
  | _ => Message.headSize

theorem untilClose_append (fs gs : List Frame) :
    untilClose (fs ++ gs) = if closes fs then untilClose fs else fs ++ untilClose gs := by
  induction fs with
  | nil => rfl
  | cons frame fs ih =>
    by_cases hclose : frame.message = .close
    · simp only [List.cons_append, untilClose, closes, List.any_cons, hclose, if_true,
        decide_true, Bool.true_or]
    · simp only [List.cons_append, untilClose, closes, List.any_cons, hclose, if_false,
        decide_false, Bool.false_or] at ih ⊢
      rw [ih]
      exact apply_ite (frame :: ·) _ _ _

theorem closes_append (fs gs : List Frame) : closes (fs ++ gs) = (closes fs || closes gs) :=
  List.any_append

theorem untilClose_of_not_closes {frames : List Frame} (h : closes frames = false) :
    untilClose frames = frames := by
  have happend := untilClose_append frames []
  rwa [List.append_nil, h, if_neg Bool.false_ne_true, untilClose, List.append_nil] at happend

theorem actions_append (fs gs : List Frame) : actions (fs ++ gs) = actions fs ++ actions gs :=
  List.flatMap_append

end Frame

/-! ### Byte strings -/

namespace Host

variable {σ : Type}

/-- The effect of a byte string. The frames up to the first one that closes the session are acted
on. If none does, the byte string must hold frames and nothing else. Tells the frames that were
acted on, and whether the session was closed. -/
def replay (maxFrame : Nat) (bs : Bytes) : EStateM SessionError (Host σ) (List Frame × Bool) :=
  match Frame.all maxFrame bs with
  | (frames, fault, behind) => do
    actAll (Frame.actions (Frame.untilClose frames))
    if Frame.closes frames then return (Frame.untilClose frames, true)
    match fault with
    | some e => throw (.wire e)
    | none =>
      if behind = [] then return (frames, false)
      else throw (.wire (.truncated (Frame.needed maxFrame behind) behind.length))

variable {maxFrame : Nat}

/-- The host is as the frames that are acted on leave it. If nothing fails then none of them did. -/
theorem replay_cases (maxFrame : Nat) (bs : Bytes) (host : Host σ) :
    let acted := Frame.untilClose (Frame.all maxFrame bs).1
    (∃ e, replay maxFrame bs host = .error e (Step.final (actAll (Frame.actions acted) host))) ∨
      ∃ closed host', actAll (Frame.actions acted) host = .ok () host' ∧
        replay maxFrame bs host = .ok (acted, closed) host' := by
  unfold replay
  rcases Frame.all maxFrame bs with ⟨frames, fault, behind⟩
  dsimp only
  cases h : actAll (Frame.actions (Frame.untilClose frames)) host with
  | error e host' => exact .inl ⟨e, Step.bind_of_error h⟩
  | ok _ host' =>
    rw [Step.bind_of_ok h]
    cases hclose : Frame.closes frames with
    | true => exact .inr ⟨true, host', rfl, rfl⟩
    | false =>
      rw [if_neg Bool.false_ne_true, Frame.untilClose_of_not_closes hclose]
      cases fault with
      | some e => exact .inl ⟨_, rfl⟩
      | none =>
        dsimp only
        split
        · exact .inr ⟨false, host', rfl, rfl⟩
        · exact .inl ⟨_, rfl⟩

/-- The effect of bytes that have arrived, and of those that come later. -/
theorem replay_append {bs behind : Bytes} {frames : List Frame} {fault : Option WireError}
    (more : Bytes) (h : Frame.all maxFrame bs = (frames, fault, behind)) :
    (replay maxFrame (bs ++ more) : EStateM SessionError (Host σ) _) = do
      actAll (Frame.actions (Frame.untilClose frames))
      if Frame.closes frames then return (Frame.untilClose frames, true)
      match fault with
      | some e => throw (.wire e)
      | none =>
        let (later, closed) ← replay maxFrame (behind ++ more)
        return (frames ++ later, closed) := by
  cases fault with
  | some e =>
    obtain ⟨hframes, hfault⟩ := Frame.all_append_of_fault more (congrArg (·.2.1) h)
    rcases hmore : Frame.all maxFrame (bs ++ more) with ⟨frames', fault', behind'⟩
    rw [h, hmore] at hframes
    rw [hmore] at hfault
    simp only at hframes hfault
    subst hframes hfault
    simp only [replay, hmore]
  | none =>
    have hmore := Frame.all_append_of_none more (congrArg (·.2.1) h)
    rw [h] at hmore
    rcases hlater : Frame.all maxFrame (behind ++ more) with ⟨later, fault, rest⟩
    rw [hlater] at hmore
    simp only [replay, hmore, hlater, Frame.untilClose_append, Frame.closes_append]
    cases hclose : Frame.closes frames with
    | true => simp only [Bool.true_or, if_true]
    | false =>
      simp only [Bool.false_or, Bool.false_eq_true, if_false, Frame.actions_append,
        Frame.untilClose_of_not_closes hclose, actAll_append, bind_assoc]
      congr 1
      funext _
      congr 1
      funext _
      split
      · simp only [pure_bind]
      · cases fault with
        | some e => rfl
        | none =>
          simp only
          split <;> rfl

/-- **Behind a frame that closes the session** nothing has an effect. -/
theorem replay_append_of_closes {bs : Bytes} (more : Bytes)
    (h : Frame.closes (Frame.all maxFrame bs).1 = true) :
    (replay maxFrame (bs ++ more) : EStateM SessionError (Host σ) _) = replay maxFrame bs := by
  rcases hall : Frame.all maxFrame bs with ⟨frames, fault, behind⟩
  rw [hall] at h
  simp only at h
  rw [replay_append more hall]
  simp only [replay, hall, h, if_true]

/-- Where a frame should be and there is none, all ends. -/
private theorem replay_of_no_frame {bs : Bytes} (hsome : bs ≠ [])
    (hnone : ∀ found, Frame.first maxFrame bs ≠ .ok (some found)) :
    ∃ e, ∀ host : Host σ, replay maxFrame bs host = .error (.wire e) host := by
  cases hfirst : Frame.first maxFrame bs with
  | error e =>
    refine ⟨e, fun host => ?_⟩
    rw [replay, Frame.all_of_error hfirst]
    rfl
  | ok found =>
    cases found with
    | some found => exact absurd hfirst (hnone found)
    | none =>
      refine ⟨.truncated (Frame.needed maxFrame bs) bs.length, fun host => ?_⟩
      simp only [replay, Frame.all_of_none hfirst, if_neg hsome]
      rfl

/-- **Behind the last whole frame** nothing reaches an analysis, whatever is wrong with it. The
messages before it are acted on, and then the session fails. -/
theorem replay_append_of_no_frame {ms : List Message} {es : List Bytes} {rest : Bytes}
    (hes : List.Forall₂ (fun m e => m.toBytes = .ok e) ms es)
    (hmax : ∀ e ∈ es, e.length ≤ Message.headSize + maxFrame) (hopen : .close ∉ ms)
    (hsome : rest ≠ []) (hnone : ∀ found, Frame.first maxFrame rest ≠ .ok (some found))
    (host : Host σ) :
    ∃ e, replay maxFrame (es.flatten ++ rest) host =
      .error e (Step.final (actAll (ms.flatMap Message.actions) host)) := by
  obtain ⟨frames, hall, rfl, -⟩ := Frame.all_of_toBytes hes hmax
  have hclose : Frame.closes frames = false := by
    rw [Frame.closes, List.any_eq_false]
    intro frame hmem
    rw [decide_eq_true_iff]
    intro heq
    exact hopen (List.mem_map.2 ⟨frame, hmem, heq⟩)
  obtain ⟨e, he⟩ := replay_of_no_frame (σ := σ) hsome hnone
  rw [replay_append rest hall, Frame.untilClose_of_not_closes hclose, List.flatMap_map]
  change ∃ e, (actAll (Frame.actions frames) >>= _) host = .error e (Step.final
    (actAll (Frame.actions frames) host))
  cases hframes : actAll (Frame.actions frames) host with
  | error e' host' => exact ⟨e', Step.bind_of_error hframes⟩
  | ok _ host' =>
    rw [Step.bind_of_ok hframes, hclose, if_neg Bool.false_ne_true, List.nil_append]
    exact ⟨_, Step.bind_of_error (he host')⟩

end Host

end TraceRelay
