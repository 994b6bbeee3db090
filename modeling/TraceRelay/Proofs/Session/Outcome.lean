import TraceRelay.Proofs.Session.EndToEnd
import TraceRelay.Proofs.Session.Replay

/-!
# The outcome of a session

A session receives chunks, puts frames together and acts on messages between two chunks, until a
message closes it, something fails or nothing more comes. What it does to its host, and how it ends,
is what the bytes ask for that have arrived in all, however they were cut.

## Main definitions

* `Host.outcome` : how a session ends, and the host afterwards, told by its bytes alone.
* `Session.Ends` : a step of a session ends as a step of its host does.

## Main results

* `Session.handle_ends`, `Session.handleAll_ends` : one message, and the frames that have arrived.
* `Session.receive_follows` : a whole stream.
* `Session.run_arrived` : a whole session, whatever its transport delivers.
* `Session.run_eq_outcome` : the same, with what a broken frame and a closing message do to it.
-/

namespace TraceRelay

variable {σ : Type}

/-- How a session ends that receives a byte string, and the host afterwards. -/
def Host.outcome (maxFrame : Nat) (bs : Bytes) (host : Host σ) :
    Except SessionError Summary × Host σ :=
  match host.replay maxFrame bs with
  | .error e host => (.error e, host)
  | .ok (acted, closed) host =>
    let host := host.notifyExit.2
    (.ok { Summary.count acted with frees := host.frees, closedCleanly := closed }, host)

namespace Session

variable {α β : Type}

/-! ### Steps of a session and of its host -/

/-- A step of a session ends as a step of its host does: with the same fault, or else with `a` and
the counts `n`. What has arrived stays as it was. -/
inductive Ends (stream : FrameStream) (a : α) (n : Summary) :
    EStateM.Result SessionError (Host σ) Unit → EStateM.Result SessionError (Session σ) α → Prop
  | ok (host : Host σ) : Ends stream a n (.ok () host) (.ok a ⟨host, stream, n⟩)
  | error (e : SessionError) (host : Host σ) (summary : Summary) :
    Ends stream a n (.error e host) (.error e ⟨host, stream, summary⟩)

/-- Two steps, one after the other. -/
theorem Ends.bind {stream : FrameStream} {a : α} {b : β} {n n' : Summary}
    {x y : EStateM SessionError (Host σ) Unit} {m : EStateM SessionError (Session σ) α}
    {f : α → EStateM SessionError (Session σ) β} {host : Host σ} {s : Session σ}
    (h : Ends stream a n (x host) (m s))
    (hf : ∀ host', Ends stream b n' (y host') (f a ⟨host', stream, n⟩)) :
    Ends stream b n' ((x >>= fun _ => y) host) ((m >>= f) s) := by
  cases hx : x host with
  | error e host' =>
    rw [hx] at h
    rw [Step.bind_of_error hx]
    generalize hm : m s = result at h
    cases h
    rw [Step.bind_of_error hm]
    exact .error e host' _
  | ok _ host' =>
    rw [hx] at h
    rw [Step.bind_of_ok hx]
    generalize hm : m s = result at h
    cases h
    rw [Step.bind_of_ok hm]
    exact hf host'

/-- A step of the host as a step of the session. -/
private theorem onHost_ends (step : EStateM SessionError (Host σ) Unit) (s : Session σ) :
    Ends s.stream () s.summary (step s.host) (onHost step s) := by
  obtain ⟨host, stream, summary⟩ := s
  simp only [onHost]
  cases step host with
  | ok _ host' => exact .ok host'
  | error e host' => exact .error e host' summary

/-- Records are delivered one after the other. -/
private theorem deliverAll_ends (ordering : UInt64) (rs : List Record) (s : Session σ) :
    Ends s.stream () { s.summary with events := s.summary.events + rs.length }
      (Host.actAll (rs.map (.deliver ordering)) s.host) (deliverAll ordering rs s) := by
  induction rs generalizing s with
  | nil => exact .ok s.host
  | cons r rs ih =>
    have hfirst := onHost_ends (Host.deliver ordering r) s
    rw [Host.deliver_eq_act] at hfirst
    refine hfirst.bind fun host => ?_
    rw [tally, Step.modify_bind, List.length_cons, Nat.add_comm rs.length, ← Nat.add_assoc]
    exact ih ⟨host, s.stream, { s.summary with events := s.summary.events + 1 }⟩

/-- One action of the host, and what is counted of it. -/
private theorem Ends.count {stream : FrameStream} {a : α} {b : β} {n n' : Summary}
    {m : EStateM SessionError (Session σ) α} {f : α → EStateM SessionError (Session σ) β}
    {x : EStateM.Result SessionError (Host σ) Unit} {s : Session σ}
    (h : Ends stream a n x (m s))
    (hf : ∀ host, f a ⟨host, stream, n⟩ = .ok b ⟨host, stream, n'⟩) :
    Ends stream b n' x ((m >>= f) s) := by
  generalize hm : m s = result at h
  cases h with
  | ok host =>
    rw [Step.bind_of_ok hm, hf]
    exact .ok host
  | error e host summary =>
    rw [Step.bind_of_error hm]
    exact .error e host summary

private theorem actAll_singleton (a : Action) (host : Host σ) :
    Host.actAll [a] host = Host.act a host := by
  rw [Host.actAll]
  cases h : Host.act a host with
  | ok _ host' => exact Step.bind_of_ok h
  | error e host' => exact Step.bind_of_error h

/-- **One message.** -/
theorem handle_ends (m : Message) (s : Session σ) :
    Ends s.stream (decide (m = .close)) (s.summary.note m) (Host.actAll m.actions s.host)
      (handle m s) := by
  cases m with
  | close => exact .ok s.host
  | threadEnd ordering => exact .ok s.host
  | analyze ordering records => exact (deliverAll_ends ordering records s).count fun _ => rfl
  | objectFree tokens =>
    rw [Message.actions, Host.actAll_free]
    exact .ok _
  | registerMethod id name =>
    rw [Message.actions, actAll_singleton]
    exact (onHost_ends (Host.bind id name) s).count fun _ => rfl
  | classInfo info =>
    rw [Message.actions, actAll_singleton, ← Host.attach_eq_act]
    exact (onHost_ends (Host.attach info.subject (.ofClass info)) s).count fun _ => rfl
  | stringInfo subject text =>
    rw [Message.actions, actAll_singleton, ← Host.attach_eq_act]
    exact (onHost_ends (Host.attach subject (.text text)) s).count fun _ => rfl
  | threadInfo info =>
    rw [Message.actions, actAll_singleton, ← Host.attach_eq_act]
    exact (onHost_ends (Host.attach info.subject (.ofThread info)) s).count fun _ => rfl

/-- **The frames that have arrived**, after others were acted on. -/
theorem handleAll_ends (frames : List Frame) {done : List Frame} {s : Session σ}
    (h : s.summary = .count done) :
    Ends s.stream (Frame.closes frames)
      { Summary.count (done ++ Frame.untilClose frames) with closedCleanly := Frame.closes frames }
      (Host.actAll (Frame.actions (Frame.untilClose frames)) s.host) (handleAll frames s) := by
  induction frames generalizing done s with
  | nil =>
    obtain ⟨host, stream, summary⟩ := s
    subst h
    rw [Frame.untilClose, List.append_nil]
    exact .ok host
  | cons frame frames ih =>
    obtain ⟨host, stream, summary⟩ := s
    subst h
    unfold handleAll tally
    rw [Step.modify_bind]
    have hfirst := handle_ends frame.message ⟨host, stream,
      { Summary.count done with bytes := (Summary.count done).bytes + frame.wireSize }⟩
    rw [← Summary.count_concat] at hfirst
    by_cases hclose : frame.message = .close
    · have huntil : Frame.untilClose (frame :: frames) = [frame] := if_pos hclose
      have hcloses : Frame.closes (frame :: frames) = true := by
        rw [Frame.closes, List.any_cons, decide_eq_true hclose, Bool.true_or]
      rw [huntil, hcloses, Frame.actions, List.flatMap_singleton]
      rw [decide_eq_true hclose] at hfirst
      exact Ends.count hfirst fun _ => rfl
    · have huntil : Frame.untilClose (frame :: frames) = [frame] ++ Frame.untilClose frames :=
        if_neg hclose
      have hcloses : Frame.closes (frame :: frames) = Frame.closes frames := by
        rw [Frame.closes, List.any_cons, decide_eq_false hclose, Bool.false_or]
        rfl
      rw [huntil, hcloses, Frame.actions_append, Frame.actions, List.flatMap_singleton,
        Host.actAll_append, ← List.append_assoc]
      rw [decide_eq_false hclose] at hfirst
      exact hfirst.bind fun host' => ih (s := ⟨host', stream, .count (done ++ [frame])⟩) rfl

/-! ### A whole stream -/

/-- A session ends as its host does: with the same fault, or else with the counts of the frames that
were acted on, after those that were before. -/
inductive Follows (done : List Frame) :
    EStateM.Result SessionError (Host σ) (List Frame × Bool) →
      EStateM.Result SessionError (Session σ) Unit → Prop
  | ok (acted : List Frame) (closed : Bool) (host : Host σ) (stream : FrameStream) :
    Follows done (.ok (acted, closed) host)
      (.ok () ⟨host, stream, { Summary.count (done ++ acted) with closedCleanly := closed }⟩)
  | error (e : SessionError) (host : Host σ) (stream : FrameStream) (summary : Summary) :
    Follows done (.error e host) (.error e ⟨host, stream, summary⟩)

/-- The frames that have arrived, and what comes after them. -/
private theorem Follows.of_ends {done : List Frame} {stream : FrameStream} {a : α} {n : Summary}
    {x : EStateM SessionError (Host σ) Unit} {m : EStateM SessionError (Session σ) α}
    {y : EStateM SessionError (Host σ) (List Frame × Bool)}
    {f : α → EStateM SessionError (Session σ) Unit} {host : Host σ} {s : Session σ}
    (h : Ends stream a n (x host) (m s))
    (hf : ∀ host', Follows done (y host') (f a ⟨host', stream, n⟩)) :
    Follows done ((x >>= fun _ => y) host) ((m >>= f) s) := by
  cases hx : x host with
  | error e host' =>
    rw [hx] at h
    rw [Step.bind_of_error hx]
    generalize hm : m s = result at h
    cases h
    rw [Step.bind_of_error hm]
    exact .error e host' stream _
  | ok _ host' =>
    rw [hx] at h
    rw [Step.bind_of_ok hx]
    generalize hm : m s = result at h
    cases h
    rw [Step.bind_of_ok hm]
    exact hf host'

/-- What follows frames follows those that came before them. -/
private theorem Follows.append {done frames : List Frame}
    {y : EStateM SessionError (Host σ) (List Frame × Bool)} {host : Host σ}
    {x : EStateM.Result SessionError (Session σ) Unit} (h : Follows (done ++ frames) (y host) x) :
    Follows done ((do
      let (later, closed) ← y
      return (frames ++ later, closed)) host) x := by
  generalize hy : y host = result at h
  cases h with
  | ok later closed host' stream =>
    rw [Step.bind_of_ok hy, List.append_assoc]
    exact .ok (frames ++ later) closed host' stream
  | error e host' stream summary =>
    rw [Step.bind_of_error hy]
    exact .error e host' stream summary

/-- The end of a stream that starts with no frame. -/
private theorem finish_eq {stream : FrameStream}
    (h : Frame.first stream.maxFrame stream.pending = .ok none) :
    stream.finish = if stream.pending = [] then .ok ()
      else .error (.truncated (Frame.needed stream.maxFrame stream.pending)
        stream.pending.length) := by
  unfold FrameStream.finish Frame.needed
  rw [FrameStream.head_eq, FrameStream.pendingSize_eq]
  simp only [List.length_eq_zero_iff]
  by_cases hempty : stream.pending = []
  · rw [if_pos hempty, if_pos hempty]
  rw [if_neg hempty, if_neg hempty]
  cases hhead : Frame.head stream.maxFrame stream.pending with
  | error e =>
    simp only [Frame.first, hhead] at h
    cases h
  | ok found => rcases found with _ | ⟨kind, length⟩ <;> rfl

/-- A session at the end of its stream. -/
private def endOfStream : EStateM SessionError (Session σ) Unit := do
  match (← get).stream.finish with
  | .ok _ => return
  | .error e => throw (.wire e)

/-- A session takes what has arrived before anything else happens. -/
private theorem bind_handleArrived {frames : List Frame} {fault : Option WireError}
    {s : Session σ} {t : FrameStream} (h : s.stream.drain = (frames, fault, t))
    (f : Bool → EStateM SessionError (Session σ) Unit) :
    (handleArrived >>= f) s = (do
      let closed ← handleAll frames
      if closed then f true
      else match fault with
        | some e => throw (SessionError.wire e)
        | none => f false) { s with stream := t } := by
  have harrived : handleArrived s = (do
      if ← handleAll frames then return true
      match fault with
      | some e => throw (SessionError.wire e)
      | none => return false) { s with stream := t } := by
    rw [handleArrived, Step.get_bind, h]
    rfl
  cases hall : handleAll frames { s with stream := t } with
  | error e s' =>
    rw [Step.bind_of_error hall] at harrived
    rw [Step.bind_of_error harrived, Step.bind_of_error hall]
  | ok closed s' =>
    rw [Step.bind_of_ok hall] at harrived
    rw [Step.bind_of_ok hall]
    cases closed with
    | true => exact Step.bind_of_ok harrived
    | false =>
      cases fault with
      | some e => exact Step.bind_of_error harrived
      | none => exact Step.bind_of_ok harrived

/-- What has arrived is acted on, and then what comes `later` if the session still goes on. -/
private theorem follows_of_arrived {done : List Frame} {s : Session σ} {later : Bytes}
    {f : Bool → EStateM SessionError (Session σ) Unit} (hwell : s.stream.WellFormed)
    (hsummary : s.summary = .count done) (hclosed : ∀ s', f true s' = .ok () s')
    (hopen : ∀ host frames (t : FrameStream), t.WellFormed → t.maxFrame = s.stream.maxFrame →
      Frame.first t.maxFrame t.pending = .ok none →
      Follows (done ++ frames) (Host.replay t.maxFrame (t.pending ++ later) host)
        (f false ⟨host, t, .count (done ++ frames)⟩)) :
    Follows done (Host.replay s.stream.maxFrame (s.stream.pending ++ later) s.host)
      ((handleArrived >>= f) s) := by
  obtain ⟨hframes, hfault, hpending, hmax, hwell'⟩ := FrameStream.drain_spec hwell
  rcases hall : Frame.all s.stream.maxFrame s.stream.pending with ⟨frames, fault, behind⟩
  rcases hdrain : s.stream.drain with ⟨frames', fault', t⟩
  rw [hall, hdrain] at hframes hfault hpending
  rw [hdrain] at hmax hwell'
  simp only at hframes hfault hpending hmax hwell'
  subst hframes hfault hpending
  rw [Host.replay_append later hall, bind_handleArrived hdrain]
  refine Follows.of_ends (handleAll_ends frames' (s := { s with stream := t }) hsummary)
    fun host => ?_
  cases hclose : Frame.closes frames' with
  | true =>
    rw [if_pos rfl, if_pos rfl, hclosed]
    exact .ok (Frame.untilClose frames') true host t
  | false =>
    rw [if_neg Bool.false_ne_true, if_neg Bool.false_ne_true]
    cases fault' with
    | some e => exact .error (.wire e) host t _
    | none =>
      have hfirst := Frame.first_of_all (congrArg (·.2.1) hall)
      rw [hall, ← hmax] at hfirst
      rw [Frame.untilClose_of_not_closes hclose, ← hmax]
      exact (hopen host frames' t hwell' hmax hfirst).append

/-- **A whole stream**, of which a part may have arrived before. -/
theorem receive_follows (failure : Option TransportError) {chunks : List Bytes} {s : Session σ}
    {done : List Frame} (hwell : s.stream.WellFormed) (hsummary : s.summary = .count done) :
    Follows done (Host.replay s.stream.maxFrame (s.stream.pending ++ chunks.flatten) s.host)
      (receive (chunks.map .ok ++ (failure.map .error).toList) s) := by
  induction chunks generalizing s done with
  | nil =>
    have hreceive : receive (([] : List Bytes).map .ok ++ (failure.map .error).toList) s =
        (handleArrived >>= fun closed => if closed then pure ⟨⟩ else endOfStream) s := by
      cases failure <;> rfl
    rw [hreceive]
    refine follows_of_arrived hwell hsummary (fun _ => rfl) fun host frames t _ _ hfirst => ?_
    rw [List.flatten_nil, List.append_nil, if_neg Bool.false_ne_true,
      endOfStream, Step.get_bind, finish_eq hfirst]
    simp only [Host.replay, Frame.all_of_none hfirst]
    by_cases hempty : t.pending = []
    · rw [if_pos hempty, if_pos hempty]
      have hend : Follows (done ++ frames) _ _ := .ok [] false host t
      rw [List.append_nil] at hend
      exact hend
    · rw [if_neg hempty, if_neg hempty]
      exact .error _ host t _
  | cons chunk chunks ih =>
    change Follows done _ ((handleArrived >>= fun closed => if closed then pure ⟨⟩ else do
      modify fun s => { s with stream := s.stream.push chunk }
      receive (chunks.map .ok ++ (failure.map .error).toList)) s)
    refine follows_of_arrived hwell hsummary (fun _ => rfl) fun host frames t hwell' _ _ => ?_
    have hrest := ih (s := ⟨host, t.push chunk, .count (done ++ frames)⟩)
      (FrameStream.wellFormed_push hwell' chunk) rfl
    rw [if_neg Bool.false_ne_true, Step.modify_bind, List.flatten_cons, ← List.append_assoc,
      ← FrameStream.pending_push t chunk hwell', ← FrameStream.maxFrame_push t chunk]
    exact hrest

/-- A session ends as its bytes say. -/
private theorem outcome_of_follows {registry : Registry σ} {state : σ} {maxFrame maxFreed : Nat}
    {bs : Bytes} {arrivals : List (Except TransportError Bytes)}
    (h : Follows [] (Host.replay maxFrame bs (.start registry state maxFreed))
      (receive arrivals (start registry state maxFrame maxFreed))) :
    ((start registry state maxFrame maxFreed).run arrivals).1 =
        (Host.outcome maxFrame bs (.start registry state maxFreed)).1 ∧
      ((start registry state maxFrame maxFreed).run arrivals).2.host =
        (Host.outcome maxFrame bs (.start registry state maxFreed)).2 := by
  unfold run Host.outcome
  generalize Host.replay maxFrame bs (.start registry state maxFreed) = x at h
  generalize receive arrivals (start registry state maxFrame maxFreed) = y at h
  cases h with
  | ok acted closed host stream => exact ⟨rfl, rfl⟩
  | error e host stream summary => exact ⟨rfl, rfl⟩

/-- The bytes that arrive before the stream ends or fails. -/
def arrived : List (Except TransportError Bytes) → Bytes
  | .ok chunk :: rest => chunk ++ arrived rest
  | _ => []

/-- Nothing is taken from a transport that has failed. -/
private theorem exists_receive_eq (arrivals : List (Except TransportError Bytes)) :
    ∃ (chunks : List Bytes) (failure : Option TransportError),
      arrived arrivals = chunks.flatten ∧ ∀ s : Session σ,
        receive arrivals s = receive (chunks.map .ok ++ (failure.map .error).toList) s := by
  induction arrivals with
  | nil => exact ⟨[], none, rfl, fun _ => rfl⟩
  | cons arrival arrivals ih =>
    cases arrival with
    | error e => exact ⟨[], some e, rfl, fun _ => rfl⟩
    | ok chunk =>
      obtain ⟨chunks, failure, hbytes, hreceive⟩ := ih
      refine ⟨chunk :: chunks, failure, by rw [arrived, hbytes, List.flatten_cons], fun s => ?_⟩
      rw [List.map_cons, List.cons_append, receive, receive, funext hreceive]

/-- Whatever a transport delivers, the session does to its host what the bytes ask for that have
arrived in all, and ends as they say. -/
theorem run_arrived (registry : Registry σ) (state : σ) (maxFrame maxFreed : Nat)
    (arrivals : List (Except TransportError Bytes)) :
    let ended := (start registry state maxFrame maxFreed).run arrivals
    (ended.1, ended.2.host) =
      (Host.start registry state maxFreed).outcome maxFrame (arrived arrivals) := by
  obtain ⟨chunks, failure, hbytes, hreceive⟩ := exists_receive_eq (σ := σ) arrivals
  have hwell : (start registry state maxFrame maxFreed).stream.WellFormed := Nat.le_refl 0
  have hfollows : Follows [] _ (receive (chunks.map .ok ++ (failure.map .error).toList) _) :=
    receive_follows failure hwell rfl
  rw [← hreceive, ← hbytes] at hfollows
  obtain ⟨hresult, hhost⟩ := outcome_of_follows hfollows
  exact Prod.ext hresult hhost

/-- **The outcome of a session.** However the stream was cut into chunks, and whether it ends or
fails, the session does to its host what the bytes ask for, and ends as they say. The state of the
host is what its analyses made of all calls that they got, in order. What stands where a whole frame
should reaches no analysis: the messages before it are acted on, and the session fails. What comes
behind a message that closes the session has no effect. -/
theorem run_eq_outcome (registry : Registry σ) (state : σ) (maxFrame maxFreed : Nat)
    (chunks : List Bytes) (failure : Option TransportError) :
    let host := Host.start registry state maxFreed
    let ended := (start registry state maxFrame maxFreed).run
      (chunks.map .ok ++ (failure.map .error).toList)
    (ended.1, ended.2.host) = host.outcome maxFrame chunks.flatten ∧
      (∀ (ms : List Message) (es : List Bytes) (rest : Bytes),
        List.Forall₂ (fun m e => m.toBytes = .ok e) ms es →
        (∀ e ∈ es, e.length ≤ Message.headSize + maxFrame) → .close ∉ ms → rest ≠ [] →
        (∀ found, Frame.first maxFrame rest ≠ .ok (some found)) →
        chunks.flatten = es.flatten ++ rest →
        (∃ e, ended.1 = .error e) ∧
          ended.2.host = Step.final (Host.actAll (ms.flatMap Message.actions) host)) ∧
      (∀ (ms : List Message) (es : List Bytes) (behind : Bytes),
        List.Forall₂ (fun m e => m.toBytes = .ok e) ms es →
        (∀ e ∈ es, e.length ≤ Message.headSize + maxFrame) → .close ∈ ms →
        chunks.flatten = es.flatten ++ behind →
        (ended.1, ended.2.host) = host.outcome maxFrame es.flatten) := by
  intro host ended
  have hwell : (start registry state maxFrame maxFreed).stream.WellFormed := Nat.le_refl 0
  obtain ⟨hresult, hhost⟩ := outcome_of_follows (receive_follows failure hwell rfl)
  have hended : (ended.1, ended.2.host) = host.outcome maxFrame chunks.flatten :=
    Prod.ext hresult hhost
  refine ⟨hended, fun ms es rest hes hmax hopen hsome hnone hbytes => ?_,
    fun ms es behind hes hmax hclose hbytes => ?_⟩
  · obtain ⟨e, he⟩ := Host.replay_append_of_no_frame hes hmax hopen hsome hnone host
    rw [hbytes, Host.outcome, he] at hended
    exact ⟨⟨e, congrArg (·.1) hended⟩, congrArg (·.2) hended⟩
  · obtain ⟨frames, hall, rfl, -⟩ := Frame.all_of_toBytes hes hmax
    have hcloses : Frame.closes (Frame.all maxFrame es.flatten).1 = true := by
      obtain ⟨frame, hmem, heq⟩ := List.mem_map.1 hclose
      rw [hall]
      exact List.any_eq_true.2 ⟨frame, hmem, decide_eq_true heq⟩
    rw [hended, hbytes, Host.outcome, Host.replay_append_of_closes behind hcloses]
    rfl

/-- The frame of the second record of the short session, broken off. -/
def brokenOff : Bytes := [1, 16, 0, 0, 0, 7, 0, 0, 0, 0, 0, 0, 0, 1, 0, 0, 0]

/-- The short session in two chunks, broken off within its third frame. -/
def brokenOffChunks : List Bytes :=
  [(Run.twoThreadsFrames.take 2).flatten.take 30,
    (Run.twoThreadsFrames.take 2).flatten.drop 30 ++ brokenOff]

theorem run_eq_outcome_brokenOff :
    let ended := (start Run.canvasRegistry {} 64 8).run
      (brokenOffChunks.map .ok ++ ((some TransportError.closed).map .error).toList)
    brokenOffChunks.flatten = (Run.twoThreadsFrames.take 2).flatten ++ brokenOff ∧
      (∃ e, ended.1 = .error e) ∧ ended.2.host.state.calls.toList = [("draw", 1)] := by
  intro ended
  have hes : List.Forall₂ (fun (m : Message) e => m.toBytes = .ok e)
      [.registerMethod 1 "canvas.draw", .analyze 256 [⟨1, [.int 3]⟩]]
      (Run.twoThreadsFrames.take 2) := by
    refine .cons ?_ (.cons ?_ .nil)
    · decide +kernel
    · decide +kernel
  have hsome : brokenOff ≠ [] := List.cons_ne_nil _ _
  have hfirst : Frame.first 64 brokenOff = .ok none := by cbv
  have hnone : ∀ found, Frame.first 64 brokenOff ≠ .ok (some found) := by
    intro found hfound
    cases hfirst.symm.trans hfound
  have hbytes : brokenOffChunks.flatten =
      (Run.twoThreadsFrames.take 2).flatten ++ brokenOff := by
    decide +kernel
  obtain ⟨herror, hhost⟩ := (run_eq_outcome Run.canvasRegistry {} 64 8 brokenOffChunks
    (some .closed)).2.1 _ _ _ hes (by decide +kernel) (by decide +kernel) hsome hnone hbytes
  refine ⟨hbytes, herror, ?_⟩
  rw [hhost]
  decide +kernel

end Session

end TraceRelay
