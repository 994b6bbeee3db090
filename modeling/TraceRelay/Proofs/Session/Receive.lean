import TraceRelay.Proofs.Session.Handle
import TraceRelay.Proofs.Stream.Frames

/-!
# Sessions that are closed

A session is given chunks of a stream that ends with a message that closes it. If the messages
before that one announce their methods in time, under numbers that can be bound, the session acts on
all of them, wherever the chunks were cut, and counts them.

## Main definitions

* `Frame.announced` : the methods that frames announce.
* `Summary.count` : what is counted of frames.
* `Session.Acted`, `Session.Expects` : a session that has acted on frames, and frames that it can
  act on.

## Main results

* `Session.handleAll_yields` : the frames that have arrived.
* `Session.receive_yields` : a whole stream.
-/

namespace TraceRelay

/-- The methods that frames announce. -/
def Frame.announced (frames : List Frame) : List (MethodId × String) :=
  frames.filterMap fun frame => frame.message.announces?

/-- What is counted of frames. -/
def Summary.count (frames : List Frame) : Summary where
  events := (frames.flatMap fun frame => frame.message.records).length
  registrations := (Frame.announced frames).length
  threadEnds := frames.countP fun frame => frame.message.endsThread
  bytes := (frames.map fun frame => frame.wireSize).sum

theorem Frame.announced_append (fs gs : List Frame) :
    announced (fs ++ gs) = announced fs ++ announced gs :=
  List.filterMap_append

theorem Frame.announced_concat (fs : List Frame) (frame : Frame) :
    announced (fs ++ [frame]) = announced fs ++ frame.message.announces?.toList :=
  filterMap_concat _ fs frame

theorem Summary.count_concat (fs : List Frame) (frame : Frame) :
    count (fs ++ [frame]) =
      note frame.message { count fs with bytes := (count fs).bytes + frame.wireSize } := by
  have hends : ([frame].countP fun f => f.message.endsThread) = frame.message.endsThread.toNat := by
    cases h : frame.message.endsThread
    · exact List.countP_cons_of_neg (by rw [h]; exact Bool.false_ne_true)
    · exact List.countP_cons_of_pos h
  unfold count note
  rw [List.flatMap_append, List.flatMap_singleton, List.length_append, Frame.announced_concat,
    List.length_append, List.countP_append, hends, List.map_append, List.sum_append,
    List.map_singleton, List.sum_singleton]

namespace Session

variable {σ : Type} {registry : Registry σ} {done : List Frame} {s : Session σ}

/-- A session has acted on frames. -/
structure Acted (registry : Registry σ) (done : List Frame) (s : Session σ) : Prop where
  same : registry.SameAnalyses s.host.registry
  bound : ∀ id name, (id, name) ∈ Frame.announced done →
    ∃ b, s.host.registry.binding? id = some b
  other : ∀ id, (∀ name, (id, name) ∉ Frame.announced done) →
    s.host.registry.binding? id = registry.binding? id
  summary : s.summary = .count done

/-- Frames on which a session can act when it has acted on others: they announce their methods in
time, under numbers that can be bound and are not used twice, and do not close the session. -/
structure Expects (registry : Registry σ) (done frames : List Frame) : Prop where
  inOrder : Message.InOrder (Frame.announced done) (frames.map fun frame => frame.message)
  distinct : ((Frame.announced (done ++ frames)).map (·.1)).Nodup
  accepted : ∀ id name, (id, name) ∈ Frame.announced frames →
    id ≠ 0 ∧ registry.Accepts id name
  noClose : ∀ frame ∈ frames, frame.message ≠ .close

theorem Expects.append {fs gs : List Frame} (h : Expects registry done (fs ++ gs)) :
    Expects registry done fs ∧ Expects registry (done ++ fs) gs := by
  obtain ⟨hinOrder, hdistinct, haccepted, hnoClose⟩ := h
  rw [List.map_append, Message.inOrder_append, List.filterMap_map] at hinOrder
  rw [← List.append_assoc] at hdistinct
  have hfront := hdistinct
  rw [Frame.announced_append, List.map_append] at hfront
  rw [Frame.announced_append] at haccepted
  refine ⟨⟨hinOrder.1, hfront.of_append_left, fun id name hmem => ?_, fun frame hmem => ?_⟩,
    ⟨?_, hdistinct, fun id name hmem => ?_, fun frame hmem => ?_⟩⟩
  · exact haccepted id name (List.mem_append_left _ hmem)
  · exact hnoClose frame (List.mem_append_left _ hmem)
  · rw [Frame.announced_append]
    exact hinOrder.2
  · exact haccepted id name (List.mem_append_right _ hmem)
  · exact hnoClose frame (List.mem_append_right _ hmem)

/-- One frame. -/
private theorem handle_frame {frame : Frame} (h : s.Acted registry done)
    (hexpects : Expects registry done [frame]) (hnothing : registry.RefusesNothing) :
    Yields (fun closed s' => closed = false ∧ s'.Acted registry (done ++ [frame]))
      (handle frame.message { s with
        summary := { s.summary with bytes := s.summary.bytes + frame.wireSize } }) := by
  have hfree {id : MethodId} {name : String} (hsome : frame.message.announces? = some (id, name)) :
      ∀ other, (id, other) ∉ Frame.announced done := fun other hmem => by
    have hdistinct := hexpects.distinct
    rw [Frame.announced_concat, hsome, Option.toList_some, List.map_append] at hdistinct
    exact List.disjoint_of_nodup_append hdistinct (List.mem_map_of_mem hmem)
      (List.mem_singleton_self id)
  have hmem {id : MethodId} {name : String} (hsome : frame.message.announces? = some (id, name)) :
      (id, name) ∈ Frame.announced [frame] :=
    List.mem_filterMap.2 ⟨frame, List.mem_singleton_self frame, hsome⟩
  refine (handle_yields (s := { s with
      summary := { s.summary with bytes := s.summary.bytes + frame.wireSize } })
    (hexpects.noClose frame (List.mem_singleton_self frame))
    (h.same.refusesNothing hnothing) (fun r hr => ?_) fun id name hsome => ?_).mono ?_
  · obtain ⟨name, hname⟩ := hexpects.inOrder.1 r hr
    exact h.bound r.method name hname
  · obtain ⟨hid, haccepts⟩ := hexpects.accepted id name (hmem hsome)
    exact ⟨hid, h.same.accepts (h.other id (hfree hsome)) haccepts⟩
  · rintro closed s' ⟨hclosed, hsummary, hbinds⟩
    refine ⟨hclosed, ⟨hbinds.same.installed.trans h.same.installed,
      hbinds.same.positions.trans h.same.positions⟩, fun id name hname => ?_, fun id hnone => ?_,
      ?_⟩
    · by_cases hsome : ∃ name', frame.message.announces? = some (id, name')
      · obtain ⟨name', hname'⟩ := hsome
        exact hbinds.bound id name' hname'
      · have hsame := hbinds.other id fun name' hname' => hsome ⟨name', hname'⟩
        rw [Frame.announced_concat] at hname
        rw [hsame]
        rcases List.mem_append.1 hname with hold | hnew
        · exact h.bound id name hold
        · exact absurd ⟨name, Option.mem_toList.1 hnew⟩ hsome
    · rw [Frame.announced_concat] at hnone
      have hsame := hbinds.other id fun name hname =>
        hnone name (List.mem_append_right _ (Option.mem_toList.2 hname))
      rw [hsame]
      exact h.other id fun name hname => hnone name (List.mem_append_left _ hname)
    · rw [hsummary, h.summary, Summary.count_concat]

/-- Frames none of which closes the session, and what comes after them. -/
private theorem handleAll_append_yields {frames behind : List Frame} (h : s.Acted registry done)
    (hexpects : Expects registry done frames) (hnothing : registry.RefusesNothing)
    {good : Bool → Session σ → Prop}
    (hbehind : ∀ s', s'.Acted registry (done ++ frames) → Yields good (handleAll behind s')) :
    Yields good (handleAll (frames ++ behind) s) := by
  induction frames generalizing done s with
  | nil =>
    rw [List.append_nil] at hbehind
    exact hbehind s h
  | cons frame frames ih =>
    have hsplit : Expects registry done ([frame] ++ frames) := hexpects
    obtain ⟨hfirst, hrest⟩ := hsplit.append
    rw [List.cons_append]
    unfold handleAll tally
    rw [Step.modify_bind]
    refine (handle_frame h hfirst hnothing).bind fun closed s' ⟨hclosed, hs'⟩ => ?_
    rw [hclosed]
    refine ih hs' hrest fun s'' hs'' => hbehind s'' ?_
    rw [List.append_cons]
    exact hs''

/-- **The frames that have arrived**, none of which closes the session. -/
theorem handleAll_yields {frames : List Frame} (h : s.Acted registry done)
    (hexpects : Expects registry done frames) (hnothing : registry.RefusesNothing) :
    Yields (fun closed s' => closed = false ∧ s'.Acted registry (done ++ frames))
      (handleAll frames s) := by
  rw [← List.append_nil frames]
  refine handleAll_append_yields h hexpects hnothing fun s' hs' => ?_
  rw [List.append_nil]
  exact .ok ⟨rfl, hs'⟩

/-- The frames before one that closes the session, and that one. -/
theorem handleAll_yields_close {frames : List Frame} {last : Frame} (h : s.Acted registry done)
    (hexpects : Expects registry done frames) (hnothing : registry.RefusesNothing)
    (hlast : last.message = .close) :
    Yields (fun closed s' => closed = true ∧
      s'.summary = { Summary.count (done ++ (frames ++ [last])) with closedCleanly := true })
      (handleAll (frames ++ [last]) s) := by
  refine handleAll_append_yields h hexpects hnothing fun s' hs' => ?_
  have hclose : handleAll [last] s' = .ok true { s' with
      summary := { s'.summary with
        bytes := s'.summary.bytes + last.wireSize
        closedCleanly := true } } := by
    obtain ⟨message, wireSize⟩ := last
    have hmessage : message = .close := hlast
    subst hmessage
    rfl
  rw [hclose, ← List.append_assoc, Summary.count_concat, hlast, hs'.summary]
  exact .ok ⟨rfl, rfl⟩

/-! ### What messages leave alone -/

private theorem keeps_onHost {α : Type} (t : FrameStream)
    (step : EStateM SessionError (Host σ) α) :
    Step.Keeps (fun s : Session σ => s.stream = t) (onHost step) := by
  rintro ⟨host, stream, summary⟩ h
  simp only [onHost]
  cases step host <;> exact h

private theorem keeps_deliverAll (t : FrameStream) (ordering : UInt64) (rs : List Record) :
    Step.Keeps (fun s : Session σ => s.stream = t) (deliverAll ordering rs) := by
  induction rs with
  | nil => exact .pure _
  | cons r rs ih => exact .bind (keeps_onHost t _) fun _ => .bind (.modify fun _ h => h) fun _ => ih

private theorem keeps_handle (t : FrameStream) (m : Message) :
    Step.Keeps (fun s : Session σ => s.stream = t) (handle m) := by
  cases m with
  | close => exact .pure _
  | analyze ordering records => exact .bind (keeps_deliverAll t ordering records) fun _ => .pure _
  | objectFree | threadEnd => exact .bind (.modify fun _ h => h) fun _ => .pure _
  | registerMethod =>
    exact .bind (keeps_onHost t _) fun _ => .bind (.modify fun _ h => h) fun _ => .pure _
  | classInfo | stringInfo | threadInfo => exact .bind (keeps_onHost t _) fun _ => .pure _

/-- Messages do not touch what has arrived. -/
private theorem keeps_handleAll (t : FrameStream) (frames : List Frame) :
    Step.Keeps (fun s : Session σ => s.stream = t) (handleAll frames) := by
  induction frames with
  | nil => exact .pure _
  | cons frame frames ih =>
    refine .bind (.modify fun _ h => h) fun _ => .bind (keeps_handle t _) fun closed => ?_
    cases closed with
    | true => exact .bind (.modify fun _ h => h) fun _ => .pure _
    | false => exact ih

/-! ### What arrives -/

/-- The frames that have arrived, if there is no fault among them. -/
private theorem handleArrived_eq {frames : List Frame} {t : FrameStream}
    (h : s.stream.drain = (frames, none, t)) :
    handleArrived s = handleAll frames { s with stream := t } := by
  rw [handleArrived, Step.get_bind, h]
  dsimp only
  rw [Step.modify_bind]
  cases hall : handleAll frames { s with stream := t } with
  | error e s' => rw [Step.bind_of_error hall]
  | ok closed s' =>
    rw [Step.bind_of_ok hall]
    cases closed <;> rfl

/-- What has arrived is acted on before anything else happens. -/
private theorem receive_eq (arrivals : List (Except TransportError Bytes)) :
    ∃ more : EStateM SessionError (Session σ) Unit, ∀ s, receive arrivals s =
      (do if ← handleArrived then return else more) s := by
  match arrivals with
  | .ok chunk :: rest => exact ⟨_, fun _ => rfl⟩
  | .error e :: rest => exact ⟨_, fun _ => rfl⟩
  | [] => exact ⟨_, fun _ => rfl⟩

/-- What has arrived is a front part of the stream: all of it, or some frames and a part of another
one. -/
private theorem all_cases {maxFrame : Nat} {arrived more : Bytes} {frames : List Frame}
    {last : Frame} (h : Frame.all maxFrame (arrived ++ more) = (frames ++ [last], none, [])) :
    (Frame.all maxFrame arrived).2.1 = none ∧
      ((Frame.all maxFrame arrived).1 = frames ++ [last] ∨ ∃ fs gs, frames = fs ++ gs ∧
        (Frame.all maxFrame arrived).1 = fs ∧
        Frame.all maxFrame ((Frame.all maxFrame arrived).2.2 ++ more) =
          (gs ++ [last], none, [])) := by
  have hnone : (Frame.all maxFrame arrived).2.1 = none := by
    cases hfault : (Frame.all maxFrame arrived).2.1 with
    | none => rfl
    | some e =>
      have hsame := (Frame.all_append_of_fault more hfault).2
      rw [h] at hsame
      cases hsame
  refine ⟨hnone, ?_⟩
  rw [Frame.all_append_of_none more hnone] at h
  obtain ⟨hframes, hrest⟩ := Prod.mk.inj h
  rcases List.eq_nil_or_concat
    (Frame.all maxFrame ((Frame.all maxFrame arrived).2.2 ++ more)).1 with hnil | ⟨gs, frame, hgs⟩
  · rw [hnil, List.append_nil] at hframes
    exact .inl hframes
  · rw [hgs, List.concat_eq_append, ← List.append_assoc] at hframes
    obtain ⟨hfront, hlast⟩ := List.append_inj' hframes rfl
    refine .inr ⟨_, gs, hfront.symm, rfl, ?_⟩
    rw [List.concat_eq_append, hlast] at hgs
    exact Prod.ext hgs hrest

/-- A session of which the stream has arrived to its end. -/
private theorem receive_of_closed {frames : List Frame} {last : Frame}
    (arrivals : List (Except TransportError Bytes)) (h : s.Acted registry done)
    (hwell : s.stream.WellFormed) (hexpects : Expects registry done frames)
    (hnothing : registry.RefusesNothing) (hlast : last.message = .close)
    (hnone : (Frame.all s.stream.maxFrame s.stream.pending).2.1 = none)
    (hall : (Frame.all s.stream.maxFrame s.stream.pending).1 = frames ++ [last]) :
    Yields (fun _ s' =>
      s'.summary = { Summary.count (done ++ (frames ++ [last])) with closedCleanly := true })
      (receive arrivals s) := by
  obtain ⟨hframes, hfault, -⟩ := FrameStream.drain_spec hwell
  rcases hdrain : s.stream.drain with ⟨arrived, fault, t⟩
  rw [hdrain] at hframes hfault
  simp only at hframes hfault
  rw [hnone] at hfault
  rw [hall] at hframes
  subst hframes hfault
  obtain ⟨more, hmore⟩ := receive_eq arrivals
  have hclose := handleAll_yields_close (s := { s with stream := t }) { h with } hexpects hnothing
    hlast
  rw [← handleArrived_eq hdrain] at hclose
  rw [hmore]
  refine hclose.bind fun closed s' ⟨hclosed, hs'⟩ => ?_
  rw [hclosed]
  exact .ok hs'

/-- A session acts on a whole stream, up to the frame that closes it. -/
theorem receive_yields {frames : List Frame} {last : Frame} {chunks : List Bytes}
    (rest : List (Except TransportError Bytes)) (h : s.Acted registry done)
    (hwell : s.stream.WellFormed) (hexpects : Expects registry done frames)
    (hnothing : registry.RefusesNothing) (hlast : last.message = .close)
    (hall : Frame.all s.stream.maxFrame (s.stream.pending ++ chunks.flatten) =
      (frames ++ [last], none, [])) :
    Yields (fun _ s' =>
      s'.summary = { Summary.count (done ++ (frames ++ [last])) with closedCleanly := true })
      (receive (chunks.map .ok ++ rest) s) := by
  induction chunks generalizing s done frames with
  | nil =>
    rw [List.flatten_nil, List.append_nil] at hall
    exact receive_of_closed _ h hwell hexpects hnothing hlast (by rw [hall]) (by rw [hall])
  | cons chunk chunks ih =>
    obtain ⟨hnone, hclosed | ⟨fs, gs, rfl, hfs, hmore⟩⟩ := all_cases hall
    · exact receive_of_closed _ h hwell hexpects hnothing hlast hnone hclosed
    obtain ⟨hframes, hfault, hpending, hmax, hwell'⟩ := FrameStream.drain_spec hwell
    rcases hdrain : s.stream.drain with ⟨arrived, fault, t⟩
    rw [hdrain] at hframes hfault hpending hmax hwell'
    simp only at hframes hfault hpending hmax hwell'
    rw [hnone] at hfault
    rw [hfs] at hframes
    subst hframes hfault
    obtain ⟨hfront, hback⟩ := hexpects.append
    have hfirst := (handleAll_yields (s := { s with stream := t }) { h with } hfront
      hnothing).and_keeps (keeps_handleAll t _) rfl
    rw [← handleArrived_eq hdrain] at hfirst
    rw [List.append_assoc, ← List.append_assoc done]
    change Yields _ ((handleArrived >>= fun closed => if closed then pure ⟨⟩ else do
      modify fun s => { s with stream := s.stream.push chunk }
      receive (chunks.map .ok ++ rest)) s)
    refine hfirst.bind fun closed s' ⟨⟨hclosed, hs'⟩, hstream⟩ => ?_
    rw [hclosed]
    have hwell'' : (s'.stream.push chunk).WellFormed := by
      rw [hstream]
      exact FrameStream.wellFormed_push hwell' chunk
    refine ih (s := { s' with stream := s'.stream.push chunk }) { hs' with } hwell'' hback ?_
    rw [hstream, FrameStream.maxFrame_push, hmax, FrameStream.pending_push t chunk hwell', hpending,
      List.append_assoc]
    exact hmore

end Session

end TraceRelay
