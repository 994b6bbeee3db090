import Mathlib.Data.List.Induction
import TraceRelay.Proofs.Client.Ended
import TraceRelay.Proofs.Client.Late
import TraceRelay.Proofs.Client.Outline

/-!
# The chronicle of a session

A session goes from turn to turn: calls are made, the sender runs, and the session is ended. Some
calls fail, and the transport may do so as well. All the time it can be told which messages went to
the outbox, whether they were sent or not, and of which threads the records are that they carry.

## Main definitions

* `Run.enqueued`, `Run.Enqueued` : the frames that went to the outbox, and their messages.
* `Run.Emitted` : the records that were accepted, each with the thread that it is of.
* `Run.Left` : threads that are gone, and the streams that they had.
* `Run.Overflows` : calls that fail because records are too large.
* `Run.InOrder`, `Run.Chronicle` : what holds of a session at any time.

## Main results

* `Run.intact_step`, `Run.InOrder.concat` : each call and each turn keep the streams in order.
* `Run.chronicle` : all sessions have a chronicle.
-/

namespace TraceRelay

/-- The sender takes frames from the front. -/
theorem Outbox.exists_pump (deliver : Nat → Delivery) (o : Outbox) (past : List Bytes) :
    ∃ past', past' ++ (o.pump deliver).2.waiting.toList = past ++ o.waiting.toList := by
  obtain ⟨front, hfront⟩ := waiting_pump deliver o
  refine ⟨past ++ front, ?_⟩
  rw [List.append_assoc, hfront]

namespace Client

variable {c c' : Client} {gone silent : Nat → Prop} {given : StreamRef → Record → Prop}
  {past : List Bytes}

/-- The sender takes frames out of the outbox, and does nothing else. -/
theorem Intact.runSender (h : c.Intact gone given silent past) (deliver : Nat → Delivery) :
    ∃ past', past' ++ (c.runSender deliver).2.outbox.waiting.toList =
        past ++ c.outbox.waiting.toList ∧
      (c.runSender deliver).2.Intact gone given silent past' := by
  obtain ⟨past', hframes⟩ := Outbox.exists_pump deliver c.outbox past
  have hsame : c.SameStreams (c.runSender deliver).2 := ⟨rfl, rfl, rfl⟩
  exact ⟨past', hframes, h.sent hsame h.1.frees hframes⟩

/-- The end of a session, once all streams have ended: frames leave the outbox, which accepts no
more. -/
theorem shutdown_streams (hending : c.ending = false) {deliver : Nat → Delivery}
    {answer : Except ClientError Unit} {out : List Bytes}
    (hshutdown : c.shutdown deliver = (answer, out, c')) :
    ∃ d, d = Step.final (closeAll { c with ending := true, closed := true }) ∧
      d.SameStreams c' ∧ c'.frees = d.frees ∧ c'.outbox.accepting = false ∧
      ∀ past, ∃ past', past' ++ c'.outbox.waiting.toList = past ++ d.outbox.waiting.toList := by
  obtain ⟨d, hd, -, hfinal⟩ := shutdown_final hending hshutdown
  refine ⟨d, hd, ?_⟩
  rcases hfinal with ⟨rfl, -⟩ | rfl
  · refine ⟨⟨rfl, rfl, rfl⟩, rfl, ?_, Outbox.exists_pump deliver d.outbox.close⟩
    rcases Outbox.pump_cases deliver d.outbox.close with ⟨-, hno⟩ | ⟨-, hno⟩ <;> exact hno
  · exact ⟨⟨rfl, rfl, rfl⟩, rfl, rfl, fun past => ⟨_, List.append_nil _⟩⟩

/-- At the end of a session all that is held back goes to the outbox, and from there to the
transport. -/
theorem Intact.shutdown (h : c.Intact gone given silent past) (hending : c.ending = false)
    {deliver : Nat → Delivery} {answer : Except ClientError Unit} {out : List Bytes}
    (hshutdown : c.shutdown deliver = (answer, out, c')) :
    ∃ past', past' ++ c'.outbox.waiting.toList = past ++ (Step.final
        (Client.closeAll { c with ending := true, closed := true })).outbox.waiting.toList ∧
      c'.Intact gone given silent past' := by
  obtain ⟨d, hd, hsame, hfrees, hno, hframes⟩ := shutdown_streams hending hshutdown
  have hmarked : Intact gone given silent past { c with ending := true, closed := true } :=
    h.same ⟨rfl, rfl, rfl⟩ h.1.frees rfl
  have hdrained : d.Intact gone given silent past := hd ▸ hmarked.closeAll
  obtain ⟨past', hframes⟩ := hframes past
  rw [← hd]
  exact ⟨past', hframes, hdrained.sent hsame (hfrees ▸ hdrained.1.frees) hframes⟩

end Client

namespace Run

variable {r : Run} {gone silent : Nat → Prop} {given : StreamRef → Record → Prop}
  {past : List Bytes}

/-! ### What happened -/

/-- The frames that a turn puts into the outbox. -/
def enqueuedBy (r : Run) : Turn → List Bytes
  | .call (.runSender _) => []
  | .call call =>
    (r.step call).client.outbox.waiting.toList.drop r.client.outbox.waiting.toList.length
  | .shutdown _ =>
    if r.client.ending then []
    else (Step.final (Client.closeAll { r.client with ending := true, closed := true })).outbox
      |>.waiting.toList.drop r.client.outbox.waiting.toList.length

/-- The frames that went to the outbox in one turn after the other, first to last. -/
def enqueued (r : Run) : List Turn → List Bytes
  | [] => []
  | t :: ts => r.enqueuedBy t ++ (r.turn t).enqueued ts

/-- The messages that went to the outbox from the beginning of a session. -/
def Enqueued (settings : ClientSettings) (ts : List Turn) (ms : List Message) : Prop :=
  List.Forall₂ (fun (m : Message) frame => m.toBytes = .ok frame) ms
    ((after settings []).enqueued ts)

/-- A turn in which a record of a thread is accepted on a stream. -/
def Emits (r : Run) (t : Turn) (thread : ThreadId) (ref : StreamRef) (record : Record) : Prop :=
  ∃ call, t = .call call ∧ call.thread? = some thread ∧
    (r.step call).accepted = r.accepted ++ [(ref, record)]

/-- A call that fails because records are too large for a frame. -/
def Overflows (r : Run) (t : Turn) : Prop :=
  ∃ call, t = .call call ∧ (r.step call).faults = r.faults ++ [.wire .batchTooLarge]

/-- A record of a thread was accepted on a stream. -/
def Emitted (settings : ClientSettings) (ts : List Turn) (thread : ThreadId) (ref : StreamRef)
    (record : Record) : Prop :=
  ∃ earlier t later, ts = earlier ++ t :: later ∧
    (after settings earlier).Emits t thread ref record

/-- A thread is gone that had a stream. -/
def Left (settings : ClientSettings) (ts : List Turn) (thread : ThreadId) (p : Nat) : Prop :=
  ∃ earlier later, ts = earlier ++ .call (.threadGone thread) :: later ∧
    (after settings earlier).client.streamOf[thread]? = some p

theorem enqueued_append (r : Run) (ts ts' : List Turn) :
    r.enqueued (ts ++ ts') = r.enqueued ts ++ (r.turns ts).enqueued ts' := by
  induction ts generalizing r with
  | nil => rfl
  | cons t ts ih =>
    rw [List.cons_append, enqueued, ih, enqueued, List.append_assoc]
    rfl

theorem after_concat (settings : ClientSettings) (ts : List Turn) (t : Turn) :
    after settings (ts ++ [t]) = (after settings ts).turn t := after_append settings ts [t]

theorem enqueued_concat (settings : ClientSettings) (ts : List Turn) (t : Turn) :
    (after settings []).enqueued (ts ++ [t]) =
      (after settings []).enqueued ts ++ (after settings ts).enqueuedBy t := by
  rw [enqueued_append, enqueued, enqueued, List.append_nil]
  rfl

/-- What held of an earlier part of a session for a record holds later. -/
theorem Emitted.concat {settings : ClientSettings} {ts : List Turn} {thread : ThreadId}
    {ref : StreamRef} {record : Record} (h : Emitted settings ts thread ref record) (t : Turn) :
    Emitted settings (ts ++ [t]) thread ref record := by
  obtain ⟨earlier, t', later, rfl, hemits⟩ := h
  exact ⟨earlier, t', later ++ [t], by rw [List.append_assoc]; rfl, hemits⟩

/-! ### One call -/

/-- The records under way hold the arguments that they were given. -/
def DraftsHold (r : Run) : Prop :=
  ∀ n d, r.drafts n = some d → d.writer.fault = none → d.writer.record.Holds ⟨d.method, d.args⟩

private theorem draftsHold_perform {α : Type} {call : EStateM ClientError Client α}
    {note : α → Run → Run} (hnote : ∀ a r, (note a r).drafts = r.drafts) (h : r.DraftsHold) :
    (r.perform call note).DraftsHold := by
  unfold perform
  cases call r.client with
  | error e c => exact h
  | ok a c =>
    intro n d hd
    dsimp only at hd
    rw [hnote] at hd
    exact h n d hd

private theorem DraftsHold.setDraft (h : r.DraftsHold) (n : Nat) {new : Option Draft}
    (hnew : ∀ d, new = some d → d.writer.fault = none → d.writer.record.Holds ⟨d.method, d.args⟩) :
    (r.setDraft n new).DraftsHold := by
  intro m d hd
  unfold Run.setDraft at hd
  dsimp only at hd
  split at hd
  · exact hnew d hd
  · exact h m d hd

private theorem DraftsHold.dropDraft (h : r.DraftsHold) (n : Nat) :
    (r.setDraft n none).DraftsHold := h.setDraft n fun _ hnone => by cases hnone

theorem DraftsHold.step (h : r.DraftsHold) (call : Call) : (r.step call).DraftsHold := by
  cases call with
  | threadGone | runSender => exact h
  | discard n => exact h.dropDraft n
  | send n v =>
    refine h.setDraft n fun d hd => ?_
    obtain ⟨d, hold, rfl⟩ := Option.map_eq_some_iff.1 hd
    exact (EventWriter.send_of_holds (h n d hold) v).1
  | «begin» n id ordering =>
    rw [Run.step]
    unfold perform
    rcases Client.beginEvent_cases id ordering r.client with hbegin | ⟨e, hbegin⟩ <;> rw [hbegin]
    · refine DraftsHold.setDraft (r := { r with client := r.client }) h n fun d hd _ => ?_
      cases hd
      exact RecordBuilder.holds_start id
    · exact h
  | finish thread n =>
    cases hd : r.drafts n with
    | none => rwa [step_finish_of_none hd]
    | some d =>
      rw [step_finish_of_some hd]
      exact draftsHold_perform (fun _ _ => rfl) (h.dropDraft n)
  | _ => exact draftsHold_perform (fun _ _ => rfl) h

/-- A record that was taken is accepted. -/
private theorem giving_emits {call : EStateM ClientError Client Unit} (name : Call)
    {thread : ThreadId} {ref : StreamRef} {record : Record} (hthread : name.thread? = some thread)
    (haccepted : Step.succeeded (call r.client) = true →
      (r.step name).accepted = r.accepted ++ [(ref, record)]) (ref' : StreamRef)
    (record' : Record) (h : Client.also given (Step.succeeded (call r.client) = true) ref record
      ref' record') : given ref' record' ∨ ∃ thread, r.Emits (.call name) thread ref' record' := by
  rcases h with hgiven | ⟨hok, rfl, rfl⟩
  · exact .inl hgiven
  · exact .inr ⟨thread, name, rfl, hthread, haccepted hok⟩

private theorem accepted_of_succeeded {call : EStateM ClientError Client Unit} {ref : StreamRef}
    {record : Record} (hok : Step.succeeded (call r.client) = true) :
    (r.perform call fun _ => accept ref record).accepted = r.accepted ++ [(ref, record)] := by
  unfold perform
  cases hresult : call r.client with
  | ok a c => rfl
  | error e c =>
    rw [hresult] at hok
    cases hok

/-- What there is to know of a session after a call. -/
private theorem Intact.widen {c : Client} {given' : StreamRef → Record → Prop}
    (h : c.Intact gone given' silent past) {name : Call}
    (hname : ∀ thread, name ≠ .threadGone thread)
    (hgiven : ∀ ref record, given' ref record →
      given ref record ∨ ∃ thread, r.Emits (.call name) thread ref record) :
    c.Intact (fun p => gone p ∨ ∃ thread, name = .threadGone thread ∧
        r.client.streamOf[thread]? = some p)
      (fun ref record => given ref record ∨ ∃ thread, r.Emits (.call name) thread ref record)
      silent past := by
  refine h.mono (fun p hp => hp.resolve_right ?_) hgiven
  rintro ⟨thread, heq, -⟩
  exact hname thread heq

/-- Each call of a session keeps its streams in order. -/
theorem intact_step (h : r.client.Intact gone given silent past)
    (hdrafts : r.DraftsHold) (name : Call) (hname : ∀ deliver, name ≠ .runSender deliver) :
    (r.step name).client.Intact
      (fun p => gone p ∨ ∃ thread, name = .threadGone thread ∧
        r.client.streamOf[thread]? = some p)
      (fun ref record => given ref record ∨ ∃ thread, r.Emits (.call name) thread ref record)
      silent past := by
  have hkeeps {α : Type} {call : EStateM ClientError Client α} {note : α → Run → Run}
      (hnote : ∀ a r, (note a r).client = r.client)
      (hcall : Step.Keeps (Client.Intact gone given silent past) call) :
      (r.perform call note).client.Intact gone given silent past := keeps_perform hnote hcall h
  have htell {m : Message} (hm : Parcel.Sound ⟨none, m⟩) :=
    hkeeps (fun _ _ => rfl : ∀ _ (r : Run), r.client = r.client) (Client.Intact.keeps_tell hm)
  cases name with
  | runSender deliver => exact absurd rfl (hname deliver)
  | threadGone thread =>
    refine (h.threadGone thread).mono (fun p hp => hp.imp_right ?_) fun _ _ => .inl
    rintro ⟨other, heq, hp⟩
    cases heq
    exact hp
  | send n v | discard n => exact Intact.widen h nofun fun _ _ => .inl
  | register name =>
    refine Intact.widen ?_ nofun fun _ _ => .inl
    exact hkeeps (fun _ _ => rfl) (Client.Intact.keeps_register name)
  | «begin» n id ordering =>
    refine Intact.widen ?_ nofun fun _ _ => .inl
    exact hkeeps (fun _ _ => rfl) (Client.keeps_beginEvent id ordering)
  | objectFreed t =>
    refine Intact.widen ?_ nofun fun _ _ => .inl
    exact hkeeps (fun _ _ => rfl) (Client.Intact.keeps_objectFreed t)
  | classInfo info =>
    exact Intact.widen (htell (m := .classInfo info) trivial) nofun fun _ _ => .inl
  | stringInfo subject text =>
    exact Intact.widen (htell (m := .stringInfo subject text) trivial) nofun fun _ _ => .inl
  | threadInfo info =>
    exact Intact.widen (htell (m := .threadInfo info) trivial) nofun fun _ _ => .inl
  | flush =>
    refine Intact.widen ?_ nofun fun _ _ => .inl
    exact hkeeps (fun _ _ => rfl) Client.Intact.keeps_flush
  | threadEnd thread =>
    refine Intact.widen ?_ nofun fun _ _ => .inl
    exact hkeeps (fun _ _ => rfl) (Client.Intact.keeps_threadEnd thread)
  | dispatch thread id args =>
    have hclient : (r.step (.dispatch thread id args)).client =
        Step.final (Client.dispatch thread id args r.client) := client_perform fun _ _ => rfl
    rw [hclient]
    exact Intact.widen (h.dispatch thread id args) nofun
      (giving_emits _ rfl accepted_of_succeeded)
  | finish thread n =>
    cases hd : r.drafts n with
    | none =>
      rw [step_finish_of_none hd]
      exact Intact.widen h nofun fun _ _ => .inl
    | some d =>
      have hstep := step_finish_of_some hd thread
      have hclient : (r.step (.finish thread n)).client =
          Step.final (Client.finishEvent thread d.writer r.client) := by
        rw [hstep]
        exact client_perform fun _ _ => rfl
      rw [hclient]
      refine Intact.widen (Client.Intact.finishEvent h thread (hdrafts n d hd)) nofun
        (giving_emits _ rfl fun hok => ?_)
      rw [hstep]
      exact accepted_of_succeeded (r := r.setDraft n none) hok

/-! ### Sessions -/

variable {settings : ClientSettings} {ts : List Turn}

/-- The streams of a session are in order, and what went to the outbox are the frames of its
messages. The streams `silent` are ones that no thread has, and their ends were not told. -/
def InOrder (settings : ClientSettings) (ts : List Turn) (silent : Nat → Prop) : Prop :=
  ∃ past, (after settings []).enqueued ts =
      past ++ (after settings ts).client.outbox.waiting.toList ∧
    (after settings ts).client.Intact (fun p => ∃ thread, Left settings ts thread p)
      (fun ref record => ∃ thread, Emitted settings ts thread ref record) silent past

/-- What holds of a session at any time: its streams are in order, and the records under way hold
what they were given. -/
structure Chronicle (settings : ClientSettings) (ts : List Turn) : Prop where
  inOrder : InOrder settings ts fun _ => False
  drafts : (after settings ts).DraftsHold

/-- A session before its first call. -/
private theorem chronicle_start (settings : ClientSettings) : Chronicle settings [] where
  inOrder := by
    refine ⟨[], rfl, ⟨?_, [], ?_⟩⟩
    · exact {
        placed := Client.placed_start settings
        ordering := fun ref href => by
          cases ref with
          | own p => exact absurd href (Nat.not_lt_zero p)
          | shared i =>
            refine (congrArg RecordStream.ordering (Client.stream_start settings i)).trans ?_
            rfl
        held := fun ref href => by
          cases ref with
          | own p => exact absurd href (Nat.not_lt_zero p)
          | shared i =>
            have hstream := Client.stream_start settings i
            change (({ settings } : Client).stream _).HoldsOf _
            rw [hstream]
            exact RecordStream.Holds.holdsOf_nil rfl
        frees := ⟨[], FreeBatch.holds_empty⟩
        orphaned := by
          rintro p ⟨thread, earlier, later, heq, -⟩
          cases earlier <;> cases heq }
    · exact {
        frames := .nil
        sound := nofun
        has := nofun
        records := nofun
        final := .nil
        ended := nofun
        silence := nofun }
  drafts n d hd := by cases hd

/-- A thread left its stream before the last turn, or in it. -/
private theorem left_concat {t : Turn} {thread : ThreadId} {p : Nat}
    (h : Left settings (ts ++ [t]) thread p) : Left settings ts thread p ∨
      t = .call (.threadGone thread) ∧ (after settings ts).client.streamOf[thread]? = some p := by
  obtain ⟨earlier, later, hsplit, hp⟩ := h
  rcases List.eq_nil_or_concat later with rfl | ⟨later, t', rfl⟩
  · obtain ⟨rfl, hlast⟩ := List.append_inj' hsplit rfl
    exact .inr ⟨(List.cons.inj hlast).1, hp⟩
  · rw [List.concat_eq_append, ← List.cons_append, ← List.append_assoc] at hsplit
    obtain ⟨rfl, -⟩ := List.append_inj' hsplit rfl
    exact .inl ⟨earlier, later, rfl, hp⟩

theorem Emits.emitted {t : Turn} {thread : ThreadId} {ref : StreamRef} {record : Record}
    (h : (after settings ts).Emits t thread ref record) :
    Emitted settings (ts ++ [t]) thread ref record := ⟨ts, t, [], rfl, h⟩

private theorem drafts_shutdown (r : Run) (deliver : Nat → Delivery) :
    (r.shutdown deliver).drafts = r.drafts := by
  unfold Run.shutdown
  split <;> rfl

theorem enqueuedBy_call {call : Call} (hcall : ∀ deliver, call ≠ .runSender deliver) :
    r.enqueuedBy (.call call) = (r.step call).client.outbox.waiting.toList.drop
      r.client.outbox.waiting.toList.length := by
  cases call with
  | runSender deliver => exact absurd rfl (hcall deliver)
  | _ => rfl

/-- The frames that went to the outbox are those that waited, and what comes behind them. -/
theorem append_drop {α : Type} {past waiting waiting' : List α}
    (h : waiting <+: waiting') : past ++ waiting ++ waiting'.drop waiting.length =
      past ++ waiting' := by
  obtain ⟨behind, rfl⟩ := h
  rw [List.drop_left, List.append_assoc]

/-- The frames that a call puts into the outbox come behind those that wait. -/
theorem enqueued_call (h : (after settings []).enqueued ts =
      past ++ (after settings ts).client.outbox.waiting.toList) {call : Call}
    (hcall : ∀ deliver, call ≠ .runSender deliver) :
    (after settings []).enqueued (ts ++ [Turn.call call]) =
      past ++ (after settings (ts ++ [Turn.call call])).client.outbox.waiting.toList := by
  have hafter : after settings (ts ++ [Turn.call call]) = (after settings ts).step call :=
    after_concat settings ts (.call call)
  have hbehind := lasting_step (r := after settings ts) (Client.lasting_waiting _)
    List.prefix_rfl call hcall
  rw [enqueued_concat, h, enqueuedBy_call hcall, hafter, append_drop hbehind]

/-- The end of a session, and a session that ends again. -/
private theorem intact_shutdown (h : r.client.Intact gone given silent past)
    (deliver : Nat → Delivery) : ∃ past',
      past ++ r.client.outbox.waiting.toList ++ r.enqueuedBy (.shutdown deliver) =
        past' ++ (r.shutdown deliver).client.outbox.waiting.toList ∧
      (r.shutdown deliver).client.Intact gone given silent past' := by
  rcases heq : r.client.shutdown deliver with ⟨answer, out, c⟩
  rw [(shutdown_eq heq).1, enqueuedBy]
  cases hending : r.client.ending with
  | true =>
    rw [Client.shutdown, hending] at heq
    cases heq
    exact ⟨past, List.append_nil _, h⟩
  | false =>
    obtain ⟨past', hframes, hkept⟩ := h.shutdown hending heq
    have hbehind := (Client.lasting_waiting r.client.outbox.waiting.toList).keeps_closeAll
      { r.client with ending := true, closed := true } List.prefix_rfl
    rw [if_neg Bool.false_ne_true, append_drop hbehind]
    exact ⟨past', hframes.symm, hkept⟩

/-- What was accepted in a part of a session was accepted in the session. -/
private theorem emitted_concat (t : Turn) (ref : StreamRef) (record : Record) :
    (∃ thread, Emitted settings ts thread ref record) →
      ∃ thread, Emitted settings (ts ++ [t]) thread ref record :=
  fun ⟨thread, hthread⟩ => ⟨thread, hthread.concat t⟩

/-- One more turn in which no thread is gone. -/
private theorem left_of_concat {t : Turn} (hcall : ∀ thread, t ≠ .call (.threadGone thread))
    (p : Nat) (h : ∃ thread, Left settings (ts ++ [t]) thread p) :
    ∃ thread, Left settings ts thread p := by
  obtain ⟨thread, hthread⟩ := h
  exact ⟨thread, (left_concat hthread).resolve_right fun hlast => hcall thread hlast.1⟩

/-- One more call. -/
private theorem inOrder_call {call : Call} (hcall : ∀ deliver, call ≠ .runSender deliver)
    (henqueued : (after settings []).enqueued ts =
      past ++ (after settings ts).client.outbox.waiting.toList)
    (h : ((after settings ts).step call).client.Intact
      (fun p => (∃ thread, Left settings ts thread p) ∨
        ∃ thread, call = .threadGone thread ∧ (after settings ts).client.streamOf[thread]? = some p)
      (fun ref record => (∃ thread, Emitted settings ts thread ref record) ∨
        ∃ thread, (after settings ts).Emits (.call call) thread ref record) silent past) :
    InOrder settings (ts ++ [.call call]) silent := by
  refine ⟨past, enqueued_call henqueued hcall, ?_⟩
  rw [after_concat]
  refine Client.Intact.mono h ?_ ?_
  · rintro p ⟨thread, hthread⟩
    exact (left_concat hthread).imp (⟨thread, ·⟩)
      fun ⟨hlast, hp⟩ => ⟨thread, Turn.call.inj hlast, hp⟩
  · rintro ref record (hbefore | ⟨thread, hemits⟩)
    · exact emitted_concat _ ref record hbefore
    · exact ⟨thread, hemits.emitted⟩

/-- One more turn. -/
theorem InOrder.concat (h : InOrder settings ts silent) (hdrafts : (after settings ts).DraftsHold)
    (t : Turn) : InOrder settings (ts ++ [t]) silent := by
  obtain ⟨past, henqueued, hintact⟩ := h
  cases t with
  | shutdown deliver =>
    obtain ⟨past', hframes, hkept⟩ := intact_shutdown hintact deliver
    rw [InOrder, after_concat, enqueued_concat, henqueued]
    exact ⟨past', hframes, hkept.mono (left_of_concat nofun) (emitted_concat _)⟩
  | call call =>
    by_cases hcall : ∃ deliver, call = .runSender deliver
    · obtain ⟨deliver, rfl⟩ := hcall
      obtain ⟨past', hframes, hkept⟩ := hintact.runSender deliver
      rw [InOrder, after_concat, enqueued_concat, henqueued, enqueuedBy, List.append_nil]
      exact ⟨past', hframes.symm, hkept.mono (left_of_concat nofun) (emitted_concat _)⟩
    · have hother (deliver : Nat → Delivery) : call ≠ .runSender deliver :=
        fun heq => hcall ⟨deliver, heq⟩
      exact inOrder_call hother henqueued (intact_step hintact hdrafts call hother)

/-- A call after which one more stream is silent. -/
theorem inOrder_of_silent {call : Call} (hcall : call.endsStreams = true)
    (henqueued : (after settings []).enqueued ts =
      past ++ (after settings ts).client.outbox.waiting.toList)
    (h : ((after settings ts).step call).client.Intact
      (fun p => ∃ thread, Left settings ts thread p)
      (fun ref record => ∃ thread, Emitted settings ts thread ref record) silent past) :
    InOrder settings (ts ++ [.call call]) silent := by
  refine inOrder_call ?_ henqueued (Intact.widen h ?_ fun _ _ => .inl) <;>
    rintro _ rfl <;> cases hcall

private theorem Chronicle.concat (h : Chronicle settings ts) (t : Turn) :
    Chronicle settings (ts ++ [t]) where
  inOrder := h.inOrder.concat h.drafts t
  drafts := by
    rw [after_concat]
    cases t with
    | shutdown deliver =>
      intro n d hd
      have hdrafts : ((after settings ts).turn (.shutdown deliver)).drafts = _ :=
        drafts_shutdown _ deliver
      rw [hdrafts] at hd
      exact h.drafts n d hd
    | call call => exact h.drafts.step call

/-- **All sessions** have a chronicle. -/
theorem chronicle (settings : ClientSettings) (ts : List Turn) : Chronicle settings ts := by
  induction ts using List.reverseRecOn with
  | nil => exact chronicle_start settings
  | append_singleton ts t ih => exact ih.concat t

end Run

end TraceRelay
