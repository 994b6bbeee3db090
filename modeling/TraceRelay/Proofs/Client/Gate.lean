import TraceRelay.Client.Calls
import TraceRelay.Proofs.Steps

/-!
# What calls leave alone

Whether calls are refused and frames are accepted, and whether the transport has failed, is decided
by the sender and by the end of the session alone. The calls in between leave it as it is.

## Main definitions

* `Client.gate` : the settings, and what decides whether calls and frames are accepted.
* `Client.Lasting` : what no change of streams, frees, methods and accepted frames ends.

## Main results

* `Client.lasting_gate`, `Client.lasting_outbox` : the gate, and an outbox that accepts no frames.
* `Client.Lasting.keeps_finishEvent`, `Client.Lasting.keeps_objectFreed`,
  `Client.Lasting.keeps_flush`, … : each call keeps what lasts.
-/

namespace TraceRelay

namespace Client

open Step (Keeps)

/-- The settings, and what decides whether calls and frames are accepted. -/
def gate (c : Client) : ClientSettings × Bool × Bool × Outbox :=
  (c.settings, c.closed, c.ending, { c.outbox with waiting := .empty })

/-- What is not ended by a change of a stream, by a thread that gets a stream or loses it, by other
frees or methods, or by a frame that is accepted. -/
structure Lasting (P : Client → Prop) : Prop where
  setStream : ∀ c ref s, P c → P (c.setStream ref s)
  obtained : ∀ c (thread : ThreadId) s, P c →
    P { c with own := c.own.push s, streamOf := c.streamOf.insert thread c.own.size }
  detached : ∀ c (thread : ThreadId), P c → P { c with streamOf := c.streamOf.erase thread }
  frees : ∀ c frees, P c → P { c with frees }
  methods : ∀ c methods, P c → P { c with methods }
  push : ∀ c frame, c.outbox.accepting = true → P c →
    P { c with outbox := { c.outbox with waiting := c.outbox.waiting.push frame } }

theorem Lasting.and {P Q : Client → Prop} (hP : Lasting P) (hQ : Lasting Q) :
    Lasting fun c => P c ∧ Q c where
  setStream c ref s := And.imp (hP.setStream c ref s) (hQ.setStream c ref s)
  obtained c thread s := And.imp (hP.obtained c thread s) (hQ.obtained c thread s)
  detached c thread := And.imp (hP.detached c thread) (hQ.detached c thread)
  frees c frees := And.imp (hP.frees c frees) (hQ.frees c frees)
  methods c methods := And.imp (hP.methods c methods) (hQ.methods c methods)
  push c frame h := And.imp (hP.push c frame h) (hQ.push c frame h)

theorem lasting_gate (g : ClientSettings × Bool × Bool × Outbox) :
    Lasting (·.gate = g) where
  setStream _ ref _ h := by
    cases ref <;> exact h
  obtained _ _ _ h := h
  detached _ _ h := h
  frees _ _ h := h
  methods _ _ h := h
  push _ _ _ h := h

/-- Nothing goes to an outbox that accepts no frames. -/
theorem lasting_outbox {o : Outbox} (ho : o.accepting = false) :
    Lasting (·.outbox = o) where
  setStream _ ref _ h := by
    cases ref <;> exact h
  obtained _ _ _ h := h
  detached _ _ h := h
  frees _ _ h := h
  methods _ _ h := h
  push c _ haccepting h := by
    rw [h, ho] at haccepting
    cases haccepting

/-- A client that is not closed accepts frames. -/
theorem lasting_open : Lasting fun c => c.closed = false → c.outbox.accepting = true where
  setStream _ ref _ h := by
    cases ref <;> exact h
  obtained _ _ _ h := h
  detached _ _ h := h
  frees _ _ h := h
  methods _ _ h := h
  push _ _ haccepting _ _ := haccepting

theorem keeps_ensureOpen {P : Client → Prop} : Keeps P ensureOpen := by
  refine .bind .get fun c => ?_
  split
  · exact .throw _
  · exact .pure _

theorem keeps_beginEvent {P : Client → Prop} (id : MethodId) (ordering : Option UInt8) :
    Keeps P (beginEvent id ordering) := by
  refine .bind keeps_ensureOpen fun _ => .bind .get fun c => ?_
  split
  · exact .pure _
  · exact .bind (.throw _) fun _ => .pure _

/-- A registration keeps what the message about it and a new table of methods keep. -/
theorem keeps_register_of {P : Client → Prop} {name : String}
    (hannounce : ∀ id, Keeps P (enqueueMessage (.registerMethod id name)))
    (hmethods : ∀ c methods, P c → P { c with methods }) : Keeps P (register name) := by
  refine .bind keeps_ensureOpen fun _ => .bind .get fun c => .bind ?_ fun _ =>
    .bind (.modify fun c hc => hmethods c _ hc) fun _ => .pure _
  unfold MethodTable.register
  split
  · exact .pure _
  · split
    · exact .bind (.throw _) fun _ => .bind (hannounce _) fun _ => .pure _
    · exact .bind (hannounce _) fun _ => .pure _

namespace Lasting

variable {P : Client → Prop} (h : Lasting P)

include h

/-! ### Steps -/

theorem keeps_enqueue (frame : Bytes) : Keeps P (enqueue frame) := by
  intro c hc
  unfold enqueue Outbox.push
  by_cases haccepting : c.outbox.accepting = true
  · rw [if_pos haccepting]
    exact h.push c frame haccepting hc
  · rw [if_neg haccepting]
    exact hc

theorem keeps_enqueueMessage (m : Message) : Keeps P (enqueueMessage m) := by
  unfold enqueueMessage
  split
  · exact h.keeps_enqueue _
  · exact .throw _

theorem keeps_enqueueTaken (frame : Except WireError (Option Bytes)) :
    Keeps P (enqueueTaken frame) := by
  rcases frame with e | _ | frame
  · exact .throw _
  · exact .pure _
  · exact h.keeps_enqueue frame

theorem keeps_sealStream (ref : StreamRef) : Keeps P (sealStream ref) := by
  refine .bind .get fun c => .bind (.modify fun d hd => ?_) fun _ => h.keeps_enqueueTaken _
  exact h.setStream d ref _ hd

theorem keeps_closeStream (ref : StreamRef) : Keeps P (closeStream ref) := by
  refine .bind (.modify fun c hc => ?_) fun _ => h.keeps_sealStream ref
  exact h.setStream c ref _ hc

theorem keeps_onStream {α : Type} (ref : StreamRef) (step : EStateM ClientError RecordStream α) :
    Keeps P (onStream ref step) := by
  intro c hc
  unfold onStream
  dsimp only
  cases step (c.stream ref) with
  | ok a s => exact h.setStream _ ref s (h.setStream c ref _ hc)
  | error e s => exact h.setStream _ ref s (h.setStream c ref _ hc)

theorem keeps_appendTo (ref : StreamRef) (record : RecordBuilder) :
    Keeps P (appendTo ref record) := by
  refine .bind (h.keeps_onStream ref _) fun _ => .bind .get fun c => ?_
  split
  · exact h.keeps_sealStream ref
  · exact .pure _

theorem keeps_obtain (thread : ThreadId) : Keeps P (obtain thread) := by
  intro c hc
  unfold obtain
  cases c.streamOf? thread with
  | some ref => exact hc
  | none => exact h.obtained c thread _ hc

theorem keeps_detach (thread : ThreadId) : Keeps P (detach thread) := by
  intro c hc
  unfold detach
  cases c.streamOf? thread with
  | some ref => exact h.detached c thread hc
  | none => exact hc

theorem keeps_endStream (thread : ThreadId) : Keeps P (endStream thread) := by
  refine .bind (h.keeps_detach thread) fun ref? => ?_
  cases ref? with
  | none => exact .pure _
  | some ref =>
    exact .bind (h.keeps_closeStream ref) fun _ => .bind .get fun c => h.keeps_enqueueMessage _

theorem threadGone (thread : ThreadId) {c : Client} (hc : P c) : P (c.threadGone thread) := by
  unfold Client.threadGone
  split
  · exact h.setStream c _ _ hc
  · exact hc

theorem keeps_visit (thread : ThreadId) (ref : StreamRef) :
    Keeps P (visit thread ref) := by
  refine .bind .get fun c => ?_
  split
  · exact h.keeps_endStream thread
  · exact h.keeps_sealStream ref

theorem keeps_sealEvents : Keeps P sealEvents :=
  .bind .get fun _ => .bind (.forM (fun ⟨thread, ref⟩ => h.keeps_visit thread ref) _) fun _ =>
    .forM h.keeps_sealStream _

theorem keeps_onFrees {α : Type} (step : EStateM ClientError FreeStream α) :
    Keeps P (onFrees step) := by
  intro c hc
  unfold onFrees
  dsimp only
  cases step c.frees with
  | ok a frees => exact h.frees _ frees (h.frees c _ hc)
  | error e frees => exact h.frees _ frees (h.frees c _ hc)

theorem keeps_sealFrees : Keeps P sealFrees :=
  .bind .get fun _ => .bind (.modify fun c hc => h.frees c _ hc) fun _ => h.keeps_enqueueTaken _

theorem keeps_closeAll : Keeps P closeAll :=
  .bind .get fun _ => .bind (.forM (fun ⟨_, ref⟩ => h.keeps_closeStream ref) _) fun _ =>
    .bind (.forM h.keeps_closeStream _) fun _ => .bind (.modify fun c hc => h.frees c _ hc) fun _ =>
      .bind h.keeps_sealFrees fun _ => h.keeps_enqueueMessage _

/-! ### Calls -/

theorem keeps_register (name : String) : Keeps P (register name) :=
  keeps_register_of (fun _ => h.keeps_enqueueMessage _) fun c _ => h.methods c _

theorem keeps_finishEvent (thread : ThreadId) (w : EventWriter) :
    Keeps P (finishEvent thread w) := by
  unfold finishEvent
  split
  · exact .throw _
  · exact .bind (h.keeps_obtain thread) fun ref => h.keeps_appendTo ref _
  · refine .bind .get fun c => ?_
    split
    · exact .bind (h.keeps_sealStream _) fun _ => h.keeps_appendTo _ _
    · exact h.keeps_appendTo _ _

theorem keeps_dispatch (thread : ThreadId) (id : MethodId) (args : List Value) :
    Keeps P (dispatch thread id args) :=
  .bind (keeps_beginEvent id none) fun _ => h.keeps_finishEvent thread _

theorem keeps_objectFreed (t : Token) : Keeps P (objectFreed t) := by
  refine .bind keeps_ensureOpen fun _ => .bind (h.keeps_onFrees _) fun _ => .bind .get fun c => ?_
  split
  · exact .bind h.keeps_sealEvents fun _ => h.keeps_sealFrees
  · exact .pure _

theorem keeps_tell (m : Message) : Keeps P (tell m) :=
  .bind keeps_ensureOpen fun _ => h.keeps_enqueueMessage m

theorem keeps_flush : Keeps P flush :=
  .bind keeps_ensureOpen fun _ => .bind h.keeps_sealEvents fun _ => h.keeps_sealFrees

theorem keeps_threadEnd (thread : ThreadId) : Keeps P (threadEnd thread) :=
  .bind keeps_ensureOpen fun _ => h.keeps_endStream thread

end Lasting

end Client

end TraceRelay
