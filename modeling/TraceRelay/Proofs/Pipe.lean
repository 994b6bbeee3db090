import Mathlib.Algebra.Ring.Nat
import TraceRelay.Transport.Pipe

/-!
# What passes through a pipe

The two ends of a pipe are used in any order, and each use leaves an event in a log: a chunk that
was sent or refused, what an attempt to receive gave, an end that was closed or dropped. The log
alone says how the pipe stands, and so what the next use of an end will give.

## Main definitions

* `Pipe.Act`, `Pipe.Event`, `Pipe.run` : what is done at the ends, and the log of what came of it.
* `Pipe.sentAt`, `Pipe.receivedAt` : the chunks of a log that went in at an end, and that came out.
* `Pipe.Event.Does` : what an event says of the pipe before it and after it.
* `Pipe.Tracks` : a log that says how a pipe stands.
* `Pipe.inbound` : the events of the chunks that move towards an end.

## Main results

* `Pipe.does_perform`, `Pipe.tracks_run` : one act does what its event says, and the log of a run
  says how the pipe stands after it.
* `Pipe.inbound_run_without_close` : an end that is closed still receives as if it were not.
* `Pipe.run_lossless` : what arrives, when it ends, what is refused and what is counted.
-/

namespace TraceRelay

namespace Side

@[simp] theorem other_other (side : Side) : side.other.other = side := by
  cases side <;> rfl

@[simp] theorem ne_other (side : Side) : side ≠ side.other := by
  cases side <;> decide

@[simp] theorem other_ne (side : Side) : side.other ≠ side := (ne_other side).symm

theorem eq_or_eq_other (side t : Side) : t = side ∨ t = side.other := by
  cases side <;> cases t <;> decide

end Side

namespace Pipe

/-- What is done at an end. -/
inductive Act where
  | send (chunk : Bytes)
  | recv
  | close
  | drop
deriving DecidableEq

/-- What came of it. -/
inductive Event where
  | sent (chunk : Bytes)
  | refused (chunk : Bytes) (e : TransportError)
  | received (r : Received)
  | closed
  | dropped
deriving DecidableEq

/-- Does one thing at an end. Nothing comes between the check of a send and its count: the end is
locked meanwhile. A receiver that waits asks again, and nothing is changed by having asked. -/
def perform (p : Pipe) (side : Side) : Act → Event × Pipe
  | .send chunk =>
    match send side chunk p with
    | .ok _ p => (.sent chunk, p)
    | .error e p => (.refused chunk e, p)
  | .recv => (.received (p.recv side).1, (p.recv side).2)
  | .close => (.closed, p.close side)
  | .drop => (.dropped, p.drop side)

/-- Does one thing after the other, and logs what came of each. -/
def run : List (Side × Act) → Pipe → List (Side × Event) × Pipe
  | [], p => ([], p)
  | (side, a) :: acts, p =>
    let (e, q) := p.perform side a
    let (log, r) := run acts q
    ((side, e) :: log, r)

/-- What was done. -/
def Event.act : Event → Act
  | .sent chunk | .refused chunk _ => .send chunk
  | .received _ => .recv
  | .closed => .close
  | .dropped => .drop

/-- The chunk that went in, if one did. -/
def Event.sentChunk : Event → List Bytes
  | .sent chunk => [chunk]
  | _ => []

/-- The chunk that came out, if one did. -/
def Event.receivedChunk : Event → List Bytes
  | .received (.chunk bs) => [bs]
  | _ => []

/-- The chunks that went in at an end. -/
def sentAt (side : Side) (log : List (Side × Event)) : List Bytes :=
  log.flatMap fun (s, e) => if s = side then e.sentChunk else []

/-- The chunks that came out at an end. -/
def receivedAt (side : Side) (log : List (Side × Event)) : List Bytes :=
  log.flatMap fun (s, e) => if s = side then e.receivedChunk else []

/-! ### What one act changes -/

variable {p q : Pipe} {side t : Side} {chunk : Bytes} {e : Event} {log more : List (Side × Event)}

theorem endAt_setEnd (own : PipeEnd) :
    (p.setEnd side own).endAt t = if t = side then own else p.endAt t := by
  cases side <;> cases t <;> rfl

theorem endAt_close :
    (p.close side).endAt t =
      if t = side then { p.endAt t with sending := false } else p.endAt t := by
  rw [close, endAt_setEnd]
  split <;> simp_all

theorem endAt_drop :
    (p.drop side).endAt t =
      if t = side then { p.endAt t with inbox := .empty, sending := false, alive := false }
      else p.endAt t := by
  rw [drop, endAt_setEnd]
  split <;> simp_all

/-- A send is refused at an end that sends no more, and then if nobody is there to receive. -/
theorem perform_send :
    p.perform side (.send chunk) =
      if (p.endAt side).sending = false then (.refused chunk .closed, p)
      else if (p.endAt side.other).alive = false then
        (.refused chunk (.connectionLost "peer dropped"), p)
      else
        (.sent chunk,
          (p.setEnd side { p.endAt side with sent := (p.endAt side).sent + chunk.length }).setEnd
            side.other
            { p.endAt side.other with inbox := (p.endAt side.other).inbox.push chunk }) := by
  by_cases hown : (p.endAt side).sending = false
  · rw [if_pos hown, perform, send, if_pos (by simp [hown])]
  · by_cases hpeer : (p.endAt side.other).alive = false
    · rw [if_neg hown, if_pos hpeer, perform, send, if_neg (by simp [hown]),
        if_pos (by simp [hpeer])]
    · rw [if_neg hown, if_neg hpeer, perform, send, if_neg (by simp [hown]),
        if_neg (by simp [hpeer])]

/-- The oldest chunk comes out; without one, the other end says whether one can still come. -/
theorem perform_recv :
    p.perform side .recv =
      match (p.endAt side).inbox.pop? with
      | some (bs, inbox) =>
        (.received (.chunk bs), p.setEnd side { p.endAt side with inbox := inbox })
      | none => (.received (if (p.endAt side.other).sending then .pending else .ended), p) := by
  simp only [perform, recv]
  split <;> simp_all only

/-- What an event at an end says of the pipe before it and after it. -/
structure Event.Does (e : Event) (side : Side) (p q : Pipe) : Prop where
  sending (t : Side) : (q.endAt t).sending = true ↔
    (p.endAt t).sending = true ∧ (t, .closed) ≠ (side, e) ∧ (t, .dropped) ≠ (side, e)
  alive (t : Side) : (q.endAt t).alive = true ↔
    (p.endAt t).alive = true ∧ (t, .dropped) ≠ (side, e)
  sent (t : Side) :
    (q.endAt t).sent = (p.endAt t).sent + ((sentAt t [(side, e)]).map List.length).sum
  /-- Chunks come in behind those that wait, and leave from the front. -/
  inbox (t : Side) : (t, .dropped) ≠ (side, e) →
    (p.endAt t).inbox.toList ++ sentAt t.other [(side, e)] =
      receivedAt t [(side, e)] ++ (q.endAt t).inbox.toList
  lost : e = .dropped → (q.endAt side).inbox.toList = []
  /-- Nothing is sent to an end that is gone. -/
  gone (t : Side) : (p.endAt t).alive = false → sentAt t.other [(side, e)] = []

@[simp] theorem sentAt_singleton : sentAt t [(side, e)] = if side = t then e.sentChunk else [] := by
  simp [sentAt]

@[simp] theorem receivedAt_singleton :
    receivedAt t [(side, e)] = if side = t then e.receivedChunk else [] := by
  simp [receivedAt]

/-- A refused send changes nothing. -/
theorem does_refused (error : TransportError) : (Event.refused chunk error).Does side p p := by
  constructor <;> simp [Event.sentChunk, Event.receivedChunk]

theorem does_sent (halive : (p.endAt side.other).alive = true) :
    (Event.sent chunk).Does side p
      ((p.setEnd side { p.endAt side with sent := (p.endAt side).sent + chunk.length }).setEnd
        side.other
        { p.endAt side.other with inbox := (p.endAt side.other).inbox.push chunk }) := by
  constructor
  case lost => nofun
  all_goals
    intro t
    obtain rfl | rfl := Side.eq_or_eq_other side t <;>
      simp [endAt_setEnd, halive, Event.sentChunk, Event.receivedChunk]

/-- An end that receives nothing is left as it is. -/
theorem does_received_nothing {r : Received} (hr : Event.receivedChunk (.received r) = []) :
    (Event.received r).Does side p p := by
  constructor <;> simp [Event.sentChunk, hr]

theorem does_received {inbox : Fifo Bytes}
    (hin : (p.endAt side).inbox.toList = chunk :: inbox.toList) :
    (Event.received (.chunk chunk)).Does side p
      (p.setEnd side { p.endAt side with inbox := inbox }) := by
  constructor
  case lost => nofun
  all_goals
    intro t
    obtain rfl | rfl := Side.eq_or_eq_other side t <;>
      simp [endAt_setEnd, hin, Event.sentChunk, Event.receivedChunk]

theorem does_closed : Event.closed.Does side p (p.close side) := by
  constructor
  case lost => nofun
  all_goals
    intro t
    obtain rfl | rfl := Side.eq_or_eq_other side t <;>
      simp [endAt_close, Event.sentChunk, Event.receivedChunk]

theorem does_dropped : Event.dropped.Does side p (p.drop side) := by
  constructor
  case lost => simp [endAt_drop]
  all_goals
    intro t
    obtain rfl | rfl := Side.eq_or_eq_other side t <;>
      simp [endAt_drop, Event.sentChunk, Event.receivedChunk]

/-- **One act** does what its event says. -/
theorem does_perform (p : Pipe) (side : Side) (a : Act) :
    (p.perform side a).1.Does side p (p.perform side a).2 := by
  cases a with
  | send chunk =>
    rw [perform_send]
    split
    · exact does_refused _
    · split
      · exact does_refused _
      next halive => exact does_sent (by simpa using halive)
  | recv =>
    rw [perform_recv]
    split
    next bs inbox hpop => exact does_received (Fifo.toList_of_pop? hpop)
    · cases (p.endAt side.other).sending <;> exact does_received_nothing rfl
  | close => exact does_closed
  | drop => exact does_dropped

/-! ### What a log says -/

theorem sentAt_append (log more : List (Side × Event)) :
    sentAt t (log ++ more) = sentAt t log ++ sentAt t more :=
  List.flatMap_append

theorem receivedAt_append (log more : List (Side × Event)) :
    receivedAt t (log ++ more) = receivedAt t log ++ receivedAt t more :=
  List.flatMap_append

/-- The state of a pipe is that which a log says. -/
structure Tracks (log : List (Side × Event)) (p : Pipe) : Prop where
  sending (side : Side) :
    (p.endAt side).sending = true ↔ (side, .closed) ∉ log ∧ (side, .dropped) ∉ log
  alive (side : Side) : (p.endAt side).alive = true ↔ (side, .dropped) ∉ log
  sent (side : Side) : (p.endAt side).sent = ((sentAt side log).map List.length).sum
  waiting (side : Side) : (side, .dropped) ∉ log →
    sentAt side.other log = receivedAt side log ++ (p.endAt side).inbox.toList
  lost (side : Side) : (side, .dropped) ∈ log →
    receivedAt side log <+: sentAt side.other log ∧ (p.endAt side).inbox.toList = []

namespace Tracks

theorem empty : Tracks [] {} where
  sending side := by cases side <;> simp [endAt]
  alive side := by cases side <;> simp [endAt]
  sent side := by cases side <;> rfl
  waiting side _ := by cases side <;> rfl
  lost _ h := nomatch h

variable (h : Tracks log p)
include h

/-- What came out at an end, dropped or not, is a prefix of what went in at the other. -/
theorem receivedAt_prefix : receivedAt t log <+: sentAt t.other log := by
  by_cases ht : (t, .dropped) ∈ log
  · exact (h.lost t ht).1
  · rw [h.waiting t ht]
    exact List.prefix_append _ _

theorem alive_eq_false : (p.endAt side).alive = false ↔ (side, .dropped) ∈ log := by
  rw [← Bool.not_eq_true, h.alive, Classical.not_not]

/-- **One more event** in the log. -/
theorem does (hdoes : e.Does side p q) : Tracks (log ++ [(side, e)]) q where
  sending t := by
    rw [hdoes.sending, h.sending, List.mem_append, List.mem_append, List.mem_singleton,
      List.mem_singleton, not_or, not_or]
    exact and_and_and_comm
  alive t := by
    rw [hdoes.alive, h.alive, List.mem_append, List.mem_singleton, not_or]
  sent t := by
    rw [hdoes.sent, h.sent, sentAt_append, List.map_append, List.sum_append]
  waiting t ht := by
    rw [List.mem_append, List.mem_singleton, not_or] at ht
    rw [sentAt_append, receivedAt_append, h.waiting t ht.1, List.append_assoc, List.append_assoc,
      hdoes.inbox t ht.2]
  lost t ht := by
    rw [List.mem_append, List.mem_singleton] at ht
    by_cases hnew : (t, .dropped) = (side, e)
    · obtain ⟨rfl, rfl⟩ := Prod.mk.inj hnew
      refine ⟨?_, hdoes.lost rfl⟩
      simpa [sentAt_append, receivedAt_append, Event.receivedChunk] using h.receivedAt_prefix
    · -- At an end that was gone before, nothing comes in or out any more.
      have hgone := ht.resolve_right hnew
      obtain ⟨hfront, hempty⟩ := h.lost t hgone
      have hsent := hdoes.gone t (h.alive_eq_false.2 hgone)
      have hinbox := hdoes.inbox t hnew
      rw [hempty, hsent] at hinbox
      obtain ⟨hreceived, hempty'⟩ := List.append_eq_nil_iff.1 hinbox.symm
      rw [sentAt_append, receivedAt_append, hsent, hreceived, List.append_nil, List.append_nil]
      exact ⟨hfront, hempty'⟩

end Tracks

theorem tracks_run (acts : List (Side × Act)) (h : Tracks log p) :
    Tracks (log ++ (run acts p).1) (run acts p).2 := by
  induction acts generalizing log p with
  | nil => simpa [run] using h
  | cons act acts ih => simpa [run] using ih (h.does (does_perform p act.1 act.2))

theorem act_perform {a : Act} : (p.perform side a).1.act = a := by
  cases a with
  | send chunk =>
    rw [perform_send]
    split
    · rfl
    · split <;> rfl
  | _ => rfl

/-- The log of a run names what was done, one by one. -/
theorem map_act_run {acts : List (Side × Act)} :
    ((run acts p).1.map fun (s, e) => (s, e.act)) = acts := by
  induction acts generalizing p with
  | nil => rfl
  | cons act acts ih => simp [run, ih, act_perform]

/-- What only one event names was done where that event is logged. -/
theorem mem_run_iff {acts : List (Side × Act)} {a : Act} (h : ∀ e', Event.act e' = a ↔ e' = e) :
    (side, e) ∈ (run acts p).1 ↔ (side, a) ∈ acts := by
  calc (side, e) ∈ (run acts p).1
      ↔ (side, a) ∈ (run acts p).1.map fun (s, e) => (s, e.act) := by simp [h]
    _ ↔ (side, a) ∈ acts := by rw [map_act_run]

theorem closed_mem_run_iff {acts : List (Side × Act)} :
    (side, .closed) ∈ (run acts p).1 ↔ (side, .close) ∈ acts :=
  mem_run_iff fun e => by cases e <;> simp [Event.act]

theorem dropped_mem_run_iff {acts : List (Side × Act)} :
    (side, .dropped) ∈ (run acts p).1 ↔ (side, .drop) ∈ acts :=
  mem_run_iff fun e => by cases e <;> simp [Event.act]

/-! ### What comes next -/

namespace Tracks

variable (h : Tracks log p)
include h

theorem sending_eq_false :
    (p.endAt side).sending = false ↔ (side, .closed) ∈ log ∨ (side, .dropped) ∈ log := by
  rw [← Bool.not_eq_true, h.sending, ← not_or, Classical.not_not]

/-- What a send gives, by what was closed and dropped. -/
theorem send_outcome :
    (p.perform side (.send chunk)).1 =
      if (side, .closed) ∈ log ∨ (side, .dropped) ∈ log then .refused chunk .closed
      else if (side.other, .dropped) ∈ log then .refused chunk (.connectionLost "peer dropped")
      else .sent chunk := by
  simp only [perform_send, h.sending_eq_false, h.alive_eq_false, apply_ite Prod.fst]

/-- What an end receives that was not dropped: the next of what was sent to it, and the end of it
when there is no more of it to come. -/
theorem recv_outcome (hkept : (side, .dropped) ∉ log) :
    (∀ bs, (p.perform side .recv).1 = .received (.chunk bs) ↔
      receivedAt side log ++ [bs] <+: sentAt side.other log) ∧
    ((p.perform side .recv).1 = .received .ended ↔
      ((side.other, .closed) ∈ log ∨ (side.other, .dropped) ∈ log) ∧
        receivedAt side log = sentAt side.other log) := by
  rw [h.waiting side hkept, ← h.sending_eq_false, perform_recv]
  simp only [List.prefix_append_right_inj, List.self_eq_append_right]
  cases hpop : (p.endAt side).inbox.pop? with
  | none =>
    rw [(Fifo.pop?_eq_none_iff _).1 hpop]
    cases (p.endAt side.other).sending <;> simp
  | some popped =>
    obtain ⟨next, inbox⟩ := popped
    rw [Fifo.toList_of_pop? hpop]
    refine ⟨fun bs => ?_, by simp⟩
    rw [List.cons_prefix_cons]
    simp [@eq_comm _ bs]

end Tracks

/-! ### One direction alone -/

/-- The events of the chunks that move towards an end. -/
def inbound (side : Side) (log : List (Side × Event)) : List (Side × Event) :=
  log.filter fun (s, e) =>
    match e with
    | .sent _ | .refused .. => s = side.other
    | .received _ => s = side
    | .closed | .dropped => false

theorem inbound_append (log more : List (Side × Event)) :
    inbound side (log ++ more) = inbound side log ++ inbound side more :=
  List.filter_append ..

/-- Two pipes that do not differ in what moves towards an end. -/
structure AgreeTowards (side : Side) (p q : Pipe) : Prop where
  inbox : (p.endAt side).inbox = (q.endAt side).inbox
  alive : (p.endAt side).alive = (q.endAt side).alive
  sending : (p.endAt side.other).sending = (q.endAt side.other).sending

namespace AgreeTowards

theorem refl (p : Pipe) : AgreeTowards side p p := ⟨rfl, rfl, rfl⟩

theorem symm (h : AgreeTowards side p q) : AgreeTowards side q p :=
  ⟨h.inbox.symm, h.alive.symm, h.sending.symm⟩

theorem trans {r : Pipe} (h : AgreeTowards side p q) (h' : AgreeTowards side q r) :
    AgreeTowards side p r :=
  ⟨h.inbox.trans h'.inbox, h.alive.trans h'.alive, h.sending.trans h'.sending⟩

theorem close (p : Pipe) : AgreeTowards side (p.close side) p := by
  constructor <;> simp [endAt_close]

/-- What is sent from an end does not move towards it. -/
theorem send_away (p : Pipe) :
    AgreeTowards side (p.perform side (.send chunk)).2 p ∧
      inbound side [(side, (p.perform side (.send chunk)).1)] = [] := by
  rw [perform_send]
  split
  · exact ⟨refl p, by simp [inbound]⟩
  · split
    · exact ⟨refl p, by simp [inbound]⟩
    · exact ⟨by constructor <;> simp [endAt_setEnd], by simp [inbound]⟩

/-- What the other end receives did not move towards this one. -/
theorem recv_away (p : Pipe) :
    AgreeTowards side (p.perform side.other .recv).2 p ∧
      inbound side [(side.other, (p.perform side.other .recv).1)] = [] := by
  rw [perform_recv]
  split
  · exact ⟨by constructor <;> simp [endAt_setEnd], by simp [inbound]⟩
  · exact ⟨refl p, by simp [inbound]⟩

variable (h : AgreeTowards side p q)
include h

theorem send_towards :
    AgreeTowards side (p.perform side.other (.send chunk)).2
        (q.perform side.other (.send chunk)).2 ∧
      (p.perform side.other (.send chunk)).1 = (q.perform side.other (.send chunk)).1 := by
  simp only [perform_send, Side.other_other, h.alive, h.sending]
  split
  · exact ⟨h, rfl⟩
  · split
    · exact ⟨h, rfl⟩
    · exact ⟨by constructor <;> simp [endAt_setEnd, h.inbox], rfl⟩

theorem recv_towards :
    AgreeTowards side (p.perform side .recv).2 (q.perform side .recv).2 ∧
      (p.perform side .recv).1 = (q.perform side .recv).1 := by
  simp only [perform_recv, h.inbox, h.sending]
  split
  · exact ⟨by constructor <;> simp [endAt_setEnd, h.sending, h.alive], rfl⟩
  · exact ⟨h, rfl⟩

theorem drop (s : Side) : AgreeTowards side (p.drop s) (q.drop s) := by
  obtain rfl | rfl := Side.eq_or_eq_other side s
  · constructor <;> simp [endAt_drop, h.sending]
  · constructor <;> simp [endAt_drop, h.inbox, h.alive]

theorem perform (s : Side) (a : Act) :
    AgreeTowards side (p.perform s a).2 (q.perform s a).2 ∧
      inbound side [(s, (p.perform s a).1)] = inbound side [(s, (q.perform s a).1)] := by
  cases a with
  | send chunk =>
    obtain rfl | rfl := Side.eq_or_eq_other side s
    · exact ⟨(send_away p).1.trans (h.trans (send_away q).1.symm),
        (send_away p).2.trans (send_away q).2.symm⟩
    · exact ⟨h.send_towards.1, by rw [h.send_towards.2]⟩
  | recv =>
    obtain rfl | rfl := Side.eq_or_eq_other side s
    · exact ⟨h.recv_towards.1, by rw [h.recv_towards.2]⟩
    · exact ⟨(recv_away p).1.trans (h.trans (recv_away q).1.symm),
        (recv_away p).2.trans (recv_away q).2.symm⟩
  | close =>
    refine ⟨?_, rfl⟩
    obtain rfl | rfl := Side.eq_or_eq_other side s
    · exact (close p).trans (h.trans (close q).symm)
    · constructor <;> simp [Pipe.perform, endAt_close, h.inbox, h.alive]
  | drop => exact ⟨h.drop s, rfl⟩

end AgreeTowards

/-- **An end that is closed still receives as if it were not.** Without the closes of an end, the
same chunks move towards it, and come out at the same times. -/
theorem inbound_run_without_close (acts : List (Side × Act)) (h : AgreeTowards side p q) :
    inbound side (run acts p).1 = inbound side (run (acts.filter (· ≠ (side, .close))) q).1 := by
  induction acts generalizing p q with
  | nil => rfl
  | cons act acts ih =>
    obtain ⟨s, a⟩ := act
    by_cases hact : (s, a) = (side, .close)
    · obtain ⟨rfl, rfl⟩ := Prod.mk.injEq .. ▸ hact
      rw [List.filter_cons_of_neg (by simp)]
      exact ih ((AgreeTowards.close p).trans h)
    · rw [List.filter_cons_of_pos (by exact decide_eq_true hact)]
      calc inbound side (run ((s, a) :: acts) p).1
          = inbound side [(s, (p.perform s a).1)] ++
              inbound side (run acts (p.perform s a).2).1 :=
          inbound_append [_] _
        _ = inbound side [(s, (q.perform s a).1)] ++
              inbound side (run (acts.filter (· ≠ (side, .close))) (q.perform s a).2).1 := by
          rw [(h.perform s a).2, ih (h.perform s a).1]
        _ = inbound side (run ((s, a) :: acts.filter (· ≠ (side, .close))) q).1 :=
          (inbound_append [_] _).symm

/-- **A pipe loses nothing while both ends are there.** After any acts at the two ends:

* What has come out at an end is what went in at the other, or a first part of it, chunk by chunk.
* An end that was not dropped (one that was is asked no more) receives the next chunk of what went
  in, and is told that no more comes just if the other end was closed or dropped and all that went
  in there has come out.
* A send is refused at an end that was closed (or dropped itself), and if the other end was
  dropped; all other sends go in.
* To close an end changes nothing of what moves towards it.
* The bytes counted at an end are those of the chunks that went in there. -/
theorem run_lossless (acts : List (Side × Act)) (side : Side) :
    let log := (run acts {}).1
    let p := (run acts {}).2
    receivedAt side log <+: sentAt side.other log ∧
    ((side, .drop) ∉ acts →
      (∀ bs, (p.perform side .recv).1 = .received (.chunk bs) ↔
        receivedAt side log ++ [bs] <+: sentAt side.other log) ∧
      ((p.perform side .recv).1 = .received .ended ↔
        ((side.other, .close) ∈ acts ∨ (side.other, .drop) ∈ acts) ∧
          receivedAt side log = sentAt side.other log)) ∧
    (∀ chunk, (p.perform side (.send chunk)).1 =
      if (side, .close) ∈ acts ∨ (side, .drop) ∈ acts then .refused chunk .closed
      else if (side.other, .drop) ∈ acts then .refused chunk (.connectionLost "peer dropped")
      else .sent chunk) ∧
    inbound side log = inbound side (run (acts.filter (· ≠ (side, .close))) {}).1 ∧
    (p.endAt side).sent = ((sentAt side log).map List.length).sum := by
  intro log p
  have h : Tracks log p := tracks_run acts Tracks.empty
  have hclosed (s : Side) : (s, .close) ∈ acts ↔ (s, .closed) ∈ log := closed_mem_run_iff.symm
  have hdropped (s : Side) : (s, .drop) ∈ acts ↔ (s, .dropped) ∈ log := dropped_mem_run_iff.symm
  refine ⟨h.receivedAt_prefix, fun hkept => ?_, fun chunk => ?_, ?_, h.sent side⟩
  · rw [hclosed, hdropped]
    exact h.recv_outcome (mt (hdropped side).2 hkept)
  · simp only [hclosed, hdropped]
    exact h.send_outcome
  · exact inbound_run_without_close acts (AgreeTowards.refl {})

/-- What was sent before a close is drained and then ends, the other direction goes on, and a send
at the end that was closed is refused. -/
theorem run_lossless_halfClosed :
    let acts : List (Side × Act) := [(.left, .send [1, 2]), (.left, .close), (.right, .send [3]),
      (.right, .recv)]
    let p := (run acts {}).2
    (.right, .drop) ∉ acts ∧ (.left, .drop) ∉ acts ∧
      (p.perform .right .recv).1 = .received .ended ∧
      (p.perform .left .recv).1 = .received (.chunk [3]) ∧
      (p.perform .left (.send [4])).1 = .refused [4] .closed ∧ (p.endAt .left).sent = 2 := by
  intro acts p
  have hright : (Side.right, Act.drop) ∉ acts := by decide
  have hleft : (Side.left, Act.drop) ∉ acts := by decide
  have hclose : (Side.left, Act.close) ∈ acts := by decide
  obtain ⟨-, hrecv, -⟩ := run_lossless acts .right
  obtain ⟨-, hrecv', hsend, -, hsent⟩ := run_lossless acts .left
  refine ⟨hright, hleft, (hrecv hright).2.2 ⟨.inl hclose, rfl⟩, ((hrecv' hleft).1 [3]).2 ⟨[], rfl⟩,
    ?_, hsent⟩
  rw [hsend [4], if_pos (.inl hclose)]

end Pipe

end TraceRelay
