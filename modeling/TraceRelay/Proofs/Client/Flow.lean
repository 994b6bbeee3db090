import TraceRelay.Client.Outbox

/-!
# From the queue to the transport

The sender takes frames from the outbox and hands them to the transport, each one whole and in the
order in which they were queued, until one of them fails. Whenever frames are queued, the sender
runs, or the outbox is shut in between: what was handed to the transport is the front part of what
was queued, only the last of it can have failed, and what failed is known to the outbox.

## Main definitions

* `Attempt`, `Outbox.attempts` : a frame that was handed to the transport, and those of a run of the
  sender.
* `Outbox.Flow` : what was queued, what was handed to the transport, and what the outbox knows.

## Main results

* `Outbox.pump_cases_attempts` : how a run of the sender ends.
* `Outbox.framesSent_attempts` : what a run of the sender gives out.
* `Outbox.Flow.push`, `Outbox.Flow.pump`, `Outbox.Flow.abort`, `Outbox.Flow.withQueue` : what
  happens to an outbox.
* `Outbox.Flow.sent_prefix`, `Outbox.Flow.behind_eq_nil`, `Outbox.Flow.failure_eq`,
  `Outbox.Flow.all_sent` : what follows for the transport.
-/

namespace TraceRelay

/-- A frame that was handed to the transport, and the failure that it met. -/
structure Attempt where
  frame : Bytes
  failure : Option TransportError
deriving DecidableEq

/-- A frame that was sent. -/
def Attempt.sent (frame : Bytes) : Attempt := ⟨frame, none⟩

/-- The frames that were sent. -/
def Attempt.framesSent (tried : List Attempt) : List Bytes :=
  (tried.filter (·.failure = none)).map (·.frame)

theorem Attempt.framesSent_map_sent (frames : List Bytes) :
    framesSent (frames.map sent) = frames := by
  have hall : (frames.map sent).filter (·.failure = none) = frames.map sent :=
    List.filter_eq_self.mpr (by simp [sent])
  rw [framesSent, hall, List.map_map]
  exact List.map_id frames

theorem Attempt.framesSent_concat_failed (tried : List Attempt) (frame : Bytes)
    (cause : TransportError) : framesSent (tried ++ [⟨frame, some cause⟩]) = framesSent tried := by
  simp [framesSent]

namespace Outbox

/-- What the sender hands to the transport of frames that wait, of which a number was sent before. A
transport that never answers has neither sent the frame nor failed. -/
def attemptsFrom (deliver : Nat → Delivery) (sent : Nat) : List Bytes → List Attempt
  | [] => []
  | frame :: frames =>
    match deliver sent with
    | .sent => .sent frame :: attemptsFrom deliver (sent + 1) frames
    | .failed cause => [⟨frame, some cause⟩]
    | .stalled => []

/-- What the sender hands to the transport until it has nothing left to do. -/
def attempts (deliver : Nat → Delivery) (o : Outbox) : List Attempt :=
  attemptsFrom deliver o.sentCount o.waiting.toList

variable {deliver : Nat → Delivery} {o o' : Outbox}

theorem sendAll_cases_attempts (deliver : Nat → Delivery) (sent : Nat) (frames : List Bytes) :
    (∃ out left, frames = out ++ left ∧ sendAll deliver sent frames = (out, left, none) ∧
      attemptsFrom deliver sent frames = out.map .sent) ∨
    ∃ out frame cause lost, frames = out ++ frame :: lost ∧
      sendAll deliver sent frames = (out, [], some cause) ∧
      attemptsFrom deliver sent frames = out.map .sent ++ [⟨frame, some cause⟩] := by
  induction frames generalizing sent with
  | nil => exact .inl ⟨[], [], rfl, rfl, rfl⟩
  | cons frame frames ih =>
    unfold sendAll attemptsFrom
    cases deliver sent with
    | sent =>
      rcases ih (sent + 1) with ⟨out, left, rfl, hsend, htried⟩ |
        ⟨out, failed, cause, lost, rfl, hsend, htried⟩
      · exact .inl ⟨frame :: out, left, rfl, by simp only [hsend], by simp only [htried]; rfl⟩
      · exact .inr ⟨frame :: out, failed, cause, lost, rfl, by simp only [hsend],
          by simp only [htried]; rfl⟩
    | failed cause => exact .inr ⟨[], frame, cause, frames, rfl, rfl, rfl⟩
    | stalled => exact .inl ⟨[], frame :: frames, rfl, rfl, rfl⟩

/-- A run of the sender takes frames from the front of those that wait, until the transport fails or
nothing is left to do. -/
theorem pump_cases_attempts (deliver : Nat → Delivery) (o : Outbox) :
    (∃ out, o.waiting.toList = out ++ (o.pump deliver).2.waiting.toList ∧
      (o.pump deliver).1 = out ∧ o.attempts deliver = out.map .sent ∧
      (o.pump deliver).2.failure = o.failure ∧
      (o.pump deliver).2.accepting = o.accepting) ∨
    ∃ out frame cause lost, o.waiting.toList = out ++ frame :: lost ∧
      (o.pump deliver).1 = out ∧ o.attempts deliver = out.map .sent ++ [⟨frame, some cause⟩] ∧
      (o.pump deliver).2.failure = o.failure.or (some cause) ∧
      (o.pump deliver).2.accepting = false ∧ (o.pump deliver).2.waiting.toList = [] := by
  rcases sendAll_cases_attempts deliver o.sentCount o.waiting.toList with
    ⟨out, left, hwaiting, hsend, htried⟩ | ⟨out, frame, cause, lost, hwaiting, hsend, htried⟩
  · refine .inl ⟨out, ?_, ?_, htried, ?_⟩
    · simpa only [pump, hsend, Fifo.toList_ofList] using hwaiting
    · simp only [pump, hsend]
    · simp only [pump, hsend, and_self]
  · refine .inr ⟨out, frame, cause, lost, hwaiting, ?_, htried, ?_⟩
    · simp only [pump, hsend]
    · simp only [pump, hsend, Fifo.toList_ofList, and_self]

/-- The frames that a run of the sender gives out are those that it hands to the transport without
failure. -/
theorem framesSent_attempts (deliver : Nat → Delivery) (o : Outbox) :
    Attempt.framesSent (o.attempts deliver) = (o.pump deliver).1 := by
  rcases pump_cases_attempts deliver o with ⟨out, -, hout, htried, -⟩ |
    ⟨out, frame, cause, lost, -, hout, htried, -⟩
  · rw [hout, htried, Attempt.framesSent_map_sent]
  · rw [hout, htried, Attempt.framesSent_concat_failed, Attempt.framesSent_map_sent]

/-- A sender for which nothing waits does nothing. -/
theorem pump_of_idle (deliver : Nat → Delivery) (hwaiting : o.waiting.toList = []) :
    o.attempts deliver = [] ∧ (o.pump deliver).2.waiting.toList = [] ∧
      (o.pump deliver).2.failure = o.failure ∧ (o.pump deliver).2.accepting = o.accepting := by
  rcases pump_cases_attempts deliver o with ⟨out, hout, -, htried, hfailure, haccepting⟩ |
    ⟨out, frame, cause, lost, hout, -⟩
  · obtain ⟨rfl, hempty⟩ := List.append_eq_nil_iff.mp (hout.symm.trans hwaiting)
    exact ⟨htried, hempty, hfailure, haccepting⟩
  · simp [hwaiting] at hout

theorem aborted_pump (deliver : Nat → Delivery) (o : Outbox) :
    (o.pump deliver).2.aborted = o.aborted := by
  unfold pump
  dsimp only
  split <;> rfl

/-- What was queued, what was handed to the transport, and what the outbox knows. The sender is
still running, or a frame failed, or the sender was stopped; in the last two cases the frames behind
are lost. -/
inductive Flow (queued : List Bytes) : List Attempt → Outbox → Prop
  | running {sent : List Bytes} {o : Outbox} (haborted : o.aborted = false)
    (hfailure : o.failure = none) (hqueued : queued = sent ++ o.waiting.toList) :
    Flow queued (sent.map .sent) o
  | failed {sent lost : List Bytes} {frame : Bytes} {cause : TransportError} {o : Outbox}
    (hfailure : o.failure = some cause) (haccepting : o.accepting = false)
    (hwaiting : o.waiting.toList = []) (hqueued : queued = sent ++ frame :: lost) :
    Flow queued (sent.map .sent ++ [⟨frame, some cause⟩]) o
  | stopped {sent lost : List Bytes} {o : Outbox} (haborted : o.aborted = true)
    (hfailure : o.failure = none) (haccepting : o.accepting = false)
    (hwaiting : o.waiting.toList = []) (hqueued : queued = sent ++ lost) :
    Flow queued (sent.map .sent) o

namespace Flow

variable {queued frames : List Bytes} {tried : List Attempt}

theorem start : Flow [] [] {} :=
  show Flow [] (([] : List Bytes).map .sent) {} from .running rfl rfl rfl

/-! ### What happens to an outbox -/

/-- Frames are queued, unless the sender has failed or was stopped. -/
theorem push (h : Flow queued tried o) (hwaiting : o'.waiting.toList = o.waiting.toList ++ frames)
    (hfailure : o'.failure = o.failure) (haborted : o'.aborted = o.aborted)
    (hshut : o.accepting = false → o'.accepting = false)
    (hrefused : o.failure.isSome ∨ o.aborted = true → frames = []) :
    Flow (queued ++ frames) tried o' := by
  cases h with
  | running hgoes hnone hqueued =>
    exact .running (haborted.trans hgoes) (hfailure.trans hnone)
      (by rw [hqueued, hwaiting, List.append_assoc])
  | failed hsome haccepting hempty hqueued =>
    obtain rfl := hrefused (.inl (by rw [hsome]; rfl))
    exact .failed (hfailure.trans hsome) (hshut haccepting) (by rw [hwaiting, hempty]; rfl)
      (by rw [List.append_nil, hqueued])
  | stopped hstopped hnone haccepting hempty hqueued =>
    obtain rfl := hrefused (.inr hstopped)
    exact .stopped (haborted.trans hstopped) (hfailure.trans hnone) (hshut haccepting)
      (by rw [hwaiting, hempty]; rfl) (by rw [List.append_nil, hqueued])

/-- The sender runs. -/
theorem pump (h : Flow queued tried o) (deliver : Nat → Delivery) :
    Flow queued (tried ++ o.attempts deliver) (o.pump deliver).2 := by
  have haborted := aborted_pump deliver o
  cases h with
  | @running sent _ hgoes hnone hqueued =>
    rcases pump_cases_attempts deliver o with ⟨out, hout, -, htried, hfailure, -⟩ |
      ⟨out, frame, cause, lost, hout, -, htried, hfailure, haccepting, hempty⟩
    · rw [htried, ← List.map_append]
      exact .running (haborted.trans hgoes) (hfailure.trans hnone)
        (by rw [hqueued, hout, List.append_assoc])
    · rw [htried, ← List.append_assoc, ← List.map_append]
      have hlost : queued = sent ++ out ++ frame :: lost := by
        rw [hqueued, hout, List.append_assoc]
      exact .failed (hfailure.trans (by rw [hnone]; rfl)) haccepting hempty hlost
  | failed hsome haccepting hempty hqueued =>
    obtain ⟨hnil, hempty', hfailure, haccepting'⟩ := pump_of_idle deliver hempty
    rw [hnil, List.append_nil]
    exact .failed (hfailure.trans hsome) (haccepting'.trans haccepting) hempty' hqueued
  | stopped hstopped hnone haccepting hempty hqueued =>
    obtain ⟨hnil, hempty', hfailure, haccepting'⟩ := pump_of_idle deliver hempty
    rw [hnil, List.append_nil]
    exact .stopped (haborted.trans hstopped) (hfailure.trans hnone) (haccepting'.trans haccepting)
      hempty' hqueued

/-- The sender is stopped. -/
theorem abort (h : Flow queued tried o) : Flow queued tried o.abort := by
  cases h with
  | running _ hnone hqueued => exact .stopped rfl hnone rfl Fifo.toList_empty hqueued
  | failed hsome _ _ hqueued => exact .failed hsome rfl Fifo.toList_empty hqueued
  | stopped _ hnone _ _ hqueued => exact .stopped rfl hnone rfl Fifo.toList_empty hqueued

/-- A sender that failed or was stopped takes no more frames. -/
theorem accepting_eq_false (h : Flow queued tried o)
    (hstopped : o.failure.isSome = true ∨ o.aborted = true) : o.accepting = false := by
  cases h with
  | running haborted hfailure => simp [haborted, hfailure] at hstopped
  | failed _ haccepting | stopped _ _ haccepting => exact haccepting

/-- While the sender is running the queue can be open or shut. -/
theorem withQueue (h : Flow queued tried o) {accepting : Bool}
    (hopen : accepting = true → o.accepting = true ∨ o.failure = none ∧ o.aborted = false) :
    Flow queued tried { o with accepting } := by
  have hshut (haccepting : o.accepting = false)
      (hstopped : ¬ (o.failure = none ∧ o.aborted = false)) : accepting = false := by
    rw [← Bool.not_eq_true]
    intro htrue
    rcases hopen htrue with hold | hrunning
    · rw [haccepting] at hold
      cases hold
    · exact hstopped hrunning
  cases h with
  | running haborted hfailure hqueued => exact .running haborted hfailure hqueued
  | failed hfailure haccepting hwaiting hqueued =>
    exact .failed hfailure (hshut haccepting (by simp [hfailure])) hwaiting hqueued
  | stopped haborted hfailure haccepting hwaiting hqueued =>
    exact .stopped haborted hfailure (hshut haccepting (by simp [haborted])) hwaiting hqueued

/-! ### What follows for the transport -/

/-- The frames that were sent are the front part of those that were queued. -/
theorem sent_prefix (h : Flow queued tried o) : Attempt.framesSent tried <+: queued := by
  cases h with
  | running _ _ hqueued | stopped _ _ _ _ hqueued =>
    rw [Attempt.framesSent_map_sent, hqueued]
    exact List.prefix_append _ _
  | @failed sent lost frame cause _ _ _ _ hqueued =>
    rw [Attempt.framesSent_concat_failed, Attempt.framesSent_map_sent, hqueued]
    exact List.prefix_append _ _

/-- Nothing is handed to the transport behind a frame that failed. -/
theorem behind_eq_nil (h : Flow queued tried o) {before behind : List Attempt} {a : Attempt}
    (htried : tried = before ++ a :: behind) (ha : a.failure ≠ none) : behind = [] := by
  have hsent {sent : List Bytes} {front back : List Attempt}
      (hall : sent.map Attempt.sent = front ++ a :: back) : False := by
    have hmem : a ∈ sent.map Attempt.sent := by simp [hall]
    obtain ⟨frame, -, rfl⟩ := List.mem_map.mp hmem
    exact ha rfl
  cases h with
  | running | stopped => exact (hsent htried).elim
  | failed =>
    rcases List.eq_nil_or_concat behind with rfl | ⟨rest, last, rfl⟩
    · rfl
    · have hall := congrArg List.dropLast htried
      rw [List.concat_eq_append, List.dropLast_concat, ← List.cons_append, ← List.append_assoc,
        List.dropLast_concat] at hall
      exact (hsent hall).elim

/-- What failed is known to the outbox, which accepts no more frames. -/
theorem failure_eq (h : Flow queued tried o) {a : Attempt} {cause : TransportError}
    (hmem : a ∈ tried) (ha : a.failure = some cause) :
    o.failure = some cause ∧ o.accepting = false ∧ o.waiting.toList = [] := by
  have hsent {sent : List Bytes} (hall : a ∈ sent.map Attempt.sent) : False := by
    obtain ⟨frame, -, rfl⟩ := List.mem_map.mp hall
    cases ha
  cases h with
  | running | stopped => exact (hsent hmem).elim
  | failed hfailure haccepting hwaiting =>
    rcases List.mem_append.mp hmem with hall | hlast
    · exact (hsent hall).elim
    · obtain rfl := List.mem_singleton.mp hlast
      cases ha
      exact ⟨hfailure, haccepting, hwaiting⟩

/-- A sender that neither failed nor was stopped, and has nothing left to do, has sent all
frames. -/
theorem all_sent (h : Flow queued tried o) (hfailure : o.failure = none)
    (haborted : o.aborted = false) (hwaiting : o.waiting.toList = []) :
    tried = queued.map .sent := by
  cases h with
  | running _ _ hqueued => rw [hqueued, hwaiting, List.append_nil]
  | failed hsome => cases hfailure.symm.trans hsome
  | stopped hstopped => cases haborted.symm.trans hstopped

end Flow

end Outbox

end TraceRelay
