import TraceRelay.Proofs.Client.Announce
import TraceRelay.Proofs.Client.Script
import TraceRelay.Proofs.Client.Sender

/-!
# What calls come to

As long as the transport has not failed and no batch became too large, the client of a run shows a
ledger. Whatever a call does then, it is one of the outcomes below: they say what the run notes and
which ledger the client shows afterwards.

## Main definitions

* `Run.Tracks` : a run and its ledger.
* `Run.Outcome`, `Run.Reaches` : what a call comes to.

## Main results

* `Run.Tracks.reaches` : each call comes to one of the outcomes.
-/

namespace TraceRelay

/-- The stream that a record goes to can be read off the ledger. -/
theorem Client.streamFor_of_shows {c : Client} {l : Ledger} {out : List Bytes}
    (h : c.Shows out l) (thread : ThreadId) (ordering : Option UInt8) :
    c.streamFor thread ordering = l.target thread ordering := by
  cases ordering with
  | some i => rfl
  | none =>
    change (c.streamOf? thread).getD (.own c.own.size) = .own (l.streamOf[thread]?.getD l.opened)
    rw [streamOf?_of_shows h, h.size_own]
    cases l.streamOf[thread]? <;> rfl

namespace Run

/-- A run and its ledger. -/
structure Tracks (r : Run) (l : Ledger) : Prop where
  isOpen : r.client.closed = false
  shows : r.client.Shows r.sent l
  sound : l.Sound
  accounts : l.Accounts r.accepted r.freed
  announces : l.Announces r.named
  ends : l.Ends
  has : ∀ entry ∈ r.accepted, l.Has entry.1
  drafts : ∀ n d, r.drafts n = some d → l.methods.contains d.method = true ∧
    (d.writer.fault = none → d.writer.record.Holds ⟨d.method, d.args⟩)

variable {r : Run} {l l' : Ledger} {c : Client} {α : Type}

/-- A draft that was begun with a number, or none. -/
theorem Tracks.setDraft (h : r.Tracks l) (n : Nat) {d : Option Draft}
    (hd : ∀ d', d = some d' → l.methods.contains d'.method = true ∧
      (d'.writer.fault = none → d'.writer.record.Holds ⟨d'.method, d'.args⟩)) :
    (r.setDraft n d).Tracks l := by
  refine { h with drafts := fun m d' hm => ?_ }
  have hsome : (if m = n then d else r.drafts m) = some d' := hm
  by_cases heq : m = n
  · rw [if_pos heq] at hsome
    exact hd d' hsome
  · rw [if_neg heq] at hsome
    exact h.drafts m d' hsome

theorem Tracks.dropDraft (h : r.Tracks l) (n : Nat) : (r.setDraft n none).Tracks l :=
  h.setDraft n fun _ hd => nomatch hd

/-! ### What a call comes to -/

/-- What a call comes to: what the run notes of it, and the ledger afterwards. How full the batches
are decides only about the ledger. -/
inductive Outcome (r : Run) (l : Ledger) : Call → (Run → Run) → Ledger → Prop
  | again {name : String} {id : MethodId} (hold : l.methods.find? name = some id) :
    Outcome r l (.register name) (fun r => { r with named := r.named ++ [(name, id)] }) l
  | announced {name : String} (hnew : l.methods.find? name = none)
      (hfew : l.methods.count < MethodTable.maxId)
      (hwritten : ∃ frame,
        (Message.registerMethod (.ofNat (l.methods.count + 1)) name).toBytes = .ok frame) :
    Outcome r l (.register name)
      (fun r => { r with named := r.named ++ [(name, .ofNat (l.methods.count + 1))] })
      (l.announce name)
  | unnamed {name : String} (hnew : l.methods.find? name = none)
      (hnone : MethodTable.maxId ≤ l.methods.count ∨ ∃ cause,
        (Message.registerMethod (.ofNat (l.methods.count + 1)) name).toBytes = .error cause) :
    Outcome r l (.register name) id l
  | dispatched {thread : ThreadId} {method : MethodId} {args : List Value} {l' : Ledger}
      (hmethod : l.methods.contains method = true) (hfits : ∀ v ∈ args, v.fits = true)
      (hfew : args.length ≤ Record.maxArgs)
      (htook : Ledger.Took (l.target thread none) ⟨method, args⟩ (l.prepare thread none) l') :
    Outcome r l (.dispatch thread method args) (accept (l.target thread none) ⟨method, args⟩) l'
  | undispatched {thread : ThreadId} {method : MethodId} {args : List Value}
      (hnot : ¬ (l.methods.contains method = true ∧ ∀ v ∈ args, v.fits = true)) :
    Outcome r l (.dispatch thread method args) id l
  | dispatchedTooMany {thread : ThreadId} {method : MethodId} {args : List Value}
      (hmethod : l.methods.contains method = true) (hfits : ∀ v ∈ args, v.fits = true)
      (hmany : args.length > Record.maxArgs) :
    Outcome r l (.dispatch thread method args) id (l.prepare thread none)
  | begun {n : Nat} {method : MethodId} {ordering : Option UInt8}
      (hmethod : l.methods.contains method = true) :
    Outcome r l (.begin n method ordering)
      (setDraft n (some { writer := { record := .start method, ordering }, method })) l
  | unbegun {n : Nat} {method : MethodId} {ordering : Option UInt8}
      (hnot : ¬ l.methods.contains method = true) : Outcome r l (.begin n method ordering) id l
  | sent (n : Nat) (v : Value) :
    Outcome r l (.send n v) (setDraft n ((r.drafts n).map (·.send v))) l
  | noDraft {thread : ThreadId} {n : Nat} (hnone : r.drafts n = none) :
    Outcome r l (.finish thread n) id l
  | finished {thread : ThreadId} {n : Nat} {d : Draft} {l' : Ledger} (hd : r.drafts n = some d)
      (hfault : d.writer.fault = none) (hfew : d.args.length ≤ Record.maxArgs)
      (htook : Ledger.Took (l.target thread d.writer.ordering) ⟨d.method, d.args⟩
        (l.prepare thread d.writer.ordering) l') :
    Outcome r l (.finish thread n) (fun r =>
      accept (l.target thread d.writer.ordering) ⟨d.method, d.args⟩ (r.setDraft n none)) l'
  | unfinished {thread : ThreadId} {n : Nat} {d : Draft} (hd : r.drafts n = some d)
      (hfault : d.writer.fault ≠ none) : Outcome r l (.finish thread n) (setDraft n none) l
  | finishedTooMany {thread : ThreadId} {n : Nat} {d : Draft} (hd : r.drafts n = some d)
      (hfault : d.writer.fault = none) (hmany : d.args.length > Record.maxArgs) :
    Outcome r l (.finish thread n) (setDraft n none) (l.prepare thread d.writer.ordering)
  | discarded (n : Nat) : Outcome r l (.discard n) (setDraft n none) l
  | freed {t : Token} {l' : Ledger}
      (hfree : l' = l.free t ∨ l' = (l.free t).sealEvents.sealFrees) :
    Outcome r l (.objectFreed t) (fun r => { r with freed := r.freed ++ [t] }) l'
  | told {call : Call} {m : Message} (hcall : call.tells? = some m) :
    Outcome r l call id (l.post ⟨none, m⟩)
  | untold {call : Call} {m : Message} (hcall : call.tells? = some m) : Outcome r l call id l
  | flushed : Outcome r l .flush id l.sealEvents.sealFrees
  | threadEnded (thread : ThreadId) : Outcome r l (.threadEnd thread) id (l.endStream thread)
  | threadGone (thread : ThreadId) : Outcome r l (.threadGone thread) id (l.orphan thread)
  | senderRan (deliver : Nat → Delivery) : Outcome r l (.runSender deliver) id l

/-- A call came to something, and the client shows the ledger afterwards. -/
def Reaches (r : Run) (l : Ledger) (call : Call) (r' : Run) (l' : Ledger) : Prop :=
  ∃ note c sent faults, Outcome r l call note l' ∧ r' = note { r with client := c, sent, faults } ∧
    c.closed = false ∧ c.Shows sent l'

/-- A call that ends in a ledger, as the run notes its result. -/
private theorem perform_cases (h : r.Tracks l) {call : EStateM ClientError Client α}
    {note : α → Run → Run} {good : α → Ledger → Prop} {bad : ClientError → Ledger → Prop}
    (hcall : Client.Yields r.sent good bad (call r.client))
    (hkeeps : Step.Keeps (·.gate = r.client.gate) call)
    (hlarge : .wire .batchTooLarge ∉ (r.perform call note).faults) :
    ∃ c l', c.closed = false ∧ c.Shows r.sent l' ∧
      ((∃ a, good a l' ∧ r.perform call note = note a { r with client := c }) ∨
        ∃ e, bad e l' ∧
          r.perform call note = { r with client := c, faults := r.faults ++ [e] }) := by
  have hgate := hkeeps r.client rfl
  have hopen {c : Client} (hc : c.gate = r.client.gate) : c.closed = false :=
    (congrArg (·.2.1) hc).trans h.isOpen
  unfold perform at hlarge ⊢
  cases hend : call r.client with
  | ok a c =>
    rw [hend] at hcall hgate
    cases hcall with
    | ok hshows hl => exact ⟨c, _, hopen hgate, hshows, .inl ⟨a, hl, rfl⟩⟩
  | error e c =>
    rw [hend] at hcall hgate hlarge
    cases hcall with
    | error hshows hl => exact ⟨c, _, hopen hgate, hshows, .inr ⟨e, hl, rfl⟩⟩
    | tooLarge =>
      exact absurd (List.mem_append_right r.faults (List.mem_singleton_self _)) hlarge

private theorem reaches_register (h : r.Tracks l) (name : String)
    (hlarge : .wire .batchTooLarge ∉ (r.step (.register name)).faults) :
    ∃ l', r.Reaches l (.register name) (r.step (.register name)) l' := by
  obtain ⟨c, l', hopen, hshows, ⟨id, hl, heq⟩ | ⟨e, hl, heq⟩⟩ := perform_cases h
    (Client.register_yields h.shows h.isOpen name) ((Client.lasting_gate _).keeps_register name)
    hlarge
  · rcases hl with ⟨hold, rfl⟩ | ⟨hnew, hfew, rfl, rfl, hwritten⟩
    · exact ⟨l', _, c, r.sent, r.faults, .again hold, heq, hopen, hshows⟩
    · exact ⟨_, _, c, r.sent, r.faults, .announced hnew hfew hwritten, heq, hopen, hshows⟩
  · obtain ⟨rfl, hnew, hnone⟩ := hl
    exact ⟨l', _, c, r.sent, _, .unnamed hnew hnone, heq, hopen, hshows⟩

private theorem reaches_dispatch (h : r.Tracks l) (thread : ThreadId) (method : MethodId)
    (args : List Value)
    (hlarge : .wire .batchTooLarge ∉ (r.step (.dispatch thread method args)).faults) :
    ∃ l', r.Reaches l (.dispatch thread method args)
      (r.step (.dispatch thread method args)) l' := by
  obtain ⟨c, l', hopen, hshows, ⟨_, hl, heq⟩ | ⟨e, hl, heq⟩⟩ := perform_cases h
    (Client.dispatch_yields h.shows h.isOpen h.sound thread method args)
    ((Client.lasting_gate _).keeps_dispatch thread method args) hlarge
  · obtain ⟨hmethod, hfits, hfew, htook⟩ := hl
    have hfor := Client.streamFor_of_shows h.shows thread none
    exact ⟨l', _, c, r.sent, r.faults, .dispatched hmethod hfits hfew htook,
      heq.trans (congrArg (accept · _ _) hfor), hopen, hshows⟩
  · rcases hl with ⟨hnot, rfl⟩ | ⟨⟨hmethod, hfits⟩, hmany, rfl⟩
    · exact ⟨l', _, c, r.sent, _, .undispatched hnot, heq, hopen, hshows⟩
    · exact ⟨_, _, c, r.sent, _, .dispatchedTooMany hmethod hfits hmany, heq, hopen, hshows⟩

private theorem reaches_begin (h : r.Tracks l) (n : Nat) (method : MethodId)
    (ordering : Option UInt8) :
    ∃ l', r.Reaches l (.begin n method ordering) (r.step (.begin n method ordering)) l' := by
  have hbegin := Client.beginEvent_eq h.shows h.isOpen method ordering
  change ∃ l', r.Reaches l _ (r.perform (Client.beginEvent method ordering) _) l'
  rw [perform, hbegin]
  by_cases hmethod : l.methods.contains method = true
  · rw [if_pos hmethod]
    exact ⟨l, _, r.client, r.sent, r.faults, .begun hmethod, rfl, h.isOpen, h.shows⟩
  · rw [if_neg hmethod]
    exact ⟨l, _, r.client, r.sent, _, .unbegun hmethod, rfl, h.isOpen, h.shows⟩

private theorem reaches_finish (h : r.Tracks l) (thread : ThreadId) (n : Nat)
    (hlarge : .wire .batchTooLarge ∉ (r.step (.finish thread n)).faults) :
    ∃ l', r.Reaches l (.finish thread n) (r.step (.finish thread n)) l' := by
  cases hd : r.drafts n with
  | none =>
    rw [step_finish_of_none hd]
    exact ⟨l, _, r.client, r.sent, r.faults, .noDraft hd, rfl, h.isOpen, h.shows⟩
  | some d =>
    obtain ⟨hmethod, hholds⟩ := h.drafts n d hd
    rw [step_finish_of_some hd] at hlarge ⊢
    have hnone : (r.setDraft n none).Tracks l := h.dropDraft n
    obtain ⟨c, l', hopen, hshows, ⟨_, hl, heq⟩ | ⟨e, hl, heq⟩⟩ := perform_cases hnone
      (Client.finishEvent_yields h.shows h.sound thread hholds)
      ((Client.lasting_gate _).keeps_finishEvent thread d.writer) hlarge
    · obtain ⟨hfault, hfew, htook⟩ := hl
      have hfor := Client.streamFor_of_shows h.shows thread d.writer.ordering
      exact ⟨l', _, c, r.sent, r.faults, .finished hd hfault hfew htook,
        heq.trans (congrArg (accept · _ _) hfor), hopen, hshows⟩
    · rcases hl with ⟨hfault, rfl⟩ | ⟨hfault, hmany, rfl⟩
      · exact ⟨l', _, c, r.sent, _, .unfinished hd hfault, heq, hopen, hshows⟩
      · exact ⟨_, _, c, r.sent, _, .finishedTooMany hd hfault hmany, heq, hopen, hshows⟩

private theorem reaches_tell (h : r.Tracks l) {call : Call} {m : Message}
    (hcall : call.tells? = some m) (hlarge : .wire .batchTooLarge ∉ (r.tell m).faults) :
    ∃ l', r.Reaches l call (r.tell m) l' := by
  obtain ⟨c, l', hopen, hshows, ⟨_, hl, heq⟩ | ⟨e, hl, heq⟩⟩ := perform_cases h
    (Client.tell_yields h.shows h.isOpen m) ((Client.lasting_gate _).keeps_tell m) hlarge
  · obtain ⟨rfl, -⟩ := hl
    exact ⟨_, _, c, r.sent, r.faults, .told hcall, heq, hopen, hshows⟩
  · obtain ⟨rfl, -⟩ := hl
    exact ⟨l', _, c, r.sent, _, .untold hcall, heq, hopen, hshows⟩

/-- A call that cannot fail otherwise. -/
private theorem reaches_of_noFault (h : r.Tracks l) {call : Call}
    {step : EStateM ClientError Client PUnit} {note : Run → Run} {good : PUnit → Ledger → Prop}
    (hstep : Client.Yields r.sent good Client.noFault (step r.client))
    (hkeeps : Step.Keeps (·.gate = r.client.gate) step)
    (hgood : ∀ l', good ⟨⟩ l' → Outcome r l call note l')
    (hlarge : .wire .batchTooLarge ∉ (r.perform step fun _ => note).faults) :
    ∃ l', r.Reaches l call (r.perform step fun _ => note) l' := by
  obtain ⟨c, l', hopen, hshows, ⟨_, hl, heq⟩ | ⟨e, hl, -⟩⟩ := perform_cases h hstep hkeeps hlarge
  · exact ⟨l', note, c, r.sent, r.faults, hgood l' hl, heq, hopen, hshows⟩
  · exact hl.elim

/-- **One call of a run**, unless a batch became too large or the transport failed. -/
theorem Tracks.reaches (h : r.Tracks l) (call : Call)
    (hlarge : .wire .batchTooLarge ∉ (r.step call).faults)
    (hfailure : (r.step call).client.outbox.failure = none) :
    ∃ l', r.Reaches l call (r.step call) l' := by
  cases call with
  | register name => exact reaches_register h name hlarge
  | dispatch thread method args => exact reaches_dispatch h thread method args hlarge
  | begin n method ordering => exact reaches_begin h n method ordering
  | send n v => exact ⟨l, _, r.client, r.sent, r.faults, .sent n v, rfl, h.isOpen, h.shows⟩
  | finish thread n => exact reaches_finish h thread n hlarge
  | discard n => exact ⟨l, _, r.client, r.sent, r.faults, .discarded n, rfl, h.isOpen, h.shows⟩
  | objectFreed t =>
    exact reaches_of_noFault h (Client.objectFreed_yields h.shows h.isOpen h.sound t)
      ((Client.lasting_gate _).keeps_objectFreed t) (fun _ => .freed) hlarge
  | classInfo | stringInfo | threadInfo => exact reaches_tell h rfl hlarge
  | flush =>
    refine reaches_of_noFault h (Client.flush_yields h.shows h.isOpen h.sound)
      (Client.lasting_gate _).keeps_flush (fun l' hl => ?_) hlarge
    rw [hl]
    exact .flushed
  | threadEnd thread =>
    refine reaches_of_noFault h (Client.threadEnd_yields h.shows h.isOpen h.sound thread)
      ((Client.lasting_gate _).keeps_threadEnd thread) (fun l' hl => ?_) hlarge
    rw [hl]
    exact .threadEnded thread
  | threadGone thread =>
    have hgate := (Client.lasting_gate _).threadGone thread (c := r.client) rfl
    exact ⟨_, _, _, r.sent, r.faults, .threadGone thread, rfl,
      (congrArg (·.2.1) hgate).trans h.isOpen,
      Client.threadGone_shows h.shows h.sound.inRange thread⟩
  | runSender deliver =>
    obtain ⟨hshows, hclosed⟩ := Client.runSender_shows h.shows hfailure
    exact ⟨l, _, _, _, r.faults, .senderRan deliver, rfl, hclosed.trans h.isOpen, hshows⟩

end Run

end TraceRelay
