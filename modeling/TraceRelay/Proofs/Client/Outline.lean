import TraceRelay.Proofs.Client.Tracked

/-!
# What a script says by itself

Which records and tokens are accepted, and on which streams, can be read off a script without
looking at buffers, frames and settings. The outline of a script does so. A run in which no batch
became too large and the transport did not fail accepts what the outline says, whatever its settings
are and whenever its sender ran.

## Main definitions

* `Outline` : what is known of threads, methods and drafts, and what was accepted.
* `Outline.step`, `Outline.play` : one call, and all calls of a script.
* `Call.Orderly` : a script in which threads that are gone make no calls.

## Main results

* `Run.Tracks.outline` : a run and the outline of its script.
* `Run.Completed.accepted_eq` : what a session accepts does not depend on its settings.
-/

namespace TraceRelay

/-! ### Scripts -/

namespace Call

/-- The thread that makes a call, for calls of which it matters. -/
def thread? : Call → Option ThreadId
  | .dispatch thread _ _ | .finish thread _ | .threadEnd thread => some thread
  | _ => none

/-- The thread that is gone from then on. -/
def gone? : Call → Option ThreadId
  | .threadGone thread => some thread
  | _ => none

/-- Whether a step of a script is a call, and not a run of the sender. -/
def isCall : Call → Bool
  | .runSender _ => false
  | _ => true

/-- A script in which threads that are gone make no calls. -/
def Orderly (calls : List Call) : Prop :=
  calls.Pairwise fun earlier later => ∀ thread, earlier.gone? = some thread →
    later.thread? ≠ some thread

/-- The sender does not matter. -/
theorem orderly_filter (calls : List Call) : Orderly (calls.filter isCall) ↔ Orderly calls := by
  refine ⟨fun h => ?_, List.Pairwise.filter isCall⟩
  refine (List.pairwise_filter.1 h).imp fun {earlier later} hpair thread hgone hthread => ?_
  have hearlier : earlier.isCall = true := by cases earlier <;> first | rfl | cases hgone
  have hlater : later.isCall = true := by cases later <;> first | rfl | cases hthread
  exact hpair hearlier hlater thread hgone hthread

end Call

/-- A record under way, as the script shows it. -/
structure Sketch where
  method : MethodId
  ordering : Option UInt8
  args : List Value := []

/-- What a script says by itself. -/
structure Outline where
  methods : MethodTable := {}
  /-- How many streams threads ever had. -/
  opened : Nat := 0
  /-- The stream that each thread has now. -/
  streamOf : ThreadId → Option Nat := fun _ => none
  sketches : Nat → Option Sketch := fun _ => none
  accepted : List (StreamRef × Record) := []
  freed : List Token := []

namespace Outline

variable (o : Outline)

/-- The stream that a record goes to. -/
def target (thread : ThreadId) (ordering : Option UInt8) : StreamRef :=
  match ordering with
  | none => .own ((o.streamOf thread).getD o.opened)
  | some i => .shared i

/-- A thread gets a stream if it has none and needs one. -/
def prepare (thread : ThreadId) (ordering : Option UInt8) : Outline :=
  match ordering, o.streamOf thread with
  | none, none => { o with
      opened := o.opened + 1
      streamOf := Function.update o.streamOf thread (some o.opened) }
  | _, _ => o

/-- A record is accepted if it can be written. -/
def offer (thread : ThreadId) (ordering : Option UInt8) (record : Record) : Outline :=
  if ∀ v ∈ record.args, v.fits = true then
    if record.args.length ≤ Record.maxArgs then { o.prepare thread ordering with
      accepted := o.accepted ++ [(o.target thread ordering, record)] }
    else o.prepare thread ordering
  else o

/-- A name gets a number if it is new, there is a number left, and it can be announced. -/
def register (name : String) : Outline :=
  if o.methods.find? name = none ∧ o.methods.count < MethodTable.maxId ∧
      (Message.registerMethod (.ofNat (o.methods.count + 1)) name).toBytes.isOk = true then
    { o with methods := o.methods.insert name }
  else o

def setSketch (n : Nat) (s : Option Sketch) : Outline :=
  { o with sketches := Function.update o.sketches n s }

/-- One call. -/
def step : Call → Outline
  | .register name => o.register name
  | .dispatch thread method args =>
    if o.methods.contains method then o.offer thread none ⟨method, args⟩ else o
  | .begin n method ordering =>
    if o.methods.contains method then o.setSketch n (some { method, ordering }) else o
  | .send n v => o.setSketch n ((o.sketches n).map fun s => { s with args := s.args ++ [v] })
  | .finish thread n =>
    match o.sketches n with
    | none => o
    | some s => (o.setSketch n none).offer thread s.ordering ⟨s.method, s.args⟩
  | .discard n => o.setSketch n none
  | .objectFreed t => { o with freed := o.freed ++ [t] }
  | .threadEnd thread => { o with streamOf := Function.update o.streamOf thread none }
  | _ => o

/-- All calls of a script. -/
def play (calls : List Call) : Outline := calls.foldl step o

/-- The sender does not matter. -/
theorem play_filter (calls : List Call) : o.play (calls.filter Call.isCall) = o.play calls := by
  induction calls generalizing o with
  | nil => rfl
  | cons call calls ih =>
    cases call with
    | runSender deliver => exact ih o
    | _ => exact ih _

end Outline

/-! ### Streams of threads -/

/-- The streams of a ledger are those of an outline. Threads that are gone are left aside: when
their streams end depends on when all streams are sent. -/
structure Ledger.Follows (l : Ledger) (o : Outline) (gone : List ThreadId) : Prop where
  methods : l.methods = o.methods
  opened : l.opened = o.opened
  streamOf : ∀ t : ThreadId, t ∉ gone → l.streamOf[t]? = o.streamOf t
  orphaned : ∀ (t : ThreadId) p, l.streamOf[t]? = some p →
    (l.pages (.own p)).orphaned = true → t ∈ gone

namespace Ledger

variable {l l' : Ledger} {o : Outline} {gone : List ThreadId} {thread : ThreadId}
  {ordering : Option UInt8}

private theorem orphaned_sealStream (l : Ledger) (ref other : StreamRef) :
    ((l.sealStream ref).pages other).orphaned = (l.pages other).orphaned := by
  rw [pages_sealStream]
  split
  · next heq => rw [heq]
  · rfl

private theorem orphaned_endStream (l : Ledger) (thread : ThreadId) (other : StreamRef) :
    ((l.endStream thread).pages other).orphaned = (l.pages other).orphaned := by
  rw [pages_endStream]
  split <;> rfl

private theorem orphaned_visit (l : Ledger) (entry : ThreadId × StreamRef) (other : StreamRef) :
    ((l.visit entry).pages other).orphaned = (l.pages other).orphaned := by
  rcases l.visit_cases entry with ⟨-, h⟩ | ⟨-, h⟩ <;> rw [h]
  · exact orphaned_endStream l entry.1 other
  · exact orphaned_sealStream l entry.2 other

namespace Follows

theorem target_eq (h : l.Follows o gone) (hthread : thread ∉ gone) (ordering : Option UInt8) :
    l.target thread ordering = o.target thread ordering := by
  cases ordering with
  | some i => rfl
  | none =>
    change StreamRef.own (l.streamOf[thread]?.getD l.opened) = .own _
    rw [h.streamOf thread hthread, h.opened]

theorem sealStream (h : l.Follows o gone) (ref : StreamRef) :
    (l.sealStream ref).Follows o gone where
  methods := (methods_sealStream l ref).trans h.methods
  opened := (opened_sealStream l ref).trans h.opened
  streamOf t ht := by
    rw [streamOf_sealStream]
    exact h.streamOf t ht
  orphaned t p hp := by
    rw [streamOf_sealStream] at hp
    rw [orphaned_sealStream]
    exact h.orphaned t p hp

/-- The stream of a thread ends, in the outline as well. -/
theorem endStream (h : l.Follows o gone) (thread : ThreadId) :
    (l.endStream thread).Follows { o with streamOf := Function.update o.streamOf thread none } gone
    where
  methods := (methods_endStream l thread).trans h.methods
  opened := (opened_endStream l thread).trans h.opened
  streamOf t ht := by
    change _ = Function.update o.streamOf thread none t
    rw [streamOf_endStream, Function.update_apply, h.streamOf t ht]
  orphaned t p hp := by
    rw [streamOf_endStream] at hp
    rw [orphaned_endStream]
    split at hp
    · cases hp
    · exact h.orphaned t p hp

/-- The stream of a thread that is gone ends. -/
theorem endStream_of_gone (h : l.Follows o gone) (hthread : thread ∈ gone) :
    (l.endStream thread).Follows o gone :=
  { h.endStream thread with
    streamOf := fun t ht => by
      have hne : t ≠ thread := fun heq => ht (heq ▸ hthread)
      rw [streamOf_endStream, if_neg hne]
      exact h.streamOf t ht }

/-- All records go out, and only threads that are gone lose their streams. -/
theorem sealEvents (h : l.Follows o gone) : l.sealEvents.Follows o gone := by
  have hown : (l.ownRefs.foldl Ledger.visit l).Follows o gone ∧
      ∀ ref, ((l.ownRefs.foldl Ledger.visit l).pages ref).orphaned = (l.pages ref).orphaned := by
    refine List.foldlRecOn (motive := fun l' : Ledger => l'.Follows o gone ∧
      ∀ ref, (l'.pages ref).orphaned = (l.pages ref).orphaned) _ _ ⟨h, fun _ => rfl⟩ ?_
    rintro l' ⟨hl', hsame⟩ entry hentry
    refine ⟨?_, fun ref => (orphaned_visit l' entry ref).trans (hsame ref)⟩
    obtain ⟨⟨thread, position⟩, hmem, rfl⟩ := List.mem_map.1 hentry
    have hp := Std.TreeMap.mem_toList_iff_getElem?_eq_some.1 hmem
    rcases l'.visit_cases (thread, .own position) with ⟨horphaned, hvisit⟩ | ⟨-, hvisit⟩ <;>
      rw [hvisit]
    · rw [hsame] at horphaned
      exact hl'.endStream_of_gone (h.orphaned thread position hp horphaned)
    · exact hl'.sealStream _
  exact List.foldlRecOn (motive := (Ledger.Follows · o gone)) _ _ hown.1
    fun _ hl' ref _ => hl'.sealStream ref

theorem sealFrees (h : l.Follows o gone) : l.sealFrees.Follows o gone := by
  rcases l.sealFrees_cases with ⟨-, hsealed⟩ | ⟨-, hsealed⟩ <;> rw [hsealed]
  · exact h
  · exact { h with }

/-- A thread gets a stream, in the outline as well. -/
theorem prepare (h : l.Follows o gone) (hsound : l.Sound) (hthread : thread ∉ gone)
    (ordering : Option UInt8) :
    (l.prepare thread ordering).Follows (o.prepare thread ordering) gone := by
  have hsame := h.streamOf thread hthread
  cases ordering with
  | some i =>
    unfold Ledger.prepare
    cases l.streamOf[thread]? with
    | none => exact h
    | some p => exact h.sealStream (.own p)
  | none =>
    change (l.obtain thread).Follows _ gone
    unfold Outline.prepare
    rcases l.obtain_cases thread with ⟨p, hp, hobtain⟩ | ⟨hp, hobtain⟩ <;>
      rw [hobtain, ← hsame, hp]
    · exact h
    · refine ⟨h.methods, congrArg (· + 1) h.opened, fun t ht => ?_, fun t p ht => ?_⟩
      · change _ = Function.update o.streamOf thread (some o.opened) t
        rw [getElem?_insert, Function.update_apply, h.streamOf t ht, h.opened]
      · rw [getElem?_insert] at ht
        split at ht
        · cases ht
          rw [hsound.blank _ (Nat.le_refl _)]
          exact fun horphaned => nomatch horphaned
        · exact h.orphaned t p ht

theorem took (h : l.Follows o gone) {ref : StreamRef} {record : Record}
    (htook : Took ref record l l') : l'.Follows o gone := by
  have happend : (l.appendTo ref record).Follows o gone := { h with
    orphaned := fun t p hp => by
      have hpage : ((l.appendTo ref record).pages (.own p)).orphaned =
          (l.pages (.own p)).orphaned := by
        rw [appendTo, pages_setPage]
        split
        · next heq => rw [heq]
        · rfl
      rw [hpage]
      exact h.orphaned t p hp }
  rcases htook with rfl | rfl
  · exact happend
  · exact happend.sealStream ref

/-- A thread is gone. From then on it is left aside. -/
theorem orphan (h : l.Follows o gone) (hsound : l.Sound) (thread : ThreadId) :
    (l.orphan thread).Follows o (thread :: gone) := by
  have hstreams (t : ThreadId) (ht : t ∉ thread :: gone) : l.streamOf[t]? = o.streamOf t :=
    h.streamOf t fun hmem => ht (List.mem_cons_of_mem thread hmem)
  rcases l.orphan_cases thread with ⟨-, horphan⟩ | ⟨q, hp, horphan⟩ <;> rw [horphan]
  · exact { h with
      streamOf := hstreams
      orphaned := fun t p ht hpage => List.mem_cons_of_mem thread (h.orphaned t p ht hpage) }
  · refine ⟨h.methods, h.opened, hstreams, fun t p ht hpage => ?_⟩
    rw [pages_setPage] at hpage
    split at hpage
    · next heq =>
      cases heq
      rw [hsound.injective t thread q ht hp]
      exact List.mem_cons_self
    · exact List.mem_cons_of_mem thread (h.orphaned t p ht hpage)

end Follows

end Ledger

/-! ### Runs -/

/-- A record under way, as the script shows it. -/
def Draft.sketch (d : Draft) : Sketch := ⟨d.method, d.writer.ordering, d.args⟩

/-- A run noted what an outline says. -/
structure Run.Follows (r : Run) (o : Outline) : Prop where
  drafts : ∀ n, (r.drafts n).map Draft.sketch = o.sketches n
  /-- A draft can be finished if none of its arguments was refused. -/
  fits : ∀ n d, r.drafts n = some d → (d.writer.fault = none ↔ ∀ v ∈ d.args, v.fits = true)
  accepted : r.accepted = o.accepted
  freed : r.freed = o.freed

namespace Outline

variable {o : Outline} {thread : ThreadId} {ordering : Option UInt8} {record : Record}

theorem offer_of_few (hfits : ∀ v ∈ record.args, v.fits = true)
    (hfew : record.args.length ≤ Record.maxArgs) :
    o.offer thread ordering record = { o.prepare thread ordering with
      accepted := o.accepted ++ [(o.target thread ordering, record)] } := by
  rw [offer, if_pos hfits, if_pos hfew]

theorem offer_of_many (hfits : ∀ v ∈ record.args, v.fits = true)
    (hmany : record.args.length > Record.maxArgs) :
    o.offer thread ordering record = o.prepare thread ordering := by
  rw [offer, if_pos hfits, if_neg (Nat.not_le.2 hmany)]

theorem offer_of_refused (hnot : ¬ ∀ v ∈ record.args, v.fits = true) :
    o.offer thread ordering record = o := by
  rw [offer, if_neg hnot]

theorem step_finish_of_some {n : Nat} {s : Sketch} (h : o.sketches n = some s) :
    o.step (.finish thread n) =
      (o.setSketch n none).offer thread s.ordering ⟨s.method, s.args⟩ := by
  simp only [step, h]

@[simp] theorem accepted_prepare : (o.prepare thread ordering).accepted = o.accepted := by
  unfold prepare
  split <;> rfl

@[simp] theorem freed_prepare : (o.prepare thread ordering).freed = o.freed := by
  unfold prepare
  split <;> rfl

@[simp] theorem sketches_prepare : (o.prepare thread ordering).sketches = o.sketches := by
  unfold prepare
  split <;> rfl

end Outline

namespace Run

variable {r r' : Run} {l l' : Ledger} {o : Outline} {gone : List ThreadId} {call : Call}

namespace Follows

theorem setDraft (h : r.Follows o) (n : Nat) {d : Option Draft}
    (hd : ∀ d', d = some d' → (d'.writer.fault = none ↔ ∀ v ∈ d'.args, v.fits = true)) :
    (r.setDraft n d).Follows (o.setSketch n (d.map Draft.sketch)) where
  drafts m := by
    change (if m = n then d else r.drafts m).map Draft.sketch =
      Function.update o.sketches n (d.map Draft.sketch) m
    rw [Function.update_apply]
    split
    · rfl
    · exact h.drafts m
  fits m d' hm := by
    have hsome : (if m = n then d else r.drafts m) = some d' := hm
    split at hsome
    · exact hd d' hsome
    · exact h.fits m d' hsome
  accepted := h.accepted
  freed := h.freed

theorem dropDraft (h : r.Follows o) (n : Nat) :
    (r.setDraft n none).Follows (o.setSketch n none) :=
  h.setDraft n fun _ hd => nomatch hd

theorem prepare (h : r.Follows o) (thread : ThreadId) (ordering : Option UInt8) :
    r.Follows (o.prepare thread ordering) where
  drafts n := by
    rw [Outline.sketches_prepare]
    exact h.drafts n
  fits := h.fits
  accepted := h.accepted.trans Outline.accepted_prepare.symm
  freed := h.freed.trans Outline.freed_prepare.symm

theorem accept (h : r.Follows o) (thread : ThreadId) (ordering : Option UInt8) {ref : StreamRef}
    {record : Record} (href : ref = o.target thread ordering) :
    (r.accept ref record).Follows { o.prepare thread ordering with
      accepted := o.accepted ++ [(o.target thread ordering, record)] } :=
  { h.prepare thread ordering with
    accepted := by
      change r.accepted ++ [(ref, record)] = _
      rw [h.accepted, href] }

theorem sketch_of_draft (h : r.Follows o) {n : Nat} {d : Draft} (hd : r.drafts n = some d) :
    o.sketches n = some d.sketch := by
  rw [← h.drafts n, hd]
  rfl

/-- An argument is added to a draft, and to its sketch. -/
theorem send (h : r.Follows o)
    (hdrafts : ∀ n d, r.drafts n = some d → d.writer.fault = none →
      d.writer.record.Holds ⟨d.method, d.args⟩) (n : Nat) (v : Value) :
    (r.setDraft n ((r.drafts n).map (·.send v))).Follows (o.step (.send n v)) := by
  have hsketch : ((r.drafts n).map (·.send v)).map Draft.sketch =
      (o.sketches n).map fun s => { s with args := s.args ++ [v] } := by
    rw [← h.drafts n]
    cases hd : r.drafts n with
    | none => rfl
    | some d =>
      obtain ⟨-, -, hordering⟩ := EventWriter.send_of_holds (hdrafts n d hd) v
      exact congrArg (fun i => some (Sketch.mk d.method i (d.args ++ [v]))) hordering
  have hsend := h.setDraft n (d := (r.drafts n).map (·.send v)) fun d' hd' => by
    obtain ⟨d, hd, rfl⟩ := Option.map_eq_some_iff.1 hd'
    obtain ⟨-, hfault, -⟩ := EventWriter.send_of_holds (hdrafts n d hd) v
    change (d.writer.send v).fault = none ↔ ∀ w ∈ d.args ++ [v], w.fits = true
    rw [hfault, h.fits n d hd, List.forall_mem_append, List.forall_mem_singleton]
  rwa [hsketch] at hsend

/-- A record that was taken is one that the outline accepts. -/
theorem offer_of_took (h : r.Follows o) (hl : l.Follows o gone) (hsound : l.Sound)
    {thread : ThreadId} (hthread : thread ∉ gone) {ordering : Option UInt8} {record : Record}
    (hfits : ∀ v ∈ record.args, v.fits = true) (hfew : record.args.length ≤ Record.maxArgs)
    (htook : Ledger.Took (l.target thread ordering) record (l.prepare thread ordering) l') :
    (r.accept (l.target thread ordering) record).Follows (o.offer thread ordering record) ∧
      l'.Follows (o.offer thread ordering record) gone := by
  rw [Outline.offer_of_few hfits hfew]
  refine ⟨h.accept thread ordering (hl.target_eq hthread ordering), ?_⟩
  exact { (hl.prepare hsound hthread ordering).took htook with }

/-- A record with too many arguments is not accepted, but its thread has a stream then. -/
theorem offer_of_many (h : r.Follows o) (hl : l.Follows o gone) (hsound : l.Sound)
    {thread : ThreadId} (hthread : thread ∉ gone) {ordering : Option UInt8} {record : Record}
    (hfits : ∀ v ∈ record.args, v.fits = true) (hmany : record.args.length > Record.maxArgs) :
    r.Follows (o.offer thread ordering record) ∧
      (l.prepare thread ordering).Follows (o.offer thread ordering record) gone := by
  rw [Outline.offer_of_many hfits hmany]
  exact ⟨h.prepare thread ordering, hl.prepare hsound hthread ordering⟩

end Follows

private theorem step_of_tells {m : Message} (h : call.tells? = some m) (o : Outline) :
    o.step call = o ∧ call.gone? = none := by
  cases call <;> cases h <;> exact ⟨rfl, rfl⟩

/-- **One call of a run and of the outline.** -/
theorem Reaches.follows (hreaches : r.Reaches l call r' l') (h : r.Tracks l) (hr : r.Follows o)
    (hl : l.Follows o gone) (horderly : ∀ thread, call.thread? = some thread → thread ∉ gone) :
    r'.Follows (o.step call) ∧ l'.Follows (o.step call) (call.gone?.toList ++ gone) := by
  obtain ⟨note, c, sent, faults, houtcome, rfl, -, -⟩ := hreaches
  have hbase : Follows { r with client := c, sent, faults } o := { hr with }
  have hmethods := hl.methods
  cases houtcome with
  | @again name id hold =>
    have hstep : o.step (.register name) = o := if_neg fun hnew => by
      rw [← hmethods, hold] at hnew
      cases hnew.1
    rw [hstep]
    exact ⟨{ hbase with }, hl⟩
  | @announced name hnew hfew hwritten =>
    obtain ⟨frame, hframe⟩ := hwritten
    rw [hmethods] at hnew hfew hframe
    have hstep : o.step (.register name) = { o with methods := o.methods.insert name } :=
      if_pos ⟨hnew, hfew, by rw [hframe]; rfl⟩
    rw [hstep]
    refine ⟨{ hbase with }, { hl with methods := ?_ }⟩
    exact congrArg (MethodTable.insert · name) hmethods
  | @unnamed name hnew hnone =>
    rw [hmethods] at hnone
    have hstep : o.step (.register name) = o := if_neg fun ⟨_, hfew, hwritten⟩ => by
      rcases hnone with hmany | ⟨cause, hcause⟩
      · omega
      · rw [hcause] at hwritten
        cases hwritten
    rw [hstep]
    exact ⟨hbase, hl⟩
  | @dispatched thread method args l' hmethod hfits hfew htook =>
    rw [hmethods] at hmethod
    have hstep : o.step (.dispatch thread method args) = o.offer thread none ⟨method, args⟩ :=
      if_pos hmethod
    rw [hstep]
    exact hbase.offer_of_took hl h.sound (horderly thread rfl) hfits hfew htook
  | @undispatched thread method args hnot =>
    have hstep : o.step (.dispatch thread method args) = o := by
      by_cases hmethod : o.methods.contains method = true
      · refine (if_pos hmethod).trans (Outline.offer_of_refused fun hfits => hnot ⟨?_, hfits⟩)
        rw [hmethods]
        exact hmethod
      · exact if_neg hmethod
    rw [hstep]
    exact ⟨hbase, hl⟩
  | @dispatchedTooMany thread method args hmethod hfits hmany =>
    rw [hmethods] at hmethod
    have hstep : o.step (.dispatch thread method args) = o.offer thread none ⟨method, args⟩ :=
      if_pos hmethod
    rw [hstep]
    exact hbase.offer_of_many hl h.sound (horderly thread rfl) hfits hmany
  | @begun n method ordering hmethod =>
    rw [hmethods] at hmethod
    have hstep : o.step (.begin n method ordering) = _ := if_pos hmethod
    rw [hstep]
    refine ⟨hbase.setDraft n (d := some { writer := { record := .start method, ordering }, method })
      fun d hd => ?_, { hl with }⟩
    obtain rfl := Option.some.inj hd
    exact ⟨fun _ v hv => (nomatch hv), fun _ => rfl⟩
  | @unbegun n method ordering hnot =>
    rw [hmethods] at hnot
    have hstep : o.step (.begin n method ordering) = o := if_neg hnot
    rw [hstep]
    exact ⟨hbase, hl⟩
  | sent n v => exact ⟨hbase.send (fun n d hd => (h.drafts n d hd).2) n v, { hl with }⟩
  | @noDraft thread n hnone =>
    have hsketch := hr.drafts n
    rw [hnone] at hsketch
    have hstep : o.step (.finish thread n) = o := by
      simp only [Outline.step, ← hsketch, Option.map_none]
    rw [hstep]
    exact ⟨hbase, hl⟩
  | @finished thread n d l' hd hfault hfew htook =>
    rw [Outline.step_finish_of_some (hr.sketch_of_draft hd)]
    have hl' : l.Follows (o.setSketch n none) gone := { hl with }
    exact (hbase.dropDraft n).offer_of_took hl' h.sound (horderly thread rfl)
      ((hr.fits n d hd).1 hfault) hfew htook
  | @unfinished thread n d hd hfault =>
    rw [Outline.step_finish_of_some (hr.sketch_of_draft hd),
      Outline.offer_of_refused fun hfits => hfault ((hr.fits n d hd).2 hfits)]
    exact ⟨hbase.dropDraft n, { hl with }⟩
  | @finishedTooMany thread n d hd hfault hmany =>
    rw [Outline.step_finish_of_some (hr.sketch_of_draft hd)]
    have hl' : l.Follows (o.setSketch n none) gone := { hl with }
    exact (hbase.dropDraft n).offer_of_many hl' h.sound (horderly thread rfl)
      ((hr.fits n d hd).1 hfault) hmany
  | discarded n => exact ⟨hbase.dropDraft n, { hl with }⟩
  | @freed t l' hfree =>
    refine ⟨{ hbase with freed := congrArg (· ++ [t]) hr.freed }, ?_⟩
    have hfreed : (l.free t).Follows o gone := { hl with }
    have hl' : l'.Follows o gone := by
      rcases hfree with hl' | hl' <;> rw [hl']
      · exact hfreed
      · exact hfreed.sealEvents.sealFrees
    exact { hl' with }
  | told hcall =>
    obtain ⟨hstep, hgone⟩ := step_of_tells hcall o
    rw [hstep, hgone]
    exact ⟨hbase, { hl with }⟩
  | untold hcall =>
    obtain ⟨hstep, hgone⟩ := step_of_tells hcall o
    rw [hstep, hgone]
    exact ⟨hbase, hl⟩
  | flushed => exact ⟨hbase, hl.sealEvents.sealFrees⟩
  | threadEnded thread => exact ⟨{ hbase with }, hl.endStream thread⟩
  | threadGone thread => exact ⟨hbase, hl.orphan h.sound thread⟩
  | senderRan deliver => exact ⟨hbase, hl⟩

/-- A run notes what the outline of its script says. -/
theorem Tracks.outline (h : r.Tracks l) (hr : r.Follows o) (hl : l.Follows o gone)
    {calls : List Call} (horderly : Call.Orderly calls)
    (hgone : ∀ call ∈ calls, ∀ thread, call.thread? = some thread → thread ∉ gone)
    (hlarge : .wire .batchTooLarge ∉ (r.play calls).faults)
    (hfailure : (r.play calls).client.outbox.failure = none) :
    (r.play calls).Follows (o.play calls) := by
  induction calls generalizing r l o gone with
  | nil => exact hr
  | cons call calls ih =>
    obtain ⟨hfirst, hrest⟩ := List.pairwise_cons.1 horderly
    obtain ⟨l', hreaches⟩ := h.reaches call (fun hmem => hlarge (mem_faults_play hmem calls))
      (failure_play calls hfailure)
    obtain ⟨hr', hl'⟩ := hreaches.follows h hr hl (hgone call List.mem_cons_self)
    refine ih (h.step hreaches) hr' hl' hrest (fun later hlater thread hthread hmem => ?_)
      hlarge hfailure
    rcases List.mem_append.1 hmem with hnow | hbefore
    · exact hfirst later hlater thread (Option.mem_toList.1 hnow) hthread
    · exact hgone later (List.mem_cons_of_mem call hlater) thread hthread hbefore

/-- What a session accepts can be read off its script. -/
theorem Completed.follows {settings : ClientSettings} {calls : List Call} {frames : List Bytes}
    (h : Completed settings calls r frames) (horderly : Call.Orderly calls) :
    r.Follows (Outline.play {} calls) := by
  obtain ⟨rfl, hfailure⟩ := h.eq_play
  have hr : Run.Follows { client := { settings } } {} :=
    ⟨fun _ => rfl, fun _ _ hd => (nomatch hd), rfl, rfl⟩
  have hl : Ledger.Follows {} {} [] :=
    ⟨rfl, rfl, fun _ _ => Std.TreeMap.getElem?_emptyc, fun _ _ _ hpage => (nomatch hpage)⟩
  exact (tracks_start settings).outline hr hl horderly (fun _ _ _ _ => List.not_mem_nil)
    h.noneTooLarge hfailure

/-- **What is accepted does not depend on settings**, and not on when the sender ran. -/
theorem Completed.accepted_eq {settings settings' : ClientSettings} {calls calls' : List Call}
    {frames frames' : List Bytes} (h : Completed settings calls r frames)
    (h' : Completed settings' calls' r' frames') (horderly : Call.Orderly calls)
    (hcalls : calls'.filter Call.isCall = calls.filter Call.isCall) :
    r'.accepted = r.accepted ∧ r'.freed = r.freed := by
  have horderly' : Call.Orderly calls' := by
    rw [← Call.orderly_filter, hcalls, Call.orderly_filter]
    exact horderly
  have hsame : Outline.play {} calls' = Outline.play {} calls := by
    rw [← Outline.play_filter, hcalls, Outline.play_filter]
  obtain ⟨-, -, haccepted, hfreed⟩ := h.follows horderly
  obtain ⟨-, -, haccepted', hfreed'⟩ := h'.follows horderly'
  rw [haccepted, haccepted', hfreed, hfreed', hsame]
  exact ⟨rfl, rfl⟩

end Run

end TraceRelay
