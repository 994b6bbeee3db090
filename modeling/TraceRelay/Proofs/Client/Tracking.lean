import Mathlib.Data.List.Forall2
import TraceRelay.Client.Calls
import TraceRelay.Proofs.Client.Effects

/-!
# The sending side keeps its ledger

A client shows a ledger if its buffers and its queue hold what the ledger says. As long as frames
are accepted, each step of the client ends in a client that shows the ledger changed accordingly.
The one fault that can come in between is a batch that outgrows its fields.

## Main definitions

* `Client.Shows` : a client holds what a ledger says.
* `Client.Yields` : how a step ends, told by the ledger that is shown then.

## Main results

* `Client.sealStream_yields`, `Client.appendTo_yields`, `Client.endStream_yields`,
  `Client.sealEvents_yields`, `Client.sealFrees_yields`, `Client.closeAll_yields` : the steps.
-/

namespace TraceRelay

/-- A stream is as a page says. -/
structure RecordStream.Shows (s : RecordStream) (page : Page) : Prop where
  held : s.Holds page.held
  closed : s.closed = page.closed
  orphaned : s.orphaned = page.orphaned

namespace Client

variable {c : Client} {l : Ledger} {out : List Bytes} {ref : StreamRef} {α β : Type}

/-- A client that accepts frames holds what a ledger says. Of the frames in the outbox, `out` were
sent already. -/
structure Shows (out : List Bytes) (c : Client) (l : Ledger) : Prop where
  accepting : c.outbox.accepting = true
  frames : List.Forall₂ (fun p frame => p.message.toBytes = .ok frame) l.parcels
    (out ++ c.outbox.waiting.toList)
  streams : ∀ ref, (c.stream ref).Shows (l.pages ref)
  ordering : ∀ ref, l.Has ref → (c.stream ref).ordering = ref.ordering
  size_shared : c.shared.size = Message.sharedOrderings
  size_own : c.own.size = l.opened
  streamOf : c.streamOf = l.streamOf
  methods : c.methods = l.methods
  frees : c.frees.Holds l.frees
  freesClosed : c.frees.closed = l.freesClosed

/-- A step ends well with a ledger as `good` says, or with a fault and a ledger as `bad` says,
unless a batch became too large. -/
inductive Yields (out : List Bytes) (good : α → Ledger → Prop) (bad : ClientError → Ledger → Prop) :
    EStateM.Result ClientError Client α → Prop
  | ok {a : α} {c : Client} {l : Ledger} (h : c.Shows out l) (hgood : good a l) :
    Yields out good bad (.ok a c)
  | error {e : ClientError} {c : Client} {l : Ledger} (h : c.Shows out l) (hbad : bad e l) :
    Yields out good bad (.error e c)
  | tooLarge (c : Client) : Yields out good bad (.error (.wire .batchTooLarge) c)

/-- No fault but that of a batch that became too large. -/
def noFault : ClientError → Ledger → Prop := fun _ _ => False

namespace Yields

variable {good : α → Ledger → Prop} {bad : ClientError → Ledger → Prop}

theorem mono {good' : α → Ledger → Prop} {bad' : ClientError → Ledger → Prop}
    {x : EStateM.Result ClientError Client α} (h : Yields out good bad x)
    (hgood : ∀ a l, good a l → good' a l) (hbad : ∀ e l, bad e l → bad' e l) :
    Yields out good' bad' x := by
  cases h with
  | ok hc hl => exact .ok hc (hgood _ _ hl)
  | error hc hl => exact .error hc (hbad _ _ hl)
  | tooLarge c => exact .tooLarge c

/-- Two steps, one after the other. -/
theorem bind {good' : β → Ledger → Prop} {m : EStateM ClientError Client α}
    {f : α → EStateM ClientError Client β} (h : Yields out good bad (m c))
    (hf : ∀ a c' l', c'.Shows out l' → good a l' → Yields out good' bad (f a c')) :
    Yields out good' bad ((m >>= f) c) := by
  cases hm : m c with
  | ok a c' =>
    rw [hm] at h
    rw [Step.bind_of_ok hm]
    cases h with
    | ok hc hl => exact hf a c' _ hc hl
  | error e c' =>
    rw [hm] at h
    rw [Step.bind_of_error hm]
    cases h with
    | error hc hl => exact .error hc hl
    | tooLarge => exact .tooLarge c'

/-- A step of which the ledger afterwards is known, and another one. -/
theorem next {l' : Ledger} {good' : β → Ledger → Prop} {m : EStateM ClientError Client α}
    {f : α → EStateM ClientError Client β} (h : Yields out (fun _ l => l = l') bad (m c))
    (hf : ∀ a c', c'.Shows out l' → Yields out good' bad (f a c')) :
    Yields out good' bad ((m >>= f) c) :=
  bind h fun a c' _ hc hl => hf a c' (Eq.subst (motive := c'.Shows out) hl hc)

/-- The same step for each element of a list. What the steps need is kept by each of them. -/
theorem forM (f : β → EStateM ClientError Client PUnit) (g : Ledger → β → Ledger)
    (inv : Ledger → Prop) {bs : List β}
    (hstep : ∀ b ∈ bs, ∀ c l, c.Shows out l → inv l →
      Yields out (fun _ l' => l' = g l b) bad (f b c) ∧ inv (g l b))
    (h : c.Shows out l) (hinv : inv l) :
    Yields out (fun _ l' => l' = bs.foldl g l ∧ inv l') bad (bs.forM f c) := by
  induction bs generalizing c l with
  | nil => exact ok h ⟨rfl, hinv⟩
  | cons b bs ih =>
    obtain ⟨hfirst, hnext⟩ := hstep b List.mem_cons_self c l h hinv
    refine next (f := fun _ => bs.forM f) hfirst fun _ c' hc' => ?_
    exact ih (fun b' hb' => hstep b' (List.mem_cons_of_mem b hb')) hc' hnext

end Yields

/-! ### Frames -/

theorem enqueue_yields (h : c.Shows out l) {p : Parcel} {frame : Bytes}
    (hp : p.message.toBytes = .ok frame) :
    Yields out (fun _ l' => l' = l.post p) noFault (enqueue frame c) := by
  have hpush : enqueue frame c =
      .ok () { c with outbox := { c.outbox with waiting := c.outbox.waiting.push frame } } := by
    unfold enqueue Outbox.push
    rw [if_pos h.accepting]
  have hframes : List.Forall₂ (fun p frame => p.message.toBytes = .ok frame) (l.parcels ++ [p])
      (out ++ (c.outbox.waiting.push frame).toList) := by
    rw [Fifo.toList_push, ← List.append_assoc]
    exact List.rel_append h.frames (.cons hp .nil)
  rw [hpush]
  exact .ok (l := l.post p) { h with frames := hframes } rfl

/-- A message goes to the outbox if it can be written. -/
theorem enqueueMessage_yields (h : c.Shows out l) (source : Option StreamRef) (m : Message) :
    Yields out (fun _ l' => l' = l.post ⟨source, m⟩ ∧ ∃ frame, m.toBytes = .ok frame)
      (fun e l' => l' = l ∧ ∃ cause, m.toBytes = .error cause ∧ e = .wire cause)
      (enqueueMessage m c) := by
  unfold enqueueMessage
  cases hm : m.toBytes with
  | error cause => exact .error h ⟨rfl, cause, rfl, rfl⟩
  | ok frame =>
    exact (enqueue_yields (p := ⟨source, m⟩) h hm).mono (fun _ _ hl => ⟨hl, frame, rfl⟩)
      fun _ _ hfalse => hfalse.elim

/-! ### Steps on one stream -/

/-- The ledger has the streams that the client has. -/
private theorem has_iff (hsize : c.own.size = l.opened) (ref : StreamRef) :
    c.Has ref ↔ l.Has ref := by
  cases ref with
  | shared i => exact Iff.rfl
  | own p => exact iff_of_eq (congrArg (p < ·) hsize)

/-- A step of one stream is a change of its page. -/
theorem stream_setStream (h : c.Shows out l) (href : l.Has ref) (s : RecordStream)
    (ref' : StreamRef) :
    (c.setStream ref s).stream ref' = if ref' = ref then s else c.stream ref' :=
  stream_setStream_of_has h.size_shared ((has_iff h.size_own ref).2 href) s ref'

theorem Shows.setStream (h : c.Shows out l) (href : l.Has ref) {s : RecordStream} {page : Page}
    (hs : s.Shows page) (ho : s.ordering = ref.ordering) :
    (c.setStream ref s).Shows out (l.setPage ref page) where
  accepting := by cases ref <;> exact h.accepting
  frames := by cases ref <;> exact h.frames
  streams ref' := by
    rw [stream_setStream h href]
    by_cases heq : ref' = ref
    · subst heq
      rw [if_pos rfl, Ledger.pages_setPage, if_pos rfl]
      exact hs
    · rw [if_neg heq, Ledger.pages_setPage, if_neg heq]
      exact h.streams ref'
  ordering ref' href' := by
    rw [stream_setStream h href]
    by_cases heq : ref' = ref
    · subst heq
      rw [if_pos rfl]
      exact ho
    · rw [if_neg heq]
      exact h.ordering ref' href'
  size_shared := by
    cases ref
    · exact (Array.size_setIfInBounds).trans h.size_shared
    · exact h.size_shared
  size_own := by
    cases ref
    · exact h.size_own
    · exact (Array.size_setIfInBounds).trans h.size_own
  streamOf := by cases ref <;> exact h.streamOf
  methods := by cases ref <;> exact h.methods
  frees := by cases ref <;> exact h.frees
  freesClosed := by cases ref <;> exact h.freesClosed

/-- The records of a stream leave in one frame, if there are any. -/
theorem sealStream_yields (h : c.Shows out l) (href : l.Has ref) :
    Yields out (fun _ l' => l' = l.sealStream ref) noFault (sealStream ref c) := by
  have hseal : sealStream ref c = enqueueTaken (c.stream ref).take.1
      (c.setStream ref (c.stream ref).take.2) := rfl
  obtain ⟨hheld, hclosed, horphaned⟩ := h.streams ref
  obtain ⟨htake, hempty, hgate⟩ := RecordStream.take_of_holds hheld
  have hshows : (c.setStream ref (c.stream ref).take.2).Shows out
      (l.setPage ref { l.pages ref with held := [] }) :=
    h.setStream href ⟨hempty, hgate.closed.trans hclosed, hgate.orphaned.trans horphaned⟩
      (hgate.ordering.trans (h.ordering ref href))
  rw [hseal, htake]
  rcases l.sealStream_cases ref with ⟨hnone, hsealed⟩ | ⟨hsome, hsealed⟩ <;> rw [hsealed]
  · rw [if_pos hnone]
    have hpage : { l.pages ref with held := [] } = l.pages ref := by
      rw [← hnone]
    rw [hpage, Ledger.setPage_self] at hshows
    exact .ok hshows rfl
  · rw [if_neg hsome, h.ordering ref href]
    cases hframe : (Message.analyze ref.ordering (l.pages ref).held).toBytes with
    | error e =>
      rw [← h.ordering ref href] at hframe
      rw [RecordStream.eq_batchTooLarge_of_toBytes hheld hsome hframe]
      exact .tooLarge _
    | ok frame => exact enqueue_yields hshows hframe

/-- A stream ends, and its records leave. -/
theorem closeStream_yields (h : c.Shows out l) (href : l.Has ref) :
    Yields out (fun _ l' => l' = l.closeStream ref) noFault (closeStream ref c) := by
  have hclose : closeStream ref c =
      sealStream ref (c.setStream ref { c.stream ref with closed := true }) := rfl
  obtain ⟨hheld, -, horphaned⟩ := h.streams ref
  have hshows : (c.setStream ref { c.stream ref with closed := true }).Shows out
      (l.setPage ref { l.pages ref with closed := true }) :=
    h.setStream href ⟨hheld, rfl, horphaned⟩ (h.ordering ref href)
  rw [hclose]
  exact sealStream_yields hshows href

/-- A record is added to a stream that has not ended, and the records of the stream leave if there
are enough of them. -/
theorem appendTo_yields (h : c.Shows out l) (href : l.Has ref)
    (hopen : (l.pages ref).closed = false) {b : RecordBuilder} {r : Record} (hb : b.Holds r) :
    Yields out
      (fun _ l' => r.args.length ≤ Record.maxArgs ∧
        (l' = l.appendTo ref r ∨ l' = (l.appendTo ref r).sealStream ref))
      (fun e l' => l' = l ∧ r.args.length > Record.maxArgs ∧
        e = .wire (.tooManyArgs r.args.length))
      (appendTo ref b c) := by
  obtain ⟨hheld, hclosed, horphaned⟩ := h.streams ref
  have hgate := hclosed.trans hopen
  rcases RecordStream.append_of_holds hheld hgate hb with
    ⟨s, hs, hholds, hsame, hlen⟩ | ⟨e, s, hs, hholds, hsame, he⟩
  · have hstep : onStream ref (RecordStream.append b) c = .ok () (c.setStream ref s) := by
      rw [onStream_eq, hs]
    have hshows : (c.setStream ref s).Shows out (l.appendTo ref r) :=
      h.setStream href ⟨hholds, hsame.closed.trans hclosed, hsame.orphaned.trans horphaned⟩
        (hsame.ordering.trans (h.ordering ref href))
    have hrest : appendTo ref b c =
        if ((c.setStream ref s).stream ref).isFull (c.setStream ref s).settings then
          sealStream ref (c.setStream ref s)
        else .ok () (c.setStream ref s) := by
      rw [appendTo, Step.bind_of_ok hstep]
      by_cases hfull : ((c.setStream ref s).stream ref).isFull (c.setStream ref s).settings
      · rw [if_pos hfull]
        exact congrFun (if_pos hfull) _
      · rw [if_neg hfull]
        exact congrFun (if_neg hfull) _
    rw [hrest]
    by_cases hfull : ((c.setStream ref s).stream ref).isFull (c.setStream ref s).settings
    · rw [if_pos hfull]
      exact (sealStream_yields hshows href).mono (fun _ _ hl => ⟨hlen, .inr hl⟩)
        fun _ _ hfalse => hfalse.elim
    · rw [if_neg hfull]
      exact .ok hshows ⟨hlen, .inl rfl⟩
  · have hstep : onStream ref (RecordStream.append b) c = .error (.wire e) (c.setStream ref s) := by
      rw [onStream_eq, hs]
    have hrest : appendTo ref b c = .error (.wire e) (c.setStream ref s) := by
      rw [appendTo, Step.bind_of_error hstep]
    have hshows : (c.setStream ref s).Shows out (l.setPage ref (l.pages ref)) :=
      h.setStream href ⟨hholds, hsame.closed.trans hclosed, hsame.orphaned.trans horphaned⟩
        (hsame.ordering.trans (h.ordering ref href))
    rw [Ledger.setPage_self] at hshows
    rw [hrest]
    rcases he with ⟨rfl, -⟩ | ⟨rfl, hmany⟩
    · exact .tooLarge _
    · exact .error hshows ⟨rfl, hmany, rfl⟩

/-! ### Streams of threads -/

theorem streamOf?_of_shows (h : c.Shows out l) (thread : ThreadId) :
    c.streamOf? thread = l.streamOf[thread]?.map .own := by
  rw [streamOf?, h.streamOf]

/-- A thread that has no stream gets the next one. -/
theorem obtain_yields (h : c.Shows out l) (thread : ThreadId) :
    Yields out (fun ref l' => ref = l.streamFor thread ∧ l' = l.obtain thread) noFault
      (obtain thread c) := by
  unfold Ledger.streamFor
  rcases l.obtain_cases thread with ⟨p, hp, hobtain⟩ | ⟨hp, hobtain⟩ <;> rw [hp, hobtain]
  · rw [obtain_of_some (h.streamOf ▸ hp)]
    exact .ok h ⟨rfl, rfl⟩
  · rw [obtain_of_none (h.streamOf ▸ hp)]
    -- the page of a stream that is not there yet is that of an empty one
    have hnew := h.streams (.own c.own.size)
    rw [stream_of_not_has c.not_has_size] at hnew
    have hsize : (c.own.push { ordering := .ofNat (Message.sharedOrderings + c.own.size) }).size =
        l.opened + 1 := by
      rw [Array.size_push, h.size_own]
    have hshows : Shows out
        { c with
          own := c.own.push { ordering := .ofNat (Message.sharedOrderings + c.own.size) }
          streamOf := c.streamOf.insert thread c.own.size }
        { l with opened := l.opened + 1, streamOf := l.streamOf.insert thread l.opened } :=
      { h with
        streams := fun ref => by
          refine Eq.subst (motive := fun s => RecordStream.Shows s (l.pages ref))
            (stream_push c _ ref).symm ?_
          by_cases href : ref = .own c.own.size
          · rw [if_pos href, href]
            exact ⟨hnew.held, hnew.closed, hnew.orphaned⟩
          · rw [if_neg href]
            exact h.streams ref
        ordering := fun ref href => forall_push (P := fun ref s => s.ordering = ref.ordering)
          (fun ref hhas => h.ordering ref ((has_iff h.size_own ref).1 hhas)) rfl ref
          ((has_iff hsize ref).2 href)
        size_own := hsize
        streamOf := by
          change c.streamOf.insert thread c.own.size = l.streamOf.insert thread l.opened
          rw [h.streamOf, h.size_own] }
    refine .ok hshows ⟨?_, rfl⟩
    rw [h.size_own]
    rfl

/-- A stream ends, its records leave, and its end is told. -/
private theorem closeStream_tell_yields (h : c.Shows out l) (href : l.Has ref) :
    Yields out
      (fun _ l' => l' = (l.closeStream ref).post ⟨some ref, .threadEnd ref.ordering⟩) noFault
      ((do
        closeStream ref
        enqueueMessage (.threadEnd ((← get).stream ref).ordering) :
          EStateM ClientError Client Unit) c) := by
  refine Yields.next (closeStream_yields h href) fun _ c' hc' => ?_
  have hhas : (l.closeStream ref).Has ref :=
    href.mono (Nat.le_of_eq (l.opened_closeStream ref).symm)
  rw [Step.get_bind, hc'.ordering ref hhas]
  have hlast := enqueueMessage_yields hc' (some ref) (.threadEnd ref.ordering)
  refine hlast.mono (fun _ _ hl => hl.1) ?_
  rintro e l' ⟨-, cause, hbytes, -⟩
  rw [Message.toBytes_threadEnd] at hbytes
  cases hbytes

/-- The stream of a thread ends, and its end is told. -/
theorem endStream_yields (h : c.Shows out l) (hrange : l.InRange)
    (thread : ThreadId) :
    Yields out (fun _ l' => l' = l.endStream thread) noFault (endStream thread c) := by
  rcases l.endStream_cases thread with ⟨hp, hended⟩ | ⟨p, hp, hended⟩ <;> rw [hended]
  · rw [endStream_of_none (h.streamOf ▸ hp)]
    exact .ok h rfl
  · have hshows : Shows out { c with streamOf := c.streamOf.erase thread }
        { l with streamOf := l.streamOf.erase thread } :=
      { h with streamOf := congrArg (·.erase thread) h.streamOf }
    have hhas : l.Has (.own p) := hrange thread p hp
    rw [endStream_of_some (h.streamOf ▸ hp)]
    exact closeStream_tell_yields hshows hhas

/-- The thread is gone, but its stream stays. -/
theorem threadGone_shows (h : c.Shows out l) (hrange : l.InRange)
    (thread : ThreadId) : (threadGone thread c).Shows out (l.orphan thread) := by
  rcases l.orphan_cases thread with ⟨hp, horphan⟩ | ⟨p, hp, horphan⟩ <;> rw [horphan]
  · rw [threadGone_of_none (h.streamOf ▸ hp)]
    exact h
  · rw [threadGone_of_some (h.streamOf ▸ hp)]
    obtain ⟨hheld, hclosed, -⟩ := h.streams (.own p)
    have hhas : l.Has (.own p) := hrange thread p hp
    exact h.setStream hhas ⟨hheld, hclosed, rfl⟩ (h.ordering _ hhas)

/-! ### All streams -/

private theorem ownRefs_of_shows (h : c.Shows out l) : c.ownRefs = l.ownRefs := by
  rw [ownRefs, h.streamOf]
  rfl

/-- The records of a thread leave, or its stream ends if the thread is gone. -/
theorem visit_yields (h : c.Shows out l) (hrange : l.InRange) {thread : ThreadId}
    (href : l.Has ref) :
    Yields out (fun _ l' => l' = l.visit (thread, ref)) noFault (visit thread ref c) := by
  rw [visit_eq, (h.streams ref).orphaned]
  rcases l.visit_cases (thread, ref) with ⟨horphaned, hvisited⟩ | ⟨horphaned, hvisited⟩ <;>
    rw [hvisited]
  · rw [if_pos horphaned]
    exact endStream_yields h hrange thread
  · rw [if_neg horphaned]
    exact sealStream_yields h href

private theorem sharedRefs_yields {f : StreamRef → EStateM ClientError Client PUnit}
    {g : Ledger → StreamRef → Ledger}
    (hstep : ∀ ref c l, c.Shows out l → l.Has ref →
      Yields out (fun _ l' => l' = g l ref) noFault (f ref c))
    (h : c.Shows out l) :
    Yields out (fun _ l' => l' = sharedRefs.foldl g l) noFault (sharedRefs.forM f c) := by
  refine (Yields.forM f g (fun _ => True) ?_ h trivial).mono (fun _ _ hl => hl.1) fun _ _ => id
  intro ref hmem c l hc _
  obtain ⟨i, -, rfl⟩ := List.mem_map.1 hmem
  exact ⟨hstep _ c l hc trivial, trivial⟩

/-- The records of all streams leave. -/
theorem sealEvents_yields (h : c.Shows out l) (hrange : l.InRange) :
    Yields out (fun _ l' => l' = l.sealEvents) noFault (sealEvents c) := by
  have hrefs := ownRefs_of_shows h
  have hown : Yields out
      (fun _ l' => l' = l.ownRefs.foldl Ledger.visit l ∧ l'.InRange ∧ l'.opened = l.opened)
      noFault (l.ownRefs.forM (fun entry => visit entry.1 entry.2) c) := by
    refine Yields.forM _ _ (fun l' => l'.InRange ∧ l'.opened = l.opened) ?_ h ⟨hrange, rfl⟩
    rintro ⟨thread, ref⟩ hmem c' l' hc' ⟨hrange', hopened⟩
    have hhas : l'.Has ref :=
      (hrange.has_of_mem_ownRefs hmem).mono (Nat.le_of_eq hopened.symm)
    exact ⟨visit_yields hc' hrange' hhas, hrange'.visit _,
      (Ledger.opened_visit l' _).trans hopened⟩
  rw [sealEvents, Step.get_bind, hrefs]
  refine Yields.next (hown.mono (fun _ _ hl => hl.1) fun _ _ => id) fun _ c' hc' => ?_
  exact sharedRefs_yields (fun ref c l hc hhas => sealStream_yields hc hhas) hc'

/-! ### Frees -/

/-- A freed token is taken. -/
theorem takeFree_yields (h : c.Shows out l) (hopen : l.freesClosed = false) (t : Token) :
    Yields out (fun _ l' => l' = l.free t) noFault (onFrees (FreeStream.append t) c) := by
  have hstep : onFrees (FreeStream.append t) c = match FreeStream.append t c.frees with
      | .ok a frees => .ok a { c with frees }
      | .error e frees => .error e { c with frees } := by
    unfold onFrees
    dsimp only
    cases FreeStream.append t c.frees <;> rfl
  rw [hstep]
  rcases FreeStream.append_of_holds h.frees (h.freesClosed.trans hopen) t with
    ⟨frees, hfrees, hholds, hclosed⟩ | hfull
  · have hshows : Shows out { c with frees } (l.free t) :=
      { h with frees := hholds, freesClosed := hclosed.trans h.freesClosed }
    rw [hfrees]
    exact .ok hshows rfl
  · rw [hfull]
    exact .tooLarge _

/-- All freed tokens leave in one frame, if there are any. -/
theorem sealFrees_yields (h : c.Shows out l) :
    Yields out (fun _ l' => l' = l.sealFrees) noFault (sealFrees c) := by
  have hseal : sealFrees c = enqueueTaken c.frees.take.1 { c with frees := c.frees.take.2 } := rfl
  obtain ⟨htake, hempty, hclosed⟩ := FreeStream.take_of_holds h.frees
  have hshows : Shows out { c with frees := c.frees.take.2 } { l with frees := [] } :=
    { h with frees := hempty, freesClosed := hclosed.trans h.freesClosed }
  rw [hseal, htake]
  rcases l.sealFrees_cases with ⟨hnone, hsealed⟩ | ⟨hsome, hsealed⟩ <;> rw [hsealed]
  · rw [if_pos hnone]
    rw [← hnone] at hshows
    exact .ok hshows rfl
  · rw [if_neg hsome]
    cases hframe : (Message.objectFree l.frees).toBytes with
    | error e =>
      rw [FreeBatch.eq_batchTooLarge_of_toBytes h.frees hframe]
      exact .tooLarge _
    | ok frame => exact enqueue_yields hshows hframe

/-! ### The end -/

private theorem closeFrees_shows (h : c.Shows out l) :
    Shows out { c with frees := { c.frees with closed := true } } l.closeFrees :=
  { h with freesClosed := rfl }

/-- All streams end, what is held back leaves, and then the end of the session. -/
theorem closeAll_yields (h : c.Shows out l) (hrange : l.InRange) :
    Yields out (fun _ l' => l' = l.closeAll) noFault (closeAll c) := by
  have hrefs := ownRefs_of_shows h
  have hown : Yields out
      (fun _ l' => l' = l.ownRefs.foldl (fun l entry => l.closeStream entry.2) l ∧
        l'.opened = l.opened)
      noFault (l.ownRefs.forM (fun entry => closeStream entry.2) c) := by
    refine Yields.forM _ _ (fun l' => l'.opened = l.opened) ?_ h rfl
    rintro ⟨thread, ref⟩ hmem c' l' hc' hopened
    have hhas : l'.Has ref :=
      (hrange.has_of_mem_ownRefs hmem).mono (Nat.le_of_eq hopened.symm)
    exact ⟨closeStream_yields hc' hhas, (Ledger.opened_closeStream l' ref).trans hopened⟩
  rw [closeAll, Step.get_bind, hrefs]
  refine Yields.next (hown.mono (fun _ _ hl => hl.1) fun _ _ => id) fun _ c₁ hc₁ => ?_
  have hshared := sharedRefs_yields (g := fun l ref => l.closeStream ref)
    (fun ref c l hc hhas => closeStream_yields hc hhas) hc₁
  refine Yields.next hshared fun _ c₂ hc₂ => ?_
  rw [Step.modify_bind]
  refine Yields.next (sealFrees_yields (closeFrees_shows hc₂)) fun _ c₃ hc₃ => ?_
  refine (enqueueMessage_yields hc₃ none .close).mono (fun _ _ hl => hl.1) ?_
  rintro e l' ⟨-, cause, hbytes, -⟩
  rw [Message.toBytes_close] at hbytes
  cases hbytes

end Client

end TraceRelay
