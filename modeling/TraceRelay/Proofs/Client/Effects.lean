import TraceRelay.Client.Basic
import TraceRelay.Proofs.Client.Ledger
import TraceRelay.Proofs.Client.Streams
import TraceRelay.Proofs.Steps

/-!
# What steps do to the client

Each step of the client works on one stream, on the frees or on the streams of the threads, and puts
at most one frame into the outbox. This is so whether it succeeds or fails: a frame that the outbox
refuses is lost, and with it the records that it holds.

## Main definitions

* `Client.Has`, `Client.Placed` : the streams that there are, and that threads have some of them.
* `Client.SameStreams` : two clients that do not differ in their streams.
* `Client.posted` : a frame was put into the outbox.
* `Client.Sends` : how a step ends that is to send a frame.

## Main results

* `Client.forall_setStream`, `Client.forall_push` : what holds of all streams.
* `Client.obtain_of_some`, `Client.obtain_of_none` : a thread has a stream, or gets the next one.
* `Client.sealStream_sends`, `Client.closeStream_sends`, `Client.sealFrees_sends` : what sends.
* `Client.appendTo_cases` : one more record.
-/

namespace TraceRelay

namespace Client

/-! ### Streams -/

/-- The streams that there are. -/
def Has (c : Client) : StreamRef → Prop
  | .shared _ => True
  | .own position => position < c.own.size

/-- All shared streams are there, and so are those that threads have. No two threads have the same
stream. -/
structure Placed (c : Client) : Prop where
  size_shared : c.shared.size = Message.sharedOrderings
  inRange : ∀ (thread : ThreadId) position, c.streamOf[thread]? = some position →
    position < c.own.size
  single : ∀ (t t' : ThreadId) position, c.streamOf[t]? = some position →
    c.streamOf[t']? = some position → t = t'

variable {c : Client} {ref : StreamRef} {α : Type}

theorem placed_start (settings : ClientSettings) : ({ settings } : Client).Placed where
  size_shared := by simp
  inRange thread position h := by simp at h
  single t t' position h := by simp at h

theorem stream_start (settings : ClientSettings) (i : UInt8) :
    ({ settings } : Client).stream (.shared i) = { ordering := i.toUInt64 } := by
  have hi : i.toNat < Message.sharedOrderings := i.toNat_lt
  change (((Array.range Message.sharedOrderings).map _)[i.toNat]?).getD _ = _
  rw [Array.getElem?_map, Array.getElem?_range, if_pos hi, Option.map_some, Option.getD_some,
    UInt64.ofNat_uInt8ToNat]

theorem setStream_setStream (c : Client) (ref : StreamRef) (s t : RecordStream) :
    (c.setStream ref s).setStream ref t = c.setStream ref t := by
  cases ref with
  | shared i => simp only [setStream, Array.setIfInBounds_setIfInBounds]
  | own p => simp only [setStream, Array.setIfInBounds_setIfInBounds]

@[simp] theorem streamOf_setStream (ref : StreamRef) (s : RecordStream) (c : Client) :
    (c.setStream ref s).streamOf = c.streamOf := by
  cases ref <;> rfl

@[simp] theorem size_own_setStream (ref : StreamRef) (s : RecordStream) (c : Client) :
    (c.setStream ref s).own.size = c.own.size := by
  cases ref with
  | shared i => rfl
  | own p => exact Array.size_setIfInBounds

@[simp] theorem has_setStream (ref : StreamRef) (s : RecordStream) (other : StreamRef) :
    (c.setStream ref s).Has other ↔ c.Has other := by
  cases other with
  | shared i => exact Iff.rfl
  | own p => exact iff_of_eq (congrArg (p < ·) (size_own_setStream ref s c))

theorem Placed.setStream (h : c.Placed) (ref : StreamRef) (s : RecordStream) :
    (c.setStream ref s).Placed where
  size_shared := by
    cases ref with
    | shared i => exact Array.size_setIfInBounds.trans h.size_shared
    | own p => exact h.size_shared
  inRange := by
    rw [streamOf_setStream, size_own_setStream]
    exact h.inRange
  single := by
    rw [streamOf_setStream]
    exact h.single

/-- A thread that has no stream gets the next one. -/
theorem Placed.obtain (h : c.Placed) (thread : ThreadId) (s : RecordStream) :
    Placed { c with own := c.own.push s, streamOf := c.streamOf.insert thread c.own.size } where
  size_shared := h.size_shared
  inRange other position hposition := by
    rw [getElem?_insert] at hposition
    rw [Array.size_push]
    split at hposition
    · cases hposition
      exact Nat.lt_succ_self _
    · exact Nat.lt_succ_of_lt (h.inRange other position hposition)
  single t t' position ht ht' := by
    rw [getElem?_insert] at ht ht'
    split at ht <;> split at ht'
    · next heq heq' => rw [heq, heq']
    · cases ht
      exact absurd (h.inRange t' _ ht') (Nat.lt_irrefl _)
    · cases ht'
      exact absurd (h.inRange t _ ht) (Nat.lt_irrefl _)
    · exact h.single t t' position ht ht'

/-- A thread loses its stream. -/
theorem Placed.detach (h : c.Placed) (thread : ThreadId) :
    Placed { c with streamOf := c.streamOf.erase thread } where
  size_shared := h.size_shared
  inRange other position hposition := by
    rw [getElem?_erase] at hposition
    split at hposition
    · cases hposition
    · exact h.inRange other position hposition
  single t t' position ht ht' := by
    rw [getElem?_erase] at ht ht'
    split at ht <;> split at ht'
    · cases ht
    · cases ht
    · cases ht'
    · exact h.single t t' position ht ht'

/-- No other thread has the stream that a thread loses. -/
theorem Placed.ne_of_erase (h : c.Placed) {thread : ThreadId} {p : Nat}
    (hp : c.streamOf[thread]? = some p) (other : ThreadId) :
    (c.streamOf.erase thread)[other]? ≠ some p := by
  intro hother
  rw [getElem?_erase] at hother
  split at hother
  · cases hother
  · next hne => exact hne (h.single other thread p hother hp)

theorem mem_ownRefs {thread : ThreadId} {ref : StreamRef} :
    (thread, ref) ∈ c.ownRefs ↔ ∃ p, ref = .own p ∧ c.streamOf[thread]? = some p := by
  simp only [ownRefs, List.mem_map, Prod.mk.injEq, Prod.exists,
    Std.TreeMap.mem_toList_iff_getElem?_eq_some]
  constructor
  · rintro ⟨t, p, hp, rfl, rfl⟩
    exact ⟨p, rfl, hp⟩
  · rintro ⟨p, rfl, hp⟩
    exact ⟨thread, p, hp, rfl, rfl⟩

/-- Only the stream that was replaced is another one. -/
theorem stream_setStream_of_has (hsize : c.shared.size = Message.sharedOrderings) (href : c.Has ref)
    (s : RecordStream) (other : StreamRef) :
    (c.setStream ref s).stream other = if other = ref then s else c.stream other := by
  cases ref with
  | shared i =>
    have hi : i.toNat < c.shared.size := by
      rw [hsize]
      exact i.toNat_lt
    cases other with
    | own p => rfl
    | shared j =>
      change ((c.shared.setIfInBounds i.toNat s)[j.toNat]?).getD _ = _
      rw [Array.getElem?_setIfInBounds]
      by_cases hij : i = j
      · subst hij
        rw [if_pos rfl, if_pos hi, if_pos rfl]
        rfl
      · have hne : i.toNat ≠ j.toNat := fun heq => hij (UInt8.toNat_inj.1 heq)
        have hne' : StreamRef.shared j ≠ .shared i := fun heq => hij (StreamRef.shared.inj heq).symm
        rw [if_neg hne, if_neg hne']
        rfl
  | own p =>
    cases other with
    | shared j => rfl
    | own q =>
      change ((c.own.setIfInBounds p s)[q]?).getD _ = _
      rw [Array.getElem?_setIfInBounds]
      by_cases hpq : p = q
      · have hp : p < c.own.size := href
        subst hpq
        rw [if_pos rfl, if_pos hp, if_pos rfl]
        rfl
      · have hne : StreamRef.own q ≠ .own p := fun heq => hpq (StreamRef.own.inj heq).symm
        rw [if_neg hpq, if_neg hne]
        rfl

/-- There is nothing to replace where there is no stream. -/
theorem setStream_of_not_has (href : ¬ c.Has ref) (s : RecordStream) : c.setStream ref s = c := by
  cases ref with
  | shared i => exact absurd trivial href
  | own p =>
    have hp : c.own.size ≤ p := Nat.le_of_not_lt href
    rw [setStream, Array.setIfInBounds_eq_of_size_le hp]

theorem not_has_size (c : Client) : ¬ c.Has (.own c.own.size) := Nat.lt_irrefl c.own.size

/-- Where there is no stream, an empty one is seen. -/
theorem stream_of_not_has (href : ¬ c.Has ref) : c.stream ref = { ordering := 0 } := by
  cases ref with
  | shared i => exact absurd trivial href
  | own p =>
    change c.own[p]?.getD _ = _
    rw [Array.getElem?_eq_none_iff.2 (Nat.le_of_not_lt href)]
    rfl

theorem stream_push (c : Client) (s : RecordStream) (ref : StreamRef) :
    ({ c with own := c.own.push s } : Client).stream ref =
      if ref = .own c.own.size then s else c.stream ref := by
  cases ref with
  | shared i => rfl
  | own p =>
    change ((c.own.push s)[p]?).getD _ = _
    rw [Array.getElem?_push]
    by_cases hp : p = c.own.size
    · rw [if_pos hp, if_pos (congrArg StreamRef.own hp)]
      rfl
    · rw [if_neg hp, if_neg fun heq => hp (StreamRef.own.inj heq)]
      rfl

/-- One more stream is there. -/
theorem has_push {s : RecordStream} {streamOf : Std.TreeMap ThreadId Nat} :
    Has { c with own := c.own.push s, streamOf } ref ↔ c.Has ref ∨ ref = .own c.own.size := by
  cases ref with
  | shared i => exact iff_of_true trivial (.inl trivial)
  | own p =>
    rw [StreamRef.own.injEq]
    change p < (c.own.push s).size ↔ _
    rw [Array.size_push]
    exact Nat.lt_succ_iff_lt_or_eq

/-- What each stream has it has still after one stream was replaced, if the new one has it. -/
theorem forall_setStream {P : StreamRef → RecordStream → Prop}
    (hsize : c.shared.size = Message.sharedOrderings) (href : c.Has ref) {s : RecordStream}
    (h : ∀ other, c.Has other → P other (c.stream other)) (hs : P ref s) (other : StreamRef)
    (hother : (c.setStream ref s).Has other) : P other ((c.setStream ref s).stream other) := by
  rw [stream_setStream_of_has hsize href]
  split
  · next heq => rwa [heq]
  · exact h other ((has_setStream ref s other).1 hother)

/-- What each stream has it has still when there is one more, if the new one has it. -/
theorem forall_push {P : StreamRef → RecordStream → Prop} {s : RecordStream}
    {streamOf : Std.TreeMap ThreadId Nat} (h : ∀ ref, c.Has ref → P ref (c.stream ref))
    (hs : P (.own c.own.size) s) (ref : StreamRef)
    (href : Has { c with own := c.own.push s, streamOf } ref) :
    P ref (stream { c with own := c.own.push s, streamOf } ref) := by
  change P ref (({ c with own := c.own.push s } : Client).stream ref)
  rw [stream_push]
  split
  · next heq => rwa [heq]
  · next hne => exact h ref ((has_push.1 href).resolve_right hne)

theorem onStream_eq (ref : StreamRef) (step : EStateM ClientError RecordStream α)
    (c : Client) : onStream ref step c = match step (c.stream ref) with
      | .ok a s => .ok a (c.setStream ref s)
      | .error e s => .error e (c.setStream ref s) := by
  cases hstep : step (c.stream ref) <;> simp only [onStream, hstep, setStream_setStream]

/-- Two states of a client that do not differ in their streams. -/
structure SameStreams (c c' : Client) : Prop where
  shared : c'.shared = c.shared
  own : c'.own = c.own
  streamOf : c'.streamOf = c.streamOf

namespace SameStreams

variable {c' : Client}

theorem stream (h : c.SameStreams c') (ref : StreamRef) : c'.stream ref = c.stream ref := by
  cases ref with
  | shared i => exact congrArg (fun shared : Array RecordStream => shared[i.toNat]?.getD _) h.shared
  | own p => exact congrArg (fun own : Array RecordStream => own[p]?.getD _) h.own

theorem has (h : c.SameStreams c') (ref : StreamRef) : c'.Has ref ↔ c.Has ref := by
  cases ref with
  | shared i => exact Iff.rfl
  | own p => exact iff_of_eq (congrArg (fun own : Array RecordStream => p < own.size) h.own)

theorem trans {c'' : Client} (h : c.SameStreams c') (h' : c'.SameStreams c'') :
    c.SameStreams c'' :=
  ⟨h'.shared.trans h.shared, h'.own.trans h.own, h'.streamOf.trans h.streamOf⟩

theorem placed (h : c.SameStreams c') (hc : c.Placed) : c'.Placed where
  size_shared := by rw [h.shared, hc.size_shared]
  inRange := by rw [h.streamOf, h.own]; exact hc.inRange
  single := by rw [h.streamOf]; exact hc.single

end SameStreams

/-! ### Calls -/

theorem ensureOpen_of_open (hopen : c.closed = false) : ensureOpen c = .ok ⟨⟩ c := by
  rw [ensureOpen, Step.get_bind, hopen]
  rfl

theorem ensureOpen_of_closed (hclosed : c.closed = true) :
    ensureOpen c = .error .sessionClosed c := by
  rw [ensureOpen, Step.get_bind, hclosed]
  rfl

theorem ensureOpen_bind {f : PUnit → EStateM ClientError Client α} (hopen : c.closed = false) :
    (ensureOpen >>= f) c = f ⟨⟩ c :=
  Step.bind_of_ok (ensureOpen_of_open hopen)

theorem ensureOpen_bind_of_closed {f : PUnit → EStateM ClientError Client α}
    (hclosed : c.closed = true) : (ensureOpen >>= f) c = .error .sessionClosed c :=
  Step.bind_of_error (ensureOpen_of_closed hclosed)

/-! ### Frames -/

/-- A frame was put into the outbox, or none was. -/
def posted (frame : Option Bytes) (c : Client) : Client :=
  match frame with
  | none => c
  | some bs => { c with outbox := { c.outbox with waiting := c.outbox.waiting.push bs } }

theorem toList_posted (frame : Option Bytes) (c : Client) :
    (c.posted frame).outbox.waiting.toList = c.outbox.waiting.toList ++ frame.toList := by
  cases frame with
  | none => exact (List.append_nil _).symm
  | some bs => exact Fifo.toList_push _ bs

theorem sameStreams_posted (c : Client) (frame : Option Bytes) :
    c.SameStreams (c.posted frame) := by
  cases frame <;> exact ⟨rfl, rfl, rfl⟩

/-- How a step ends that is to send a frame, if there is one. -/
inductive Sends (frame : Except WireError (Option Bytes)) (c : Client) :
    EStateM.Result ClientError Client Unit → Prop
  | nothing (h : frame = .ok none) : Sends frame c (.ok ⟨⟩ c)
  | sent {bs : Bytes} (h : frame = .ok (some bs)) (haccepting : c.outbox.accepting = true) :
    Sends frame c (.ok ⟨⟩ (c.posted (some bs)))
  | refused {bs : Bytes} (h : frame = .ok (some bs)) (haccepting : c.outbox.accepting = false) :
    Sends frame c (.error .sessionClosed c)
  | unwritable {e : WireError} (h : frame = .error e) : Sends frame c (.error (.wire e) c)

theorem enqueueTaken_sends (frame : Except WireError (Option Bytes)) (c : Client) :
    Sends frame c (enqueueTaken frame c) := by
  rcases frame with e | _ | bs
  · exact .unwritable rfl
  · exact .nothing rfl
  · change Sends (.ok (some bs)) c (enqueue bs c)
    unfold enqueue Outbox.push
    cases haccepting : c.outbox.accepting with
    | true =>
      rw [if_pos rfl, ← haccepting]
      exact .sent rfl haccepting
    | false =>
      rw [if_neg Bool.false_ne_true]
      exact .refused rfl haccepting

theorem enqueueMessage_sends (m : Message) (c : Client) :
    Sends (some <$> m.toBytes) c (enqueueMessage m c) := by
  unfold enqueueMessage
  cases m.toBytes with
  | error e => exact .unwritable rfl
  | ok frame => exact enqueueTaken_sends (.ok (some frame)) c

theorem sealStream_sends (ref : StreamRef) (c : Client) :
    Sends (c.stream ref).take.1 (c.setStream ref (c.stream ref).take.2) (sealStream ref c) :=
  enqueueTaken_sends _ _

/-- What is taken of a stream does not depend on whether it has ended. -/
private theorem take_of_ended (s : RecordStream) :
    ({ s with closed := true } : RecordStream).take =
      (s.take.1, { s.take.2 with closed := true }) := by
  unfold RecordStream.take
  cases s.batch <;> rfl

theorem closeStream_sends (hsize : c.shared.size = Message.sharedOrderings) (href : c.Has ref) :
    Sends (c.stream ref).take.1 (c.setStream ref { (c.stream ref).take.2 with closed := true })
      (closeStream ref c) := by
  have hseal := sealStream_sends ref (c.setStream ref { c.stream ref with closed := true })
  rw [stream_setStream_of_has hsize href, if_pos rfl, setStream_setStream, take_of_ended] at hseal
  exact hseal

theorem sealFrees_sends (c : Client) :
    Sends c.frees.take.1 { c with frees := c.frees.take.2 } (sealFrees c) :=
  enqueueTaken_sends _ _

/-- A step that sends a frame does nothing else. -/
theorem Sends.final {frame : Except WireError (Option Bytes)}
    {result : EStateM.Result ClientError Client Unit} (h : Sends frame c result) :
    ∃ frame', Step.final result = c.posted frame' ∧
      ∀ bs, frame' = some bs → frame = .ok (some bs) ∧ result = .ok ⟨⟩ (c.posted frame') := by
  cases h with
  | sent h _ => exact ⟨some _, rfl, fun bs hbs => by cases hbs; exact ⟨h, rfl⟩⟩
  | nothing _ | refused _ _ | unwritable _ => exact ⟨none, rfl, nofun⟩

/-! ### Streams of threads -/

section

variable {thread : ThreadId} {p : Nat}

/-- A thread that has a stream keeps it. -/
theorem obtain_of_some (h : c.streamOf[thread]? = some p) :
    obtain thread c = .ok (.own p) c := by
  rw [obtain, streamOf?, h]
  rfl

/-- A thread that has no stream gets the next one. -/
theorem obtain_of_none (h : c.streamOf[thread]? = none) :
    obtain thread c = .ok (.own c.own.size) { c with
      own := c.own.push { ordering := .ofNat (Message.sharedOrderings + c.own.size) }
      streamOf := c.streamOf.insert thread c.own.size } := by
  rw [obtain, streamOf?, h]
  rfl

theorem exists_obtain (thread : ThreadId) (c : Client) :
    ∃ ref d, obtain thread c = .ok ref d := by
  cases h : c.streamOf[thread]? with
  | some p => exact ⟨_, _, obtain_of_some h⟩
  | none => exact ⟨_, _, obtain_of_none h⟩

theorem detach_of_some (h : c.streamOf[thread]? = some p) :
    detach thread c = .ok (some (.own p)) { c with streamOf := c.streamOf.erase thread } := by
  rw [detach, streamOf?, h]
  rfl

theorem detach_of_none (h : c.streamOf[thread]? = none) : detach thread c = .ok none c := by
  rw [detach, streamOf?, h]
  rfl

theorem threadGone_of_some (h : c.streamOf[thread]? = some p) : c.threadGone thread =
    c.setStream (.own p) { c.stream (.own p) with orphaned := true } := by
  rw [threadGone, streamOf?, h]
  rfl

theorem threadGone_of_none (h : c.streamOf[thread]? = none) : c.threadGone thread = c := by
  rw [threadGone, streamOf?, h]
  rfl

end

/-! ### Ends of streams -/

/-- A thread that has no stream has nothing to end. -/
theorem endStream_of_none {thread : ThreadId} (h : c.streamOf[thread]? = none) :
    endStream thread c = .ok ⟨⟩ c := by
  rw [endStream, Step.bind_of_ok (detach_of_none h)]
  rfl

/-- A thread gives up its stream, of which the records and then the end are sent. -/
theorem endStream_of_some {thread : ThreadId} {p : Nat} (h : c.streamOf[thread]? = some p) :
    endStream thread c = (do
      closeStream (.own p)
      enqueueMessage (.threadEnd ((← get).stream (.own p)).ordering) :
        EStateM ClientError Client Unit) { c with streamOf := c.streamOf.erase thread } := by
  rw [endStream, Step.bind_of_ok (detach_of_some h)]

/-- Records that are too large for a frame are lost with the stream that held them, and the end of
the stream is not told. -/
theorem endStream_of_unwritable {thread : ThreadId} {p : Nat} (hplaced : c.Placed)
    (hp : c.streamOf[thread]? = some p) {e : WireError}
    (he : (c.stream (.own p)).take.1 = .error e) :
    ∃ d : Client, d = Client.setStream (.own p)
        { (c.stream (.own p)).take.2 with closed := true }
        { c with streamOf := c.streamOf.erase thread } ∧
      closeStream (.own p) { c with streamOf := c.streamOf.erase thread } = .error (.wire e) d ∧
      endStream thread c = .error (.wire e) d := by
  have href : Has { c with streamOf := c.streamOf.erase thread } (.own p) :=
    hplaced.inRange thread p hp
  have hsends := closeStream_sends (c := { c with streamOf := c.streamOf.erase thread })
    hplaced.size_shared href
  have hclose : closeStream (.own p) { c with streamOf := c.streamOf.erase thread } =
      .error (.wire e) (Client.setStream (.own p)
        { (c.stream (.own p)).take.2 with closed := true }
        { c with streamOf := c.streamOf.erase thread }) := by
    generalize closeStream (.own p) { c with streamOf := c.streamOf.erase thread } = result
      at hsends
    cases hsends with
    | unwritable herror =>
      cases he.symm.trans herror
      rfl
    | nothing hok | sent hok | refused hok => cases he.symm.trans hok
  exact ⟨_, rfl, hclose, by rw [endStream_of_some hp, Step.bind_of_error hclose]⟩

theorem visit_eq (thread : ThreadId) (ref : StreamRef) (c : Client) : visit thread ref c =
    if (c.stream ref).orphaned then endStream thread c else sealStream ref c := by
  rw [visit, Step.get_bind]
  split <;> rfl

/-! ### Records -/

/-- A record is refused by the stream, or it is taken and stays there, or it is taken and all
records of the stream are to be sent. -/
theorem appendTo_cases (hsize : c.shared.size = Message.sharedOrderings) (href : c.Has ref)
    (b : RecordBuilder) :
    (∃ e s, RecordStream.append b (c.stream ref) = .error e s ∧
      appendTo ref b c = .error e (c.setStream ref s)) ∨
    ∃ s, RecordStream.append b (c.stream ref) = .ok ⟨⟩ s ∧
      (s.isFull c.settings = false ∧ appendTo ref b c = .ok ⟨⟩ (c.setStream ref s) ∨
        s.isFull c.settings = true ∧
          Sends s.take.1 (c.setStream ref s.take.2) (appendTo ref b c)) := by
  cases happend : RecordStream.append b (c.stream ref) with
  | error e s =>
    have hstep : onStream ref (RecordStream.append b) c = .error e (c.setStream ref s) := by
      rw [onStream_eq, happend]
    exact .inl ⟨e, s, rfl, Step.bind_of_error hstep⟩
  | ok a s =>
    have hstep : onStream ref (RecordStream.append b) c = .ok ⟨⟩ (c.setStream ref s) := by
      rw [onStream_eq, happend]
    have hsettings : (c.setStream ref s).settings = c.settings := by
      cases ref <;> rfl
    have hstream : (c.setStream ref s).stream ref = s := by
      rw [stream_setStream_of_has hsize href, if_pos rfl]
    refine .inr ⟨s, rfl, ?_⟩
    rw [appendTo, Step.bind_of_ok hstep, Step.get_bind, hsettings, hstream]
    cases hfull : s.isFull c.settings with
    | false => exact .inl ⟨rfl, rfl⟩
    | true =>
      have hseal := sealStream_sends ref (c.setStream ref s)
      rw [hstream, setStream_setStream] at hseal
      exact .inr ⟨rfl, hseal⟩

end Client

end TraceRelay
