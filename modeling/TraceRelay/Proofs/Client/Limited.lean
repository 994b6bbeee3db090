import TraceRelay.Proofs.Client.Losses
import TraceRelay.Proofs.Client.Owners

/-!
# Batches within their limits

Records and frees are held back until there are enough of them for a frame. The limits are looked at
when something was added: a stream that holds records has room for more, and a frame would have had
room without its last record. A batch that is full leaves before anything else is added to it, and
only a call that tells that records are too large can leave too many frees behind.

## Main definitions

* `ClientSettings.HasRoom` : records that do not fill a frame.
* `Message.Within` : a message that holds no more than the settings allow.
* `RecordStream.Below` : a stream that has room if it holds records.
* `Client.Limited` : streams, frees and frames within their limits, as every step keeps them.
* `Run.Heeds` : a session within its limits.

## Main results

* `Message.within_analyze` : records leave within the limits if there was room without the last one.
* `Client.Limited.appendTo`, `Client.Limited.confines_sealEvents`, `Client.Limited.sealFrees` : what
  steps keep.
* `Client.Limited.notes_objectFreed` : the call that sends all because of its limit.
* `Run.heeds_after`, `Run.within_of_enqueued` : all sessions, and all frames of a session.
* `Run.batches_limited` : what goes to the outbox, and what is held back.
-/

namespace TraceRelay

/-- Records do not fill a frame, by their number or by the size of their frame. -/
def ClientSettings.HasRoom (settings : ClientSettings) (records : List Record) : Prop :=
  records.length < settings.batchRecords.toNat ∧
    17 + (records.map Record.wireSize).sum < settings.batchBytes

/-- A message holds something, and no more than the settings allow: its frame would have been
shorter than the limit without the last record. -/
def Message.Within (settings : ClientSettings) : Message → Prop
  | analyze ordering records => records ≠ [] ∧ records.length ≤ settings.batchRecords.toNat ∧
    (records.length = 1 ∨ ∃ frame, (analyze ordering records.dropLast).toBytes = .ok frame ∧
      frame.length < settings.batchBytes)
  | objectFree tokens => tokens ≠ [] ∧ tokens.length ≤ settings.freeBatch.toNat
  | _ => True

variable {settings : ClientSettings}

/-! ### Records -/

/-- Settings are valid only if there may be something in a batch. -/
theorem ClientSettings.pos_of_validate (h : settings.validate = .ok ()) :
    0 < settings.batchRecords.toNat ∧ 0 < settings.freeBatch.toNat := by
  have hpos {n : UInt32} (hn : ¬ n = 0) : 0 < n.toNat :=
    Nat.pos_of_ne_zero fun hzero => hn (UInt32.toNat_inj.1 hzero)
  unfold validate at h
  split_ifs at h with hrecords hbytes hfree hqueue
  exact ⟨hpos hrecords, hpos hfree⟩

namespace ClientSettings.HasRoom

variable {records more : List Record}

theorem fewer (h : settings.HasRoom records) (hmore : more <+: records) :
    settings.HasRoom more := by
  obtain ⟨rest, rfl⟩ := hmore
  simp only [HasRoom, List.length_append, List.map_append, List.sum_append] at h ⊢
  omega

end ClientSettings.HasRoom

namespace Message

variable {ordering : UInt64} {records : List Record}

/-- With fewer records there is a frame if there is one, and its size is known. -/
theorem exists_frame_of_fewer {frame : Bytes} (h : (analyze ordering records).toBytes = .ok frame)
    {fewer : List Record} (hfewer : fewer <+: records) :
    ∃ frame', (analyze ordering fewer).toBytes = .ok frame' ∧
      frame'.length = 17 + (fewer.map Record.wireSize).sum := by
  obtain ⟨rest, rfl⟩ := hfewer
  have hfits := (takes_write _).succeeds.1 ⟨frame, (toBytes_eq _).symm.trans h⟩
  have hfewer : ¬ (analyze ordering fewer).TooLarge := by
    rw [not_tooLarge_iff] at hfits ⊢
    obtain ⟨⟨hrecords, -, hcount⟩, hsize⟩ := hfits
    simp only [itemCount, bodySize, List.length_append, List.map_append, List.sum_append]
      at hcount hsize
    refine ⟨⟨fun r hr => hrecords r (List.mem_append_left _ hr), fun _ heq => ?_, ?_⟩, ?_⟩
    · cases heq
    · exact Nat.le_of_add_right_le hcount
    · simp only [bodySize]
      omega
  obtain ⟨frame', hframe'⟩ := (takes_write _).succeeds.2 hfewer
  refine ⟨frame', (toBytes_eq _).trans hframe', ?_⟩
  rw [(takes_write _).length frame' hframe', headSize, bodySize]
  omega

/-- Records leave within the limits if there was room without the last of them. -/
theorem within_analyze {frame : Bytes} (h : (analyze ordering records).toBytes = .ok frame)
    (hsome : records ≠ []) (hvalid : settings.validate = .ok ())
    (hroom : records.dropLast ≠ [] → settings.HasRoom records.dropLast) :
    (analyze ordering records).Within settings := by
  have hpos := (ClientSettings.pos_of_validate hvalid).1
  have hlength : records.dropLast.length = records.length - 1 := List.length_dropLast
  have hlength' := List.length_pos_iff.2 hsome
  refine ⟨hsome, ?_⟩
  by_cases hone : records.dropLast = []
  · rw [hone, List.length_nil] at hlength
    exact ⟨by omega, .inl (by omega)⟩
  · obtain ⟨hcount, hsize⟩ := hroom hone
    obtain ⟨frame', hframe', hlen⟩ := exists_frame_of_fewer h (List.dropLast_prefix records)
    exact ⟨by omega, .inr ⟨frame', hframe', hlen ▸ hsize⟩⟩

end Message

/-! ### Streams -/

namespace RecordStream

variable {s : RecordStream} {records : List Record}

/-- A stream has room for more records if it holds some. It may have a batch without records, which
a record left behind that was refused. -/
def Below (settings : ClientSettings) (s : RecordStream) : Prop :=
  ∀ batch, s.batch = some batch → batch.isEmpty = false →
    batch.count < settings.batchRecords ∧ batch.size < settings.batchBytes

/-- The records that a stream holds, if there are any, leave room for more. -/
def Limited (settings : ClientSettings) (s : RecordStream) : Prop :=
  ∃ records, s.Holds records ∧ (records ≠ [] → settings.HasRoom records)

theorem isFull_eq_false_iff (h : s.Holds records) (hsome : records ≠ []) :
    s.isFull settings = false ↔ settings.HasRoom records := by
  rw [isFull_of_holds h hsome]
  simp [ClientSettings.HasRoom]

theorem Holds.limited_nil (h : s.Holds []) : s.Limited settings := ⟨[], h, nofun⟩

theorem Limited.below (h : s.Limited settings) : s.Below settings := by
  obtain ⟨records, hholds, hroom⟩ := h
  intro batch hbatch hempty
  have hsome : records ≠ [] := by
    unfold Holds at hholds
    rw [hbatch] at hholds
    have hrecords := AnalyzeBatch.isEmpty_of_holds (b := batch) hholds
    rw [hempty] at hrecords
    rintro rfl
    cases hrecords
  have hfull := (isFull_eq_false_iff hholds hsome).2 (hroom hsome)
  simp only [isFull, hbatch, Bool.or_eq_false_iff, decide_eq_false_iff_not] at hfull
  exact ⟨UInt32.not_le.1 hfull.1, Nat.not_le.1 hfull.2⟩

/-- A record is taken by a stream that had room for it, or it is refused and changes nothing. -/
theorem Limited.append (h : s.Limited settings) {b : RecordBuilder} {r : Record} (hb : b.Holds r) :
    (∃ s' records, append b s = .ok ⟨⟩ s' ∧ s'.Holds (records ++ [r]) ∧
      (records ≠ [] → settings.HasRoom records)) ∨
    ∃ e s', append b s = .error e s' ∧ s'.Limited settings := by
  obtain ⟨records, hholds, hroom⟩ := h
  cases hclosed : s.closed with
  | true => exact .inr ⟨_, s, append_of_closed hclosed b, records, hholds, hroom⟩
  | false =>
    rcases append_of_holds hholds hclosed hb with
      ⟨s', happend, hholds', -⟩ | ⟨e, s', happend, hholds', -⟩
    · exact .inl ⟨s', records, happend, hholds', hroom⟩
    · exact .inr ⟨_, s', happend, records, hholds', hroom⟩

/-- The frame that leaves a stream in which there was room without its last record. -/
theorem within_of_take (h : s.Holds records)
    (hroom : records.dropLast ≠ [] → settings.HasRoom records.dropLast)
    (hvalid : settings.validate = .ok ()) {frame : Bytes} (htake : s.take.1 = .ok (some frame)) :
    ∃ m : Message, m.toBytes = .ok frame ∧ m.Within settings := by
  rw [(take_of_holds h).1] at htake
  split_ifs at htake with hnone
  · cases htake
  cases hbytes : (Message.analyze s.ordering records).toBytes with
  | error e =>
    rw [hbytes] at htake
    cases htake
  | ok bs =>
    rw [hbytes] at htake
    cases htake
    exact ⟨_, hbytes, Message.within_analyze hbytes hnone hvalid hroom⟩

theorem Limited.within_of_take (h : s.Limited settings) (hvalid : settings.validate = .ok ())
    {frame : Bytes} (htake : s.take.1 = .ok (some frame)) :
    ∃ m : Message, m.toBytes = .ok frame ∧ m.Within settings := by
  obtain ⟨records, hholds, hroom⟩ := h
  refine RecordStream.within_of_take hholds (fun hrest => ?_) hvalid htake
  have hsome : records ≠ [] := fun hnone => hrest (by rw [hnone]; rfl)
  exact (hroom hsome).fewer (List.dropLast_prefix records)

theorem Limited.take (h : s.Limited settings) : s.take.2.Limited settings := by
  obtain ⟨records, hholds, -⟩ := h
  exact (take_of_holds hholds).2.1.limited_nil

theorem Limited.eq_batchTooLarge_of_take (h : s.Limited settings) {e : WireError}
    (he : s.take.1 = .error e) : e = .batchTooLarge := by
  obtain ⟨records, hholds, -⟩ := h
  have hany : s.HoldsOf fun _ => True := ⟨records, hholds, fun _ _ => trivial⟩
  exact RecordStream.eq_batchTooLarge_of_take hany he

end RecordStream

namespace FreeStream

variable {s : FreeStream} {tokens : List Token}

theorem toNat_count_of_holds (h : s.Holds tokens) : s.batch.count.toNat = tokens.length :=
  OpenFrame.Holds.items h

theorem isFull_of_holds (h : s.Holds tokens) (settings : ClientSettings) :
    s.isFull settings = decide (settings.freeBatch.toNat ≤ tokens.length) := by
  rw [← toNat_count_of_holds h]
  rfl

end FreeStream

/-! ### Steps -/

namespace Client

open Step (Keeps Notes Confines)

variable {c : Client} {ref : StreamRef} {bound bound' : Nat} {noted noted' : Prop}

/-- Streams, frees and frames are within their limits. The frees may be too many once it was noted
that records are too large, or once no frames are accepted any more. -/
structure Limited (settings : ClientSettings) (bound : Nat) (noted : Prop) (c : Client) : Prop where
  valid : settings.validate = .ok ()
  settings_eq : c.settings = settings
  placed : c.Placed
  streams : ∀ ref, (c.stream ref).Limited settings
  frees : ∃ tokens, c.frees.Holds tokens ∧
    (c.outbox.accepting = true → ¬ noted → tokens.length < bound)
  frames : ¬ noted → ∀ frame ∈ c.outbox.waiting.toList,
    ∃ m : Message, m.toBytes = .ok frame ∧ m.Within settings

/-- Why a step fails: records are too large, or no frames are accepted any more. -/
def Excused (e : ClientError) (c : Client) : Prop :=
  e = .wire .batchTooLarge ∨ c.outbox.accepting = false

/-- A step that is to send a frame fails with an excuse, if records alone can be too large. -/
theorem Sends.excused {frame : Except WireError (Option Bytes)}
    {result : EStateM.Result ClientError Client Unit} (hsends : Sends frame c result)
    (hfault : ∀ e, frame = .error e → e = .batchTooLarge) :
    ∀ e c', result = .error e c' → Excused e c' := by
  rintro e c' rfl
  cases hsends with
  | refused _ hrefusing => exact .inr hrefusing
  | unwritable herror => exact .inl (congrArg _ (hfault _ herror))

theorem limited_start (hvalid : settings.validate = .ok ()) :
    ({ settings } : Client).Limited settings settings.freeBatch.toNat noted where
  valid := hvalid
  settings_eq := rfl
  placed := placed_start settings
  streams ref := by
    cases ref with
    | own p => exact RecordStream.Holds.limited_nil rfl
    | shared i =>
      rw [stream_start]
      exact RecordStream.Holds.limited_nil rfl
  frees := ⟨[], FreeBatch.holds_empty, fun _ _ => (ClientSettings.pos_of_validate hvalid).2⟩
  frames _ := nofun

namespace Limited

theorem noting (h : c.Limited settings bound noted) (hnoted : noted → noted') :
    c.Limited settings bound noted' where
  valid := h.valid
  settings_eq := h.settings_eq
  placed := h.placed
  streams := h.streams
  frees := by
    obtain ⟨tokens, hholds, hfew⟩ := h.frees
    exact ⟨tokens, hholds, fun hyes hno => hfew hyes fun hn => hno (hnoted hn)⟩
  frames hno := h.frames fun hn => hno (hnoted hn)

/-- The number of frees that are held back does not matter after an excuse. -/
theorem excused (h : c.Limited settings bound noted) {e : ClientError} (he : Excused e c) :
    c.Limited settings bound' (noted ∨ e = .wire .batchTooLarge) where
  valid := h.valid
  settings_eq := h.settings_eq
  placed := h.placed
  streams := h.streams
  frees := by
    obtain ⟨tokens, hholds, -⟩ := h.frees
    refine ⟨tokens, hholds, fun hyes hno => ?_⟩
    rcases he with he | hrefusing
    · exact absurd (.inr he) hno
    · cases hrefusing.symm.trans hyes
  frames hno := h.frames fun hn => hno (.inl hn)

theorem setStream (h : c.Limited settings bound noted) (ref : StreamRef) {s : RecordStream}
    (hs : s.Limited settings) : (c.setStream ref s).Limited settings bound noted where
  valid := h.valid
  settings_eq := by cases ref <;> exact h.settings_eq
  placed := h.placed.setStream ref s
  streams other := by
    by_cases href : c.Has ref
    · rw [stream_setStream_of_has h.placed.size_shared href]
      split
      · exact hs
      · exact h.streams other
    · rw [setStream_of_not_has href]
      exact h.streams other
  frees := by cases ref <;> exact h.frees
  frames := by cases ref <;> exact h.frames

/-- Frames leave the outbox, and perhaps no more are accepted. -/
theorem sent {c' : Client} (h : c.Limited settings bound noted)
    (hsettings : c'.settings = c.settings) (hsame : c.SameStreams c') (hfrees : c'.frees = c.frees)
    (hframes : c'.outbox.waiting.toList <:+ c.outbox.waiting.toList)
    (haccepting : c'.outbox.accepting = true → c.outbox.accepting = true) :
    c'.Limited settings bound noted where
  valid := h.valid
  settings_eq := hsettings.trans h.settings_eq
  placed := hsame.placed h.placed
  streams ref := by
    rw [hsame.stream]
    exact h.streams ref
  frees := by
    obtain ⟨tokens, hholds, hfew⟩ := h.frees
    rw [hfrees]
    exact ⟨tokens, hholds, fun hyes => hfew (haccepting hyes)⟩
  frames hno frame hmem := h.frames hno frame (hframes.subset hmem)

theorem setFrees (h : c.Limited settings bound noted) {frees : FreeStream} {tokens : List Token}
    (hholds : frees.Holds tokens)
    (hfew : c.outbox.accepting = true → ¬ noted → tokens.length < bound') :
    Limited settings bound' noted { c with frees } where
  valid := h.valid
  settings_eq := h.settings_eq
  placed := SameStreams.placed (c := c) ⟨rfl, rfl, rfl⟩ h.placed
  streams := h.streams
  frees := ⟨tokens, hholds, hfew⟩
  frames := h.frames

theorem obtained (h : c.Limited settings bound noted) (thread : ThreadId) {s : RecordStream}
    (hs : s.Limited settings) : Limited settings bound noted
      { c with own := c.own.push s, streamOf := c.streamOf.insert thread c.own.size } where
  valid := h.valid
  settings_eq := h.settings_eq
  placed := h.placed.obtain thread s
  streams ref := by
    change (({ c with own := c.own.push s } : Client).stream ref).Limited settings
    rw [stream_push]
    split
    · exact hs
    · exact h.streams ref
  frees := h.frees
  frames := h.frames

theorem detached (h : c.Limited settings bound noted) (thread : ThreadId) :
    Limited settings bound noted { c with streamOf := c.streamOf.erase thread } where
  valid := h.valid
  settings_eq := h.settings_eq
  placed := h.placed.detach thread
  streams := h.streams
  frees := h.frees
  frames := h.frames

theorem posted (h : c.Limited settings bound noted) {bs : Bytes}
    (hbs : ¬ noted → ∃ m : Message, m.toBytes = .ok bs ∧ m.Within settings) :
    (c.posted (some bs)).Limited settings bound noted where
  valid := h.valid
  settings_eq := h.settings_eq
  placed := (sameStreams_posted c _).placed h.placed
  streams ref := by
    rw [(sameStreams_posted c _).stream]
    exact h.streams ref
  frees := h.frees
  frames hno frame hmem := by
    rw [toList_posted] at hmem
    rcases List.mem_append.1 hmem with hmem | hmem
    · exact h.frames hno frame hmem
    · cases List.mem_singleton.1 hmem
      exact hbs hno

/-- A frame is sent that is within the limits, if there is one. -/
theorem sends (h : c.Limited settings bound noted) {frame : Except WireError (Option Bytes)}
    {result : EStateM.Result ClientError Client Unit} (hsends : Sends frame c result)
    (hframe : ∀ bs, frame = .ok (some bs) → c.outbox.accepting = true → ¬ noted →
      ∃ m : Message, m.toBytes = .ok bs ∧ m.Within settings) :
    (Step.final result).Limited settings bound noted := by
  cases hsends with
  | nothing | refused | unwritable => exact h
  | sent hbs hyes => exact h.posted (hframe _ hbs hyes)

/-- A message is told that is not held back. -/
theorem tellMessage (h : c.Limited settings bound noted) {m : Message}
    (hm : c.outbox.accepting = true → ¬ noted → m.Within settings) :
    (Step.final (enqueueMessage m c)).Limited settings bound noted := by
  refine h.sends (enqueueMessage_sends m c) fun bs hbs hyes hno => ⟨m, ?_, hm hyes hno⟩
  cases hbytes : m.toBytes with
  | error e =>
    rw [hbytes] at hbs
    cases hbs
  | ok frame =>
    rw [hbytes] at hbs
    cases hbs
    rfl

/-! ### Steps on streams -/

theorem confines_sealStream (ref : StreamRef) :
    Confines (Limited settings bound noted) Excused (sealStream ref) := by
  intro c h
  have hs := h.streams ref
  have hsends := sealStream_sends ref c
  exact ⟨(h.setStream ref hs.take).sends hsends fun _ hbs _ _ => hs.within_of_take h.valid hbs,
    hsends.excused fun _ he => hs.eq_batchTooLarge_of_take he⟩

theorem confines_closeStream (ref : StreamRef) :
    Confines (Limited settings bound noted) Excused (closeStream ref) :=
  .bind (.modify fun _ h => h.setStream ref (h.streams ref)) fun _ => confines_sealStream ref

theorem confines_endStream (thread : ThreadId) :
    Confines (Limited settings bound noted) Excused (endStream thread) := by
  have hdetach : Confines (Limited settings bound noted) Excused (detach thread) := by
    intro c h
    unfold detach
    cases c.streamOf? thread with
    | none => exact ⟨h, fun _ _ heq => by injection heq⟩
    | some ref => exact ⟨h.detached thread, fun _ _ heq => by injection heq⟩
  refine .bind hdetach fun ref? => ?_
  cases ref? with
  | none => exact .pure _
  | some ref =>
    refine .bind (confines_closeStream ref) fun _ => .bind .get fun d c h => ?_
    -- The end of a stream always makes a frame.
    refine ⟨h.tellMessage fun _ _ => trivial, (enqueueMessage_sends _ c).excused fun e he => ?_⟩
    rw [Message.toBytes_threadEnd] at he
    cases he

theorem confines_sealEvents :
    Confines (Limited settings bound noted) Excused sealEvents := by
  have hvisit (thread : ThreadId) (ref : StreamRef) :
      Confines (Limited settings bound noted) Excused (visit thread ref) := by
    refine .bind .get fun c => ?_
    split
    · exact confines_endStream thread
    · exact confines_sealStream ref
  exact .bind .get fun c => .bind (.forM (fun (thread, ref) => hvisit thread ref) _) fun _ =>
    .forM confines_sealStream _

/-- A record is added. If the stream is full then, there was room without the record. -/
theorem appendTo (h : c.Limited settings bound noted) (href : c.Has ref) {b : RecordBuilder}
    {r : Record} (hb : b.Holds r) :
    (Step.final (appendTo ref b c)).Limited settings bound noted := by
  have hcases := appendTo_cases h.placed.size_shared href b
  rcases (h.streams ref).append hb with ⟨s, records, happend, hholds, hroom⟩ | ⟨e, s, happend, hs⟩
  · rcases hcases with ⟨_, _, hrefused, -⟩ | ⟨_, htaken, hend⟩
    · cases happend.symm.trans hrefused
    cases happend.symm.trans htaken
    have hsome : records ++ [r] ≠ [] := by simp
    rcases hend with ⟨hfull, hresult⟩ | ⟨-, hsends⟩
    · rw [h.settings_eq, RecordStream.isFull_eq_false_iff hholds hsome] at hfull
      rw [hresult]
      exact h.setStream ref ⟨_, hholds, fun _ => hfull⟩
    · obtain ⟨-, hnothing, -⟩ := RecordStream.take_of_holds hholds
      refine (h.setStream ref hnothing.limited_nil).sends hsends fun bs hbs _ _ => ?_
      refine RecordStream.within_of_take hholds ?_ h.valid hbs
      rwa [List.dropLast_concat]
  · rcases hcases with ⟨_, _, hrefused, hresult⟩ | ⟨_, htaken, -⟩
    · cases happend.symm.trans hrefused
      rw [hresult]
      exact h.setStream ref hs
    · cases happend.symm.trans htaken

/-! ### Calls -/

/-- A thread gets a stream, if it has none. -/
private theorem obtain (h : c.Limited settings bound noted) (thread : ThreadId) :
    ∃ ref d, Client.obtain thread c = .ok ref d ∧ d.Limited settings bound noted ∧ d.Has ref := by
  cases hp : c.streamOf[thread]? with
  | some p => exact ⟨_, c, obtain_of_some hp, h, h.placed.inRange thread p hp⟩
  | none =>
    exact ⟨_, _, obtain_of_none hp, h.obtained thread (RecordStream.Holds.limited_nil rfl),
      has_push.2 (.inr rfl)⟩

theorem finishEvent (h : c.Limited settings bound noted) (thread : ThreadId)
    {w : EventWriter} {r : Record} (hw : w.fault = none → w.record.Holds r) :
    (Step.final (finishEvent thread w c)).Limited settings bound noted := by
  unfold Client.finishEvent
  cases hfault : w.fault with
  | some e => exact h
  | none =>
    cases w.ordering with
    | none =>
      obtain ⟨ref, d, hobtain, hd, href⟩ := h.obtain thread
      dsimp only
      rw [appendLocal, Step.bind_of_ok hobtain]
      exact hd.appendTo href (hw hfault)
    | some i =>
      dsimp only
      have happend : Keeps (Limited settings bound noted) (Client.appendTo (.shared i) w.record) :=
        fun d hd => hd.appendTo (show d.Has (.shared i) from trivial) (hw hfault)
      rw [appendShared, Step.get_bind]
      cases c.streamOf? thread with
      | none => exact happend c h
      | some ref => exact Keeps.bind (confines_sealStream ref).keeps (fun _ => happend) c h

theorem dispatch (h : c.Limited settings bound noted) (thread : ThreadId) (id : MethodId)
    (args : List Value) :
    (Step.final (dispatch thread id args c)).Limited settings bound noted := by
  unfold Client.dispatch
  rcases beginEvent_cases id none c with hbegin | ⟨e, hbegin⟩
  · obtain ⟨hholds, -⟩ := EventWriter.foldl_send_of_holds
      (w := { record := .start id, ordering := none }) (fun _ => RecordBuilder.holds_start id) args
    rw [Step.bind_of_ok hbegin]
    exact h.finishEvent thread hholds
  · rw [Step.bind_of_error hbegin]
    exact h

theorem keeps_threadEnd (thread : ThreadId) :
    Keeps (Limited settings bound noted) (threadEnd thread) :=
  .bind keeps_ensureOpen fun _ => (confines_endStream thread).keeps

theorem threadGone (h : c.Limited settings bound noted) (thread : ThreadId) :
    (c.threadGone thread).Limited settings bound noted := by
  unfold Client.threadGone
  split
  · exact h.setStream _ (h.streams _)
  · exact h

theorem keeps_register (name : String) : Keeps (Limited settings bound noted) (register name) :=
  keeps_register_of (fun _ _ h => h.tellMessage fun _ _ => trivial)
    fun _ _ h => h.sent rfl ⟨rfl, rfl, rfl⟩ rfl (List.suffix_refl _) id

theorem keeps_tell {m : Message} (hm : m.Within settings) :
    Keeps (Limited settings bound noted) (tell m) :=
  .bind keeps_ensureOpen fun _ _ h => h.tellMessage fun _ _ => hm

/-- The frees are sent. Before that there may have been one more than fit below the limit. -/
theorem sealFrees (h : c.Limited settings bound noted)
    (hbound : bound ≤ settings.freeBatch.toNat + 1) :
    (Step.final (sealFrees c)).Limited settings settings.freeBatch.toNat noted := by
  obtain ⟨tokens, hholds, hfew⟩ := h.frees
  obtain ⟨hempty, hseal⟩ := sealFrees_of_holds hholds
  have hpos := (ClientSettings.pos_of_validate h.valid).2
  have hnothing : Limited settings settings.freeBatch.toNat noted
      { c with frees := c.frees.take.2 } := h.setFrees hempty fun _ _ => hpos
  rw [hseal]
  split
  · exact hnothing
  · next hsome =>
    exact hnothing.tellMessage fun hyes hno =>
      ⟨hsome, Nat.le_of_lt_succ (Nat.lt_of_lt_of_le (hfew hyes hno) hbound)⟩

theorem keeps_flush : Keeps (Limited settings settings.freeBatch.toNat noted) flush :=
  .bind keeps_ensureOpen fun _ => .bind confines_sealEvents.keeps fun _ _ h =>
    h.sealFrees (Nat.le_succ _)

/-- Everything is sent because of the frees. If it fails, the frees stay. There may be one more than
fits below the limit then, which is noted or does not matter any more. -/
theorem sealAll (h : c.Limited settings (settings.freeBatch.toNat + 1) noted) :
    (Step.final ((sealEvents >>= fun _ => Client.sealFrees) c)).Limited settings
      settings.freeBatch.toNat (noted ∨
        Step.Fails (.wire .batchTooLarge) ((sealEvents >>= fun _ => Client.sealFrees) c)) := by
  obtain ⟨hkept, hfaults⟩ := confines_sealEvents c h
  cases hseal : sealEvents c with
  | ok a d =>
    rw [hseal] at hkept
    rw [Step.bind_of_ok hseal]
    exact (sealFrees hkept (Nat.le_refl _)).noting Or.inl
  | error e d =>
    rw [hseal] at hkept
    rw [Step.bind_of_error hseal]
    refine (hkept.excused (hfaults e d hseal)).noting (Or.imp_right ?_)
    rintro rfl
    exact ⟨d, rfl⟩

/-- One more object is gone. If the frees fill a frame then, everything is sent. -/
theorem notes_objectFreed (t : Token) : Notes (.wire .batchTooLarge)
    (Limited settings settings.freeBatch.toNat) (objectFreed t) := by
  intro noted c h
  obtain ⟨tokens, hholds, hfew⟩ := h.frees
  cases hclosed : c.closed with
  | true =>
    rw [objectFreed, ensureOpen_bind_of_closed hclosed]
    exact h.noting Or.inl
  | false =>
    rw [objectFreed, ensureOpen_bind hclosed]
    rcases FreeStream.append_cases hholds t with ⟨frees, happend, hholds'⟩ | ⟨e, happend⟩
    · have htaken : onFrees (FreeStream.append t) c = .ok ⟨⟩ { c with frees } := by
        simp only [onFrees, happend]
      have hlength : (tokens ++ [t]).length = tokens.length + 1 := List.length_append
      have hfull := FreeStream.isFull_of_holds hholds' c.settings
      rw [hlength, h.settings_eq] at hfull
      rw [Step.bind_of_ok htaken, Step.get_bind]
      split
      · refine sealAll (h.setFrees hholds' fun hyes hno => ?_)
        rw [hlength]
        exact Nat.succ_lt_succ (hfew hyes hno)
      · next hroom =>
        refine (h.setFrees hholds' fun _ _ => ?_).noting Or.inl
        rw [hlength]
        dsimp only at hroom
        rw [h.settings_eq, hfull, decide_eq_true_iff] at hroom
        exact Nat.lt_of_not_le hroom
    · have hrefused : onFrees (FreeStream.append t) c = .error e c := by
        simp only [onFrees, happend]
      rw [Step.bind_of_error hrefused]
      exact h.noting Or.inl

/-! ### The sender, and the end of the session -/

theorem runSender (h : c.Limited settings bound noted) (deliver : Nat → Delivery) :
    (c.runSender deliver).2.Limited settings bound noted := by
  refine h.sent rfl ⟨rfl, rfl, rfl⟩ rfl (Outbox.waiting_pump deliver c.outbox) fun hyes => ?_
  rcases Outbox.pump_cases deliver c.outbox with ⟨-, haccepting⟩ | ⟨-, hno⟩
  · exact haccepting.symm.trans hyes
  · cases hno.symm.trans hyes

theorem keeps_closeAll : Keeps (Limited settings settings.freeBatch.toNat noted) closeAll := by
  refine .bind .get fun _ => .bind (.forM (fun (_, ref) => (confines_closeStream ref).keeps) _)
    fun _ => .bind (.forM (fun ref => (confines_closeStream ref).keeps) _) fun _ =>
      .bind (.modify fun c h => ?_) fun _ => .bind (fun c h => h.sealFrees (Nat.le_succ _))
        fun _ c h => h.tellMessage fun _ _ => trivial
  obtain ⟨tokens, hholds, hfew⟩ := h.frees
  exact h.setFrees hholds hfew

/-- All that is held back is sent at the end of a session. -/
theorem drained (h : c.Limited settings settings.freeBatch.toNat noted) :
    (Step.final (closeAll { c with ending := true, closed := true })).Limited settings
      settings.freeBatch.toNat noted :=
  keeps_closeAll _ (h.sent rfl ⟨rfl, rfl, rfl⟩ rfl (List.suffix_refl _) id)

theorem shutdown (h : c.Limited settings settings.freeBatch.toNat noted)
    (deliver : Nat → Delivery) :
    (c.shutdown deliver).2.2.Limited settings settings.freeBatch.toNat noted := by
  cases hending : c.ending with
  | true =>
    rw [Client.shutdown, if_pos hending]
    exact h
  | false =>
    rcases hshutdown : c.shutdown deliver with ⟨answer, out, c'⟩
    obtain ⟨d, hd, -, hend⟩ := shutdown_final hending hshutdown
    have hclosed : Limited settings settings.freeBatch.toNat noted
        { d with outbox := d.outbox.close } :=
      (hd ▸ h.drained).sent rfl ⟨rfl, rfl, rfl⟩ rfl (List.suffix_refl _) Bool.noConfusion
    have hsent := hclosed.runSender deliver
    rcases hend with ⟨rfl, -⟩ | rfl
    · exact hsent
    · exact hsent.sent rfl ⟨rfl, rfl, rfl⟩ rfl List.nil_suffix Bool.noConfusion

end Limited

end Client

/-! ### Sessions -/

namespace Run

variable {r : Run} {ts : List Turn} {bound : Nat} {noted : Prop}

/-- The run takes down the faults of its calls. -/
private theorem limited_perform {α : Type} {call : EStateM ClientError Client α}
    {note : α → Run → Run}
    (hnote : ∀ a r, (note a r).client = r.client ∧ (note a r).faults = r.faults)
    (h : (Step.final (call r.client)).Limited settings bound
      (noted ∨ Step.Fails (.wire .batchTooLarge) (call r.client))) :
    (r.perform call note).client.Limited settings bound
      (noted ∨ (r.perform call note).faults = r.faults ++ [.wire .batchTooLarge]) := by
  rw [client_perform fun a r => (hnote a r).1]
  refine h.noting (Or.imp_right ?_)
  rintro ⟨c, hfails⟩
  rw [perform, hfails]

/-- Each call of a session keeps the limits. -/
theorem limited_step (h : r.client.Limited settings settings.freeBatch.toNat noted)
    (hdrafts : r.DraftsHold) (name : Call) :
    (r.step name).client.Limited settings settings.freeBatch.toNat
      (noted ∨ (r.step name).faults = r.faults ++ [.wire .batchTooLarge]) := by
  have hkeeps {α : Type} {call : EStateM ClientError Client α} {note : α → Run → Run}
      (hnote : ∀ a r, (note a r).client = r.client ∧ (note a r).faults = r.faults)
      (hcall : Step.Keeps (Client.Limited settings settings.freeBatch.toNat noted) call) :=
    limited_perform hnote ((hcall r.client h).noting .inl)
  have htell {m : Message} (hm : m.Within settings) :=
    hkeeps (fun _ _ => ⟨rfl, rfl⟩ : ∀ _ (r : Run), r.client = r.client ∧ r.faults = r.faults)
      (Client.Limited.keeps_tell hm)
  cases name with
  | send n v | discard n => exact h.noting .inl
  | threadGone thread => exact (h.threadGone thread).noting .inl
  | runSender deliver => exact (h.runSender deliver).noting .inl
  | register name => exact hkeeps (fun _ _ => ⟨rfl, rfl⟩) (Client.Limited.keeps_register name)
  | «begin» n id ordering =>
    exact hkeeps (fun _ _ => ⟨rfl, rfl⟩) (Client.keeps_beginEvent id ordering)
  | classInfo info => exact htell (m := .classInfo info) trivial
  | stringInfo subject text => exact htell (m := .stringInfo subject text) trivial
  | threadInfo info => exact htell (m := .threadInfo info) trivial
  | flush => exact hkeeps (fun _ _ => ⟨rfl, rfl⟩) Client.Limited.keeps_flush
  | threadEnd thread =>
    exact hkeeps (fun _ _ => ⟨rfl, rfl⟩) (Client.Limited.keeps_threadEnd thread)
  | dispatch thread id args =>
    exact hkeeps (fun _ _ => ⟨rfl, rfl⟩) fun _ h => h.dispatch thread id args
  | objectFreed t =>
    exact limited_perform (fun _ _ => ⟨rfl, rfl⟩)
      (Client.Limited.notes_objectFreed t _ r.client h)
  | finish thread n =>
    cases hd : r.drafts n with
    | none =>
      rw [step_finish_of_none hd]
      exact h.noting .inl
    | some d =>
      rw [step_finish_of_some hd]
      exact limited_perform (r := r.setDraft n none) (fun _ _ => ⟨rfl, rfl⟩)
        ((h.finishEvent thread (hdrafts n d hd)).noting .inl)

/-- A session is within the limits, or was told that records were too large. -/
def Heeds (settings : ClientSettings) (r : Run) : Prop :=
  r.client.Limited settings settings.freeBatch.toNat (.wire .batchTooLarge ∈ r.faults)

theorem mem_faults_turn {e : ClientError} (h : e ∈ r.faults) (t : Turn) :
    e ∈ (r.turn t).faults := by
  cases t with
  | call call => exact mem_faults_step h call
  | shutdown deliver =>
    change e ∈ (r.shutdown deliver).faults
    unfold shutdown
    split
    · exact h
    · exact List.mem_append_left _ h

theorem Heeds.turn (h : r.Heeds settings) (hdrafts : r.DraftsHold) (t : Turn) :
    (r.turn t).Heeds settings := by
  cases t with
  | call call =>
    refine (limited_step h hdrafts call).noting ?_
    rintro (hbefore | hfault)
    · exact mem_faults_step hbefore call
    · exact hfault ▸ List.mem_append_right _ (List.mem_singleton.2 rfl)
  | shutdown deliver =>
    have hclient := h.shutdown deliver
    rcases heq : r.client.shutdown deliver with ⟨answer, out, c⟩
    rw [heq, ← (shutdown_eq heq).1] at hclient
    exact hclient.noting fun hbefore => mem_faults_turn hbefore (.shutdown deliver)

/-- What a turn puts into the outbox. -/
theorem Heeds.within_of_enqueuedBy (h : r.Heeds settings) (hdrafts : r.DraftsHold) {t : Turn}
    (hfaults : .wire .batchTooLarge ∉ (r.turn t).faults) {frame : Bytes}
    (hframe : frame ∈ r.enqueuedBy t) :
    ∃ m : Message, m.toBytes = .ok frame ∧ m.Within settings := by
  cases t with
  | call call =>
    by_cases hcall : ∃ deliver, call = .runSender deliver
    · obtain ⟨deliver, rfl⟩ := hcall
      cases hframe
    · rw [enqueuedBy_call fun deliver heq => hcall ⟨deliver, heq⟩] at hframe
      exact (h.turn hdrafts (.call call)).frames hfaults frame (List.mem_of_mem_drop hframe)
  | shutdown deliver =>
    have hno : .wire .batchTooLarge ∉ r.faults := fun hbefore =>
      hfaults (mem_faults_turn hbefore _)
    rw [enqueuedBy] at hframe
    split at hframe
    · cases hframe
    · exact h.drained.frames hno frame (List.mem_of_mem_drop hframe)

theorem heeds_after (hvalid : settings.validate = .ok ()) (ts : List Turn) :
    (after settings ts).Heeds settings := by
  induction ts using List.reverseRecOn with
  | nil => exact Client.limited_start hvalid
  | append_singleton ts t ih =>
    rw [after_concat]
    exact ih.turn (chronicle settings ts).drafts t

/-- All frames of a session. -/
theorem within_of_enqueued (hvalid : settings.validate = .ok ())
    (hfaults : .wire .batchTooLarge ∉ (after settings ts).faults) {frame : Bytes}
    (hframe : frame ∈ (after settings []).enqueued ts) :
    ∃ m : Message, m.toBytes = .ok frame ∧ m.Within settings := by
  induction ts using List.reverseRecOn with
  | nil => cases hframe
  | append_singleton ts t ih =>
    rw [after_concat] at hfaults
    rw [enqueued_concat] at hframe
    rcases List.mem_append.1 hframe with hbefore | hlast
    · exact ih (fun hfault => hfaults (mem_faults_turn hfault t)) hbefore
    · have hdrafts := (chronicle settings ts).drafts
      exact (heeds_after hvalid ts).within_of_enqueuedBy hdrafts hfaults hlast

theorem Enqueued.map_toBytes {ms : List Message} (h : Enqueued settings ts ms) :
    ms.map Message.toBytes = ((after settings []).enqueued ts).map Except.ok := by
  rw [← List.forall₂_eq_eq_eq, List.forall₂_map_left_iff, List.forall₂_map_right_iff]
  exact h

/-- **Batches are within their limits.** If no call told that records are too large, then what went
to the outbox is no more than the settings allow, and while the session is open nothing is held back
that fills a frame. -/
theorem batches_limited (settings : ClientSettings) (ts : List Turn)
    (hvalid : settings.validate = .ok ())
    (hfaults : .wire .batchTooLarge ∉ (after settings ts).faults) :
    (∃ ms, Enqueued settings ts ms ∧ ∀ m ∈ ms, m.Within settings) ∧
      ((after settings ts).client.closed = false →
        (∀ ref, ((after settings ts).client.stream ref).Below settings) ∧
          (after settings ts).client.frees.batch.count < settings.freeBatch) := by
  have hlimited := heeds_after hvalid ts
  constructor
  · obtain ⟨k, hk⟩ := exists_inCustody settings ts
    refine ⟨_, hk.enqueued, fun m hm => ?_⟩
    have hbytes := List.mem_map_of_mem (f := Message.toBytes) hm
    rw [hk.enqueued.map_toBytes] at hbytes
    obtain ⟨frame, hframe, hok⟩ := List.mem_map.1 hbytes
    obtain ⟨m', hm', hwithin⟩ := within_of_enqueued hvalid hfaults hframe
    rwa [Message.eq_of_toBytes hok.symm hm']
  · intro hopen
    obtain ⟨tokens, hholds, hfew⟩ := hlimited.frees
    refine ⟨fun ref => (hlimited.streams ref).below, ?_⟩
    rw [UInt32.lt_iff_toNat_lt, FreeStream.toNat_count_of_holds hholds]
    exact hfew (accepting_after hopen) hfaults

/-- Two records or three frees fill a frame. -/
def narrow : ClientSettings := { batchRecords := 2, freeBatch := 3 }

/-- A thread fills a frame and begins the next one, which leaves with its end. Another thread holds
a record back, and there are two frees. -/
def crossing : List Turn :=
  [.call (.register "X.m"), .call (.dispatch 1 1 [.int 3]), .call (.dispatch 1 1 []),
    .call (.dispatch 1 1 []), .call (.dispatch 2 1 []), .call (.objectFreed ⟨5⟩),
    .call (.objectFreed ⟨6⟩), .call (.threadEnd 1)]

set_option maxRecDepth 100000 in
theorem batches_limited_crossing :
    narrow.validate = .ok () ∧ .wire .batchTooLarge ∉ (after narrow crossing).faults ∧
      (after narrow crossing).client.closed = false ∧
      (∃ ms, ms.length = 4 ∧ Enqueued narrow crossing ms ∧ ∀ m ∈ ms, m.Within narrow) ∧
      (∀ ref, ((after narrow crossing).client.stream ref).Below narrow) ∧
      (after narrow crossing).client.frees.batch.count < 3 := by
  have hrun : narrow.validate = .ok () ∧
      .wire .batchTooLarge ∉ (after narrow crossing).faults ∧
      (after narrow crossing).client.closed = false ∧
      ((after narrow []).enqueued crossing).length = 4 := by decide +kernel
  obtain ⟨hvalid, hfaults, hopen, hcount⟩ := hrun
  obtain ⟨⟨ms, hms, hwithin⟩, hheld⟩ := batches_limited narrow crossing hvalid hfaults
  exact ⟨hvalid, hfaults, hopen, ⟨ms, (List.Forall₂.length_eq hms).trans hcount, hms, hwithin⟩,
    hheld hopen⟩

end Run

end TraceRelay
