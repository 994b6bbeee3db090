import TraceRelay.Proofs.Client.Closed

/-!
# What goes to the outbox

Whatever calls are made and however they end, each frame that goes to the outbox is one of a
message. If the message is about the stream of a thread then a thread has the stream, or is just
giving it up; and once the end of the stream was told, no thread has it any more. So nothing follows
the end of a stream.

## Main definitions

* `RecordStream.HoldsOf` : what the records are that a stream holds back.
* `Client.Steady` : the streams are numbered, and hold records that they were given.
* `Client.Logs` : the messages that went to the outbox.
* `Client.Intact` : both, as every step keeps them.

## Main results

* `Client.Intact.sealStream`, `Client.Intact.closeStream`, `Client.Intact.appendTo` : steps on a
  stream.
* `Client.Intact.tellMessage` : a message that is about no stream.
-/

namespace TraceRelay

namespace RecordStream

variable {s : RecordStream} {P Q : Record → Prop}

/-- A stream holds records back, and all of them are of a kind. -/
def HoldsOf (P : Record → Prop) (s : RecordStream) : Prop :=
  ∃ records, s.Holds records ∧ ∀ r ∈ records, P r

theorem HoldsOf.mono (h : s.HoldsOf P) (hPQ : ∀ r, P r → Q r) : s.HoldsOf Q := by
  obtain ⟨records, hholds, hrecords⟩ := h
  exact ⟨records, hholds, fun r hr => hPQ r (hrecords r hr)⟩

theorem Holds.holdsOf_nil (h : s.Holds []) : s.HoldsOf P := ⟨[], h, nofun⟩

/-- A stream that gets a record holds it, or holds what it held. -/
theorem append_of_holdsOf (h : s.HoldsOf P) {b : RecordBuilder} {r : Record} (hb : b.Holds r) :
    (∃ s', append b s = .ok ⟨⟩ s' ∧ s.SameGate s' ∧ s'.HoldsOf fun r' => P r' ∨ r' = r) ∨
      ∃ e s', append b s = .error e s' ∧ s.SameGate s' ∧ s'.HoldsOf P := by
  obtain ⟨records, hholds, hrecords⟩ := h
  cases hclosed : s.closed with
  | true =>
    exact .inr ⟨_, s, append_of_closed hclosed b, ⟨rfl, rfl, rfl⟩, records, hholds, hrecords⟩
  | false =>
    rcases append_of_holds hholds hclosed hb with
      ⟨s', happend, hholds', hgate, -⟩ | ⟨e, s', happend, hholds', hgate, -⟩
    · refine .inl ⟨s', happend, hgate, _, hholds', fun r' hr' => ?_⟩
      exact (List.mem_append.1 hr').imp (hrecords r') List.mem_singleton.1
    · exact .inr ⟨_, s', happend, hgate, records, hholds', hrecords⟩

/-- Records that a stream holds can only be too large for a frame. -/
theorem eq_batchTooLarge_of_take (h : s.HoldsOf P) {e : WireError} (he : s.take.1 = .error e) :
    e = .batchTooLarge := by
  obtain ⟨records, hholds, -⟩ := h
  obtain ⟨htake, -⟩ := take_of_holds hholds
  rw [he] at htake
  split at htake
  · cases htake
  · next hsome =>
    cases hbytes : (Message.analyze s.ordering records).toBytes with
    | error e' =>
      rw [hbytes] at htake
      cases htake
      exact eq_batchTooLarge_of_toBytes hholds hsome hbytes
    | ok frame =>
      rw [hbytes] at htake
      cases htake

end RecordStream

/-- The stream whose end a message tells is the one that it is about. -/
theorem Parcel.source_of_ends {p : Parcel} {position : Nat} (h : p.ends? = some position) :
    p.source = some (.own position) := by
  unfold Parcel.ends? at h
  split at h
  · next hsource =>
    cases h
    exact hsource
  · cases h

namespace Client

open Step (Keeps)

variable {c c' : Client} {gone gone' : Nat → Prop} {given given' : StreamRef → Record → Prop}
  {silent : Nat → Prop} {past : List Bytes} {ps : List Parcel} {ref : StreamRef} {thread : ThreadId}

/-! ### Streams -/

/-- The streams are numbered, and hold records that they were given. The threads of the streams
`gone` are gone. -/
structure Steady (gone : Nat → Prop) (given : StreamRef → Record → Prop) (c : Client) : Prop where
  placed : c.Placed
  ordering : ∀ ref, c.Has ref → (c.stream ref).ordering = ref.ordering
  held : ∀ ref, c.Has ref → (c.stream ref).HoldsOf (given ref)
  frees : ∃ tokens, c.frees.Holds tokens
  orphaned : ∀ p, gone p → p < c.own.size ∧ (c.stream (.own p)).orphaned = true

namespace Steady

theorem setStream (h : c.Steady gone given) (href : c.Has ref) {s : RecordStream}
    (hordering : s.ordering = (c.stream ref).ordering) (hholds : s.HoldsOf (given ref))
    (horphaned : (c.stream ref).orphaned = true → s.orphaned = true) :
    (c.setStream ref s).Steady gone given where
  placed := h.placed.setStream ref s
  ordering := forall_setStream (P := fun other t => t.ordering = other.ordering)
    h.placed.size_shared href h.ordering (hordering.trans (h.ordering ref href))
  held := forall_setStream (P := fun other t => t.HoldsOf (given other))
    h.placed.size_shared href h.held hholds
  frees := by cases ref <;> exact h.frees
  orphaned p hp := by
    obtain ⟨hlt, hyes⟩ := h.orphaned p hp
    rw [size_own_setStream, stream_setStream_of_has h.placed.size_shared href]
    refine ⟨hlt, ?_⟩
    split
    · next heq =>
      rw [heq] at hyes
      exact horphaned hyes
    · exact hyes

theorem same (h : c.Steady gone given) (hc : c.SameStreams c')
    (hfrees : ∃ tokens, c'.frees.Holds tokens) : c'.Steady gone given where
  placed := hc.placed h.placed
  ordering ref href := by
    rw [hc.stream]
    exact h.ordering ref ((hc.has ref).1 href)
  held ref href := by
    rw [hc.stream]
    exact h.held ref ((hc.has ref).1 href)
  frees := hfrees
  orphaned p hp := by
    rw [hc.own, hc.stream]
    exact h.orphaned p hp

theorem sends (h : c.Steady gone given) {frame : Except WireError (Option Bytes)}
    {result : EStateM.Result ClientError Client Unit} (hsends : Sends frame c result) :
    (Step.final result).Steady gone given := by
  obtain ⟨frame', hfinal, -⟩ := hsends.final
  rw [hfinal]
  exact h.same (c.sameStreams_posted frame') (by cases frame' <;> exact h.frees)

theorem detach (h : c.Steady gone given) (thread : ThreadId) :
    Steady gone given { c with streamOf := c.streamOf.erase thread } where
  placed := h.placed.detach thread
  ordering := h.ordering
  held := h.held
  frees := h.frees
  orphaned := h.orphaned

theorem obtain (h : c.Steady gone given) (thread : ThreadId) :
    Steady gone given { c with
      own := c.own.push { ordering := .ofNat (Message.sharedOrderings + c.own.size) }
      streamOf := c.streamOf.insert thread c.own.size } where
  placed := h.placed.obtain thread _
  ordering := forall_push (P := fun ref t => t.ordering = ref.ordering) h.ordering rfl
  held := forall_push (P := fun ref t => t.HoldsOf (given ref)) h.held
    (RecordStream.Holds.holdsOf_nil rfl)
  frees := h.frees
  orphaned p hp := by
    obtain ⟨hlt, hyes⟩ := h.orphaned p hp
    refine ⟨Nat.lt_of_lt_of_le hlt (by simp), ?_⟩
    refine (congrArg RecordStream.orphaned (stream_push c _ (.own p))).trans ?_
    rw [if_neg fun heq => Nat.ne_of_lt hlt (StreamRef.own.inj heq)]
    exact hyes

/-- The stream of a thread that is gone. -/
theorem threadGone (h : c.Steady gone given) (thread : ThreadId) :
    (c.threadGone thread).Steady (fun p => gone p ∨ c.streamOf[thread]? = some p) given := by
  cases hstream : c.streamOf[thread]? with
  | none =>
    rw [threadGone_of_none hstream]
    exact { h with orphaned := fun p hp => h.orphaned p (hp.resolve_right nofun) }
  | some p =>
    rw [threadGone_of_some hstream]
    have hlt : c.Has (.own p) := h.placed.inRange thread p hstream
    have hset :
        (c.setStream (.own p) { c.stream (.own p) with orphaned := true }).Steady gone given :=
      h.setStream hlt rfl (h.held _ hlt) fun _ => rfl
    refine { hset with orphaned := fun q hq => ?_ }
    rcases hq with hq | hq
    · exact hset.orphaned q hq
    · cases hq
      rw [size_own_setStream, stream_setStream_of_has h.placed.size_shared hlt, if_pos rfl]
      exact ⟨hlt, rfl⟩

theorem mono (h : c.Steady gone given) (hgone : ∀ p, gone' p → gone p)
    (hgiven : ∀ ref r, given ref r → given' ref r) : c.Steady gone' given' :=
  { h with
    held := fun ref href => (h.held ref href).mono (hgiven ref)
    orphaned := fun p hp => h.orphaned p (hgone p hp) }

end Steady

/-! ### Messages -/

/-- There is a stream that no thread has. -/
def Freed (p : Nat) (c : Client) : Prop :=
  p < c.own.size ∧ ∀ thread : ThreadId, c.streamOf[thread]? ≠ some p

/-- The client put the messages `ps` into its outbox; the frames `past` are no longer there. The
records were given to their streams. Nothing follows the end of a stream, and no thread has a stream
whose end was told. The streams `silent` are ones that no thread has, and their ends were not
told. -/
structure Logs (given : StreamRef → Record → Prop) (silent : Nat → Prop) (past : List Bytes)
    (ps : List Parcel) (c : Client) : Prop where
  frames : List.Forall₂ (fun (p : Parcel) frame => p.message.toBytes = .ok frame) ps
    (past ++ c.outbox.waiting.toList)
  sound : ∀ p ∈ ps, p.Sound ∨ p = ⟨none, .close⟩
  has : ∀ p ∈ ps, ∀ ref, p.source = some ref → c.Has ref
  records : ∀ p ∈ ps, ∀ ref, p.source = some ref → ∀ r ∈ p.message.records, given ref r
  final : ps.Pairwise fun p p' => ∀ position, p.ends? = some position →
    p'.source ≠ some (.own position)
  ended : ∀ p ∈ ps, ∀ position, p.ends? = some position →
    ∀ thread : ThreadId, c.streamOf[thread]? ≠ some position
  silence : ∀ position, silent position → Freed position c ∧ ∀ p ∈ ps, p.ends? ≠ some position

/-- The end of a stream was not told. -/
def Unended (ps : List Parcel) (ref : StreamRef) : Prop :=
  ∀ position, ref = .own position → ∀ p ∈ ps, p.ends? ≠ some position

namespace Logs

theorem unended (h : c.Logs given silent past ps) {position : Nat}
    (hposition : c.streamOf[thread]? = some position) : Unended ps (.own position) := by
  intro other heq p hp hends
  cases heq
  exact h.ended p hp position hends thread hposition

theorem mono (h : c.Logs given silent past ps)
    (hgiven : ∀ ref r, given ref r → given' ref r) : c.Logs given' silent past ps :=
  { h with records := fun p hp ref href r hr => hgiven ref r (h.records p hp ref href r hr) }

/-- One more stream is silent from now on. -/
theorem hush (h : c.Logs given silent past ps) {position : Nat} (hfreed : Freed position c)
    (hopen : Unended ps (.own position)) :
    c.Logs given (fun q => silent q ∨ q = position) past ps :=
  { h with
    silence := by
      rintro q (hq | rfl)
      · exact h.silence q hq
      · exact ⟨hfreed, hopen q rfl⟩ }

theorem setStream (h : c.Logs given silent past ps) (ref : StreamRef) (s : RecordStream) :
    (c.setStream ref s).Logs given silent past ps where
  frames := by cases ref <;> exact h.frames
  sound := h.sound
  has p hp other hother := (has_setStream ref s other).2 (h.has p hp other hother)
  records := h.records
  final := h.final
  ended := by
    rw [streamOf_setStream]
    exact h.ended
  silence := by
    simp only [Freed, size_own_setStream, streamOf_setStream]
    exact h.silence

/-- The streams are the same. Frames may leave the outbox. -/
theorem same (h : c.Logs given silent past ps) (hc : c.SameStreams c') {past' : List Bytes}
    (hframes : past' ++ c'.outbox.waiting.toList = past ++ c.outbox.waiting.toList) :
    c'.Logs given silent past' ps where
  frames := by
    rw [hframes]
    exact h.frames
  sound := h.sound
  has p hp ref href := (hc.has ref).2 (h.has p hp ref href)
  records := h.records
  final := h.final
  ended := by
    rw [hc.streamOf]
    exact h.ended
  silence := by
    simp only [Freed, hc.own, hc.streamOf]
    exact h.silence

/-- A thread gives up its stream. -/
theorem detach (h : c.Logs given silent past ps) (thread : ThreadId) :
    Logs given silent past ps { c with streamOf := c.streamOf.erase thread } where
  frames := h.frames
  sound := h.sound
  has := h.has
  records := h.records
  final := h.final
  ended p hp position hends other hother := by
    rw [getElem?_erase] at hother
    split at hother
    · cases hother
    · exact h.ended p hp position hends other hother
  silence position hsilent := by
    obtain ⟨⟨hlt, hnone⟩, hopen⟩ := h.silence position hsilent
    refine ⟨⟨hlt, fun other hother => ?_⟩, hopen⟩
    rw [getElem?_erase] at hother
    split at hother
    · cases hother
    · exact hnone other hother

theorem obtain (h : c.Logs given silent past ps) (thread : ThreadId) (s : RecordStream) :
    Logs given silent past ps
      { c with own := c.own.push s, streamOf := c.streamOf.insert thread c.own.size } where
  frames := h.frames
  sound := h.sound
  has p hp ref href := by
    have hbefore := h.has p hp ref href
    cases ref with
    | shared i => trivial
    | own position =>
      refine Nat.lt_of_lt_of_le (show position < c.own.size from hbefore) ?_
      simp
  records := h.records
  final := h.final
  ended p hp position hends other hother := by
    rw [getElem?_insert] at hother
    split at hother
    · -- The end of a stream is told of streams that there were before.
      cases hother
      exact Nat.lt_irrefl _ (h.has p hp _ (Parcel.source_of_ends hends))
    · exact h.ended p hp position hends other hother
  silence position hsilent := by
    obtain ⟨⟨hlt, hnone⟩, hopen⟩ := h.silence position hsilent
    refine ⟨⟨?_, fun other hother => ?_⟩, hopen⟩
    · rw [Array.size_push]
      exact Nat.lt_succ_of_lt hlt
    · rw [getElem?_insert] at hother
      split at hother
      · cases hother
        exact Nat.lt_irrefl _ hlt
      · exact hnone other hother

/-- One more message. It may be about a stream whose end was not told, and it may tell the end of
one that no thread has and that is not silent. -/
theorem post (h : c.Logs given silent past ps) {p : Parcel} {frame : Bytes}
    (hframe : p.message.toBytes = .ok frame) (hsound : p.Sound ∨ p = ⟨none, .close⟩)
    (hsource : ∀ ref, p.source = some ref → c.Has ref ∧ Unended ps ref ∧
      ∀ r ∈ p.message.records, given ref r)
    (hends : ∀ position, p.ends? = some position →
      ¬ silent position ∧ ∀ thread : ThreadId, c.streamOf[thread]? ≠ some position) :
    (c.posted (some frame)).Logs given silent past (ps ++ [p]) where
  frames := by
    rw [toList_posted, ← List.append_assoc]
    exact List.rel_append h.frames (.cons hframe .nil)
  sound := List.forall_mem_append.2 ⟨h.sound, List.forall_mem_singleton.2 hsound⟩
  has := List.forall_mem_append.2 ⟨h.has,
    List.forall_mem_singleton.2 fun ref href => (hsource ref href).1⟩
  records := List.forall_mem_append.2 ⟨h.records,
    List.forall_mem_singleton.2 fun ref href => (hsource ref href).2.2⟩
  final := by
    refine List.pairwise_append.2 ⟨h.final, List.pairwise_singleton _ _, ?_⟩
    intro q hq q' hq' position hends' hposition
    cases List.mem_singleton.1 hq'
    exact (hsource _ hposition).2.1 position rfl q hq hends'
  ended := List.forall_mem_append.2 ⟨h.ended,
    List.forall_mem_singleton.2 fun position hposition => (hends position hposition).2⟩
  silence position hsilent := by
    obtain ⟨hfreed, hopen⟩ := h.silence position hsilent
    refine ⟨hfreed, List.forall_mem_append.2 ⟨hopen, List.forall_mem_singleton.2 ?_⟩⟩
    exact fun hposition => (hends position hposition).1 hsilent

/-- The records of a stream whose end was not told go out, or are lost. -/
theorem sends (h : c.Logs given silent past ps) (href : c.Has ref) (hopen : Unended ps ref)
    {s : RecordStream} (hholds : s.HoldsOf (given ref)) (hordering : s.ordering = ref.ordering)
    {result : EStateM.Result ClientError Client Unit} (hsends : Sends s.take.1 c result) :
    ∃ more, (Step.final result).Logs given silent past (ps ++ more) ∧
      ∀ p ∈ more, p.ends? = none := by
  obtain ⟨records, hholds, hrecords⟩ := hholds
  obtain ⟨frame, hfinal, hframe⟩ := hsends.final
  rw [hfinal]
  cases frame with
  | none => exact ⟨[], by rwa [List.append_nil], nofun⟩
  | some bs =>
    obtain ⟨htake, -⟩ := RecordStream.take_of_holds hholds
    rw [(hframe bs rfl).1] at htake
    by_cases hnone : records = []
    · rw [if_pos hnone] at htake
      cases htake
    rw [if_neg hnone, hordering] at htake
    refine ⟨[⟨some ref, .analyze ref.ordering records⟩], h.post ?_ ?_ ?_ nofun, ?_⟩
    · cases hbytes : (Message.analyze ref.ordering records).toBytes with
      | error e =>
        rw [hbytes] at htake
        cases htake
      | ok frame =>
        rw [hbytes] at htake
        cases htake
        rfl
    · exact .inl ⟨hnone, ref, rfl, rfl⟩
    · rintro _ ⟨⟩
      exact ⟨href, hopen, hrecords⟩
    · exact List.forall_mem_singleton.2 rfl

/-- A message goes out, unless it cannot be written or no frames are accepted. -/
theorem sends_message (h : c.Logs given silent past ps) {source : Option StreamRef}
    {m : Message} (hsound : Parcel.Sound ⟨source, m⟩ ∨ (⟨source, m⟩ : Parcel) = ⟨none, .close⟩)
    (hsource : ∀ ref, source = some ref → c.Has ref ∧ Unended ps ref ∧
      ∀ r ∈ m.records, given ref r)
    (hends : ∀ position, Parcel.ends? ⟨source, m⟩ = some position →
      ¬ silent position ∧ ∀ thread : ThreadId, c.streamOf[thread]? ≠ some position) :
    (Step.final (enqueueMessage m c)).Logs given silent past (ps ++ [⟨source, m⟩]) ∨
      Step.final (enqueueMessage m c) = c ∧
        ((∃ frame, m.toBytes = .ok frame) → c.outbox.accepting = false) := by
  have hsends := enqueueMessage_sends m c
  generalize enqueueMessage m c = result at hsends
  cases hbytes : m.toBytes with
  | error e =>
    rw [hbytes] at hsends
    cases hsends with
    | unwritable => exact .inr ⟨rfl, nofun⟩
    | nothing h | sent h | refused h => cases h
  | ok frame =>
    rw [hbytes] at hsends
    cases hsends with
    | nothing h | unwritable h => cases h
    | sent hsome =>
      cases hsome
      exact .inl (h.post hbytes hsound hsource hends)
    | refused _ haccepting => exact .inr ⟨rfl, fun _ => haccepting⟩

end Logs

/-! ### Steps -/

/-- The streams are in order, and nothing followed the end of one. -/
def Intact (gone : Nat → Prop) (given : StreamRef → Record → Prop) (silent : Nat → Prop)
    (past : List Bytes) (c : Client) : Prop :=
  c.Steady gone given ∧ ∃ ps, c.Logs given silent past ps

/-- A stream that records go to: a shared one, or one that a thread has. -/
def InUse (c : Client) : StreamRef → Prop
  | .shared _ => True
  | .own position => ∃ thread : ThreadId, c.streamOf[thread]? = some position

theorem InUse.has (h : c.InUse ref) (hplaced : c.Placed) : c.Has ref := by
  cases ref with
  | shared i => trivial
  | own position =>
    obtain ⟨thread, hposition⟩ := h
    exact hplaced.inRange thread position hposition

theorem InUse.unended (h : c.InUse ref) (hlogs : c.Logs given silent past ps) :
    Unended ps ref := by
  cases ref with
  | shared i => exact fun _ => nofun
  | own position =>
    obtain ⟨thread, hposition⟩ := h
    exact hlogs.unended hposition

theorem InUse.holdings (h : c.InUse ref) (hc : c'.holdings = c.holdings) : c'.InUse ref := by
  cases ref with
  | shared i => trivial
  | own position =>
    obtain ⟨thread, hposition⟩ := h
    have hstreams : c'.streamOf = c.streamOf := congrArg (·.2.1) hc
    exact ⟨thread, by rwa [hstreams]⟩

/-- A record that was given to a stream, if a condition holds. -/
def also (given : StreamRef → Record → Prop) (p : Prop) (ref : StreamRef) (r : Record) :
    StreamRef → Record → Prop :=
  fun ref' r' => given ref' r' ∨ p ∧ ref' = ref ∧ r' = r

/-- A stream is emptied that is in use, or was until now, and its records are sent. -/
private theorem sends (hsteady : c.Steady gone given) (hlogs : c.Logs given silent past ps)
    (href : c.Has ref) (hopen : Unended ps ref) {s s' : RecordStream}
    (hs : (c.stream ref).SameGate s ∧ s.HoldsOf (given ref)) (hordering : s'.ordering = s.ordering)
    (horphaned : s'.orphaned = s.orphaned) (hempty : s'.Holds [])
    {result : EStateM.Result ClientError Client Unit}
    (hsends : Sends s.take.1 (c.setStream ref s') result) : (Step.final result).Steady gone given ∧
      ∃ more, (Step.final result).Logs given silent past (ps ++ more) ∧
        ∀ p ∈ more, p.ends? = none := by
  obtain ⟨hgate, hholds⟩ := hs
  have hset : (c.setStream ref s').Steady gone given :=
    hsteady.setStream href (hordering.trans hgate.ordering) hempty.holdsOf_nil fun hyes =>
      horphaned.trans (hgate.orphaned.trans hyes)
  exact ⟨hset.sends hsends, (hlogs.setStream ref s').sends ((has_setStream ref s' ref).2 href) hopen
    hholds (hgate.ordering.trans (hsteady.ordering ref href)) hsends⟩

private theorem closes (hsteady : c.Steady gone given) (hlogs : c.Logs given silent past ps)
    (href : c.Has ref) (hopen : Unended ps ref) :
    (Step.final (closeStream ref c)).Steady gone given ∧
      ∃ more, (Step.final (closeStream ref c)).Logs given silent past (ps ++ more) ∧
        ∀ p ∈ more, p.ends? = none := by
  obtain ⟨records, hholds, hrecords⟩ := hsteady.held ref href
  obtain ⟨-, hempty, hgate⟩ := RecordStream.take_of_holds hholds
  refine sends hsteady hlogs href hopen ⟨⟨rfl, rfl, rfl⟩, records, hholds, hrecords⟩ ?_ ?_ ?_
    (closeStream_sends hsteady.placed.size_shared href)
  · exact hgate.ordering
  · exact hgate.orphaned
  · exact hempty

theorem freed_endStream {p : Nat} (hplaced : c.Placed) (hp : c.streamOf[thread]? = some p) :
    Freed p (Step.final (endStream thread c)) := by
  have hholdings := holdings_endStream hp
  have hsize : (Step.final (endStream thread c)).own.size = c.own.size :=
    congrArg (·.2.2) hholdings
  have hstreams : (Step.final (endStream thread c)).streamOf = c.streamOf.erase thread :=
    congrArg (·.2.1) hholdings
  rw [Freed, hsize, hstreams]
  exact ⟨hplaced.inRange thread p hp, hplaced.ne_of_erase hp⟩

/-- A stream ends that no thread has any more: its records go out, and then its end is told. -/
private theorem tells_end {p : Nat} (hsteady : c.Steady gone given)
    (hlogs : c.Logs given silent past ps) (hfreed : Freed p c) (hopen : Unended ps (.own p))
    (hloud : ¬ silent p) :
    (Step.final ((do
      closeStream (.own p)
      enqueueMessage (.threadEnd ((← get).stream (.own p)).ordering) :
        EStateM ClientError Client Unit) c)).Intact gone given silent past := by
  have hthere : c.Has (.own p) := hfreed.1
  obtain ⟨hsteady', more, hlogs', hmore⟩ := closes hsteady hlogs hthere hopen
  have hholdings := holdings_closeStream (.own p) c
  cases hresult : closeStream (.own p) c with
  | error e d =>
    rw [hresult] at hsteady' hlogs'
    rw [Step.bind_of_error hresult]
    exact ⟨hsteady', _, hlogs'⟩
  | ok _ d =>
    rw [hresult] at hsteady' hlogs' hholdings
    dsimp only [Step.final] at hsteady' hlogs' hholdings
    have hsize : d.own.size = c.own.size := congrArg (·.2.2) hholdings
    have hstreams : d.streamOf = c.streamOf := congrArg (·.2.1) hholdings
    have href : d.Has (.own p) := by
      change p < d.own.size
      rw [hsize]
      exact hfreed.1
    have hordering : (d.stream (.own p)).ordering = (StreamRef.own p).ordering :=
      hsteady'.ordering _ href
    rw [Step.bind_of_ok hresult, Step.get_bind, hordering]
    have hsound : Parcel.Sound ⟨some (.own p), .threadEnd (StreamRef.own p).ordering⟩ :=
      ⟨p, rfl, rfl⟩
    refine ⟨hsteady'.sends (enqueueMessage_sends _ d), ?_⟩
    have htell := hlogs'.sends_message (.inl hsound) ?_ ?_
    · rcases htell with hposted | ⟨hsame, -⟩
      · exact ⟨_, hposted⟩
      · exact ⟨_, by rwa [hsame]⟩
    · rintro _ ⟨⟩
      refine ⟨href, fun position heq q hq hends => ?_, nofun⟩
      rcases List.mem_append.1 hq with hq | hq
      · exact hopen position heq q hq hends
      · cases (hmore q hq).symm.trans hends
    · rintro _ ⟨⟩
      refine ⟨hloud, fun other => ?_⟩
      rw [hstreams]
      exact hfreed.2 other

namespace Intact

theorem mono (h : c.Intact gone given silent past) (hgone : ∀ p, gone' p → gone p)
    (hgiven : ∀ ref r, given ref r → given' ref r) : c.Intact gone' given' silent past := by
  obtain ⟨hsteady, ps, hlogs⟩ := h
  exact ⟨hsteady.mono hgone hgiven, ps, hlogs.mono hgiven⟩

theorem giving (h : c.Intact gone given silent past)
    (hgiven : ∀ ref r, given ref r → given' ref r) : c.Intact gone given' silent past :=
  h.mono (fun _ => id) hgiven

/-- The streams are the same. Frames may leave the outbox. -/
theorem sent (h : c.Intact gone given silent past) (hc : c.SameStreams c')
    (hfrees : ∃ tokens, c'.frees.Holds tokens) {past' : List Bytes}
    (hframes : past' ++ c'.outbox.waiting.toList = past ++ c.outbox.waiting.toList) :
    c'.Intact gone given silent past' := by
  obtain ⟨hsteady, ps, hlogs⟩ := h
  exact ⟨hsteady.same hc hfrees, ps, hlogs.same hc hframes⟩

/-- Nothing changes of the streams and of the outbox. -/
theorem same (h : c.Intact gone given silent past) (hc : c.SameStreams c')
    (hfrees : ∃ tokens, c'.frees.Holds tokens) (houtbox : c'.outbox = c.outbox) :
    c'.Intact gone given silent past :=
  h.sent hc hfrees (by rw [houtbox])

theorem setStream (h : c.Intact gone given silent past) (href : c.Has ref) {s : RecordStream}
    (hs : (c.stream ref).SameGate s ∧ s.HoldsOf (given ref)) :
    (c.setStream ref s).Intact gone given silent past := by
  obtain ⟨hsteady, ps, hlogs⟩ := h
  exact ⟨hsteady.setStream href hs.1.ordering hs.2 hs.1.orphaned.trans, ps, hlogs.setStream ref s⟩

theorem sealStream (h : c.Intact gone given silent past) (huse : c.InUse ref) :
    (Step.final (sealStream ref c)).Intact gone given silent past := by
  obtain ⟨hsteady, ps, hlogs⟩ := h
  have href := huse.has hsteady.placed
  obtain ⟨records, hholds, hrecords⟩ := hsteady.held ref href
  obtain ⟨-, hempty, hgate⟩ := RecordStream.take_of_holds hholds
  obtain ⟨hsteady', more, hlogs', -⟩ := sends hsteady hlogs href (huse.unended hlogs)
    ⟨⟨rfl, rfl, rfl⟩, records, hholds, hrecords⟩ hgate.ordering hgate.orphaned hempty
    (sealStream_sends ref c)
  exact ⟨hsteady', _, hlogs'⟩

theorem closeStream (h : c.Intact gone given silent past) (huse : c.InUse ref) :
    (Step.final (closeStream ref c)).Intact gone given silent past := by
  obtain ⟨hsteady, ps, hlogs⟩ := h
  obtain ⟨hsteady', more, hlogs', -⟩ :=
    closes hsteady hlogs (huse.has hsteady.placed) (huse.unended hlogs)
  exact ⟨hsteady', _, hlogs'⟩

/-- A record goes to a stream. If the step fails then the stream does not hold the record. -/
theorem appendTo (h : c.Intact gone given silent past) (huse : c.InUse ref)
    {b : RecordBuilder} {r : Record} (hb : b.Holds r) : (Step.final (appendTo ref b c)).Intact gone
      (also given (Step.succeeded (appendTo ref b c) = true) ref r) silent past := by
  have href := huse.has h.1.placed
  have halso (p : Prop) : ∀ ref' r', given ref' r' → also given p ref r ref' r' := fun _ _ => .inl
  have happends := RecordStream.append_of_holdsOf (h.1.held ref href) hb
  rcases appendTo_cases h.1.placed.size_shared href b with
    ⟨e, s, happend, hresult⟩ | ⟨s, happend, hrest⟩
  · rcases happends with ⟨_, hok, -⟩ | ⟨_, s', herror, hs⟩
    · cases happend.symm.trans hok
    · cases happend.symm.trans herror
      rw [hresult]
      exact (h.setStream href hs).giving (halso _)
  · rcases happends with ⟨s', hok, hgate, hholds⟩ | ⟨_, _, herror, -⟩
    swap
    · cases happend.symm.trans herror
    cases happend.symm.trans hok
    have hmore : s.HoldsOf (also given True ref r ref) :=
      hholds.mono fun r' hr' => hr'.imp_right fun heq => ⟨trivial, rfl, heq⟩
    have hthen := h.giving (halso True)
    have htrue {result : EStateM.Result ClientError Client Unit} {d : Client}
        (hd : d.Intact gone (also given True ref r) silent past)
        (hsucceeded : Step.succeeded result = true) :
        d.Intact gone (also given (Step.succeeded result = true) ref r) silent past :=
      hd.giving fun _ _ => Or.imp_right (And.imp_left fun _ => hsucceeded)
    rcases hrest with ⟨-, hresult⟩ | ⟨-, hsends⟩
    · rw [hresult]
      exact htrue (hthen.setStream href ⟨hgate, hmore⟩) rfl
    · -- All records leave, or they are lost and the record with them.
      have ⟨records, hrecords, _⟩ := hmore
      obtain ⟨-, hempty, hgate'⟩ := RecordStream.take_of_holds hrecords
      have hset : (c.setStream ref s.take.2).Intact gone given silent past :=
        h.setStream href ⟨⟨hgate'.ordering.trans hgate.ordering, hgate'.closed.trans hgate.closed,
          hgate'.orphaned.trans hgate.orphaned⟩, hempty.holdsOf_nil⟩
      obtain ⟨hsteady, ps, hlogs⟩ := hthen
      obtain ⟨hsteady', more, hlogs', -⟩ := sends hsteady hlogs href (huse.unended hlogs)
        ⟨hgate, hmore⟩ hgate'.ordering hgate'.orphaned hempty hsends
      generalize Client.appendTo ref b c = result at *
      cases hsends with
      | nothing _ | sent _ _ => exact htrue ⟨hsteady', _, hlogs'⟩ rfl
      | refused _ _ | unwritable _ => exact hset.giving (halso _)

/-- A message that is about no stream. -/
theorem tellMessage (h : c.Intact gone given silent past) {m : Message}
    (hm : Parcel.Sound ⟨none, m⟩ ∨ m = .close) :
    (Step.final (enqueueMessage m c)).Intact gone given silent past := by
  obtain ⟨hsteady, ps, hlogs⟩ := h
  have hnone : Parcel.ends? ⟨none, m⟩ = none := by cases m <;> rfl
  have hlast := hlogs.sends_message (hm.imp_right fun heq => by rw [heq]) nofun
    fun position hposition => by cases hnone.symm.trans hposition
  refine ⟨hsteady.sends (enqueueMessage_sends m c), ?_⟩
  rcases hlast with hposted | ⟨hsame, -⟩
  · exact ⟨_, hposted⟩
  · exact ⟨ps, by rwa [hsame]⟩

/-- The stream of a thread ends: its records go out, and then its end is told. -/
theorem endStream (h : c.Intact gone given silent past) (thread : ThreadId) :
    (Step.final (endStream thread c)).Intact gone given silent past := by
  cases hp : c.streamOf[thread]? with
  | none =>
    rw [endStream_of_none hp]
    exact h
  | some p =>
    obtain ⟨hsteady, ps, hlogs⟩ := h
    rw [endStream_of_some hp]
    refine tells_end (hsteady.detach thread) (hlogs.detach thread) ?_ (hlogs.unended hp) ?_
    · exact ⟨hsteady.placed.inRange thread p hp, hsteady.placed.ne_of_erase hp⟩
    · exact fun hsilent => (hlogs.silence p hsilent).1.2 thread hp

/-- **A stream ends in silence** if its records are too large for a frame. -/
theorem endStream_of_unwritable (h : c.Intact gone given silent past) {p : Nat}
    (hp : c.streamOf[thread]? = some p) {e : WireError}
    (he : (c.stream (.own p)).take.1 = .error e) :
    (Step.final (Client.endStream thread c)).Intact gone given (fun q => silent q ∨ q = p)
      past := by
  obtain ⟨hsteady, ps, hlogs⟩ := h
  have hfreed := freed_endStream hsteady.placed hp
  have hopen := hlogs.unended hp
  have href : Has { c with streamOf := c.streamOf.erase thread } (.own p) :=
    hsteady.placed.inRange thread p hp
  obtain ⟨hsteady', more, hlogs', hmore⟩ :=
    closes (hsteady.detach thread) (hlogs.detach thread) href hopen
  obtain ⟨d, -, hclose, hend⟩ := Client.endStream_of_unwritable hsteady.placed hp he
  rw [hclose] at hsteady' hlogs'
  rw [hend] at hfreed ⊢
  refine ⟨hsteady', _, hlogs'.hush hfreed fun position heq q hq hends => ?_⟩
  rcases List.mem_append.1 hq with hq | hq
  · exact hopen position heq q hq hends
  · cases (hmore q hq).symm.trans hends

end Intact

end Client

end TraceRelay
