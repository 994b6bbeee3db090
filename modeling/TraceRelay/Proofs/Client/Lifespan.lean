import TraceRelay.Proofs.Client.Losses
import TraceRelay.Proofs.Client.Partings

/-!
# The lives of streams

The ordering ids of the streams of threads are different from each other and from those of the
shared streams, as long as there are not too many. Under such an id go the records of one thread
only, and nothing more once the end of the stream was told. The stream of a thread that is gone ends
when all records are sent early, if it did not end before. There is one exception: a stream whose
records are too large for one frame when it should end. The call fails, the stream is gone, and its
end is never told.

## Main definitions

* `Run.Unused` : streams that nobody knows yet.
* `Run.FlushEnds` : what becomes of the stream of a thread that is gone.
* `Run.Lifespans` : what becomes of the streams of threads.

## Main results

* `Run.exists_lifespans` : the streams of every session.
* `Run.end_never_told` : a session in which the end of a stream is never told.
-/

namespace TraceRelay

namespace Run

variable {settings : ClientSettings} {ts earlier : List Turn} {thread : ThreadId} {p : Nat}
  {ms ms' : List Message}

/-! ### Threads that are gone -/

/-- What becomes of the stream of a thread that is gone when all records are sent early. The
messages `ms` went to the outbox before, and `more` go there now. A stream that the thread still has
ends now: what it holds goes out, and directly behind it the end of the stream. Another one was
given up before. If what it held then was not too large for one frame then it went out, and directly
behind it the end of the stream. -/
structure FlushEnds (settings : ClientSettings) (ts : List Turn) (thread : ThreadId) (p : Nat)
    (ms more : List Message) : Prop where
  enqueued : Enqueued settings ts ms
  flushed : Enqueued settings (ts ++ [.call .flush]) (ms ++ more)
  gone : (after settings (ts ++ [.call .flush])).client.streamOf[thread]? ≠ some p
  ends : (after settings ts).client.streamOf[thread]? = some p → ∃ records front back,
    ((after settings ts).client.stream (.own p)).Holds records ∧
      more = front ++ Message.ofRecords (.own p) records ++
        .threadEnd (StreamRef.own p).ordering :: back
  parted : (after settings ts).client.streamOf[thread]? ≠ some p →
    ∃ records, Parted settings ts thread p records
  ended : ∀ records, Parted settings ts thread p records →
    ¬ (StreamRef.own p).Overloaded records → ∃ front back,
      ms = front ++ Message.ofRecords (.own p) records ++
        .threadEnd (StreamRef.own p).ordering :: back

private theorem after_flush {c : Client}
    (hflush : Client.flush (after settings ts).client = .ok ⟨⟩ c) :
    (after settings (ts ++ [.call .flush])).client = c := by
  rw [after_concat]
  change ((after settings ts).perform Client.flush fun _ r => r).client = c
  rw [perform, hflush]

/-- The stream that a thread still has when it is gone. -/
private theorem ends_of_flush {c : Client}
    (hflush : Client.flush (after settings ts).client = .ok ⟨⟩ c)
    (hleft : Left settings ts thread p)
    (hp : (after settings ts).client.streamOf[thread]? = some p) :
    c.streamOf[thread]? ≠ some p ∧ ∃ ms records front back, Enqueued settings ts ms ∧
      ((after settings ts).client.stream (.own p)).Holds records ∧
      Enqueued settings (ts ++ [.call .flush]) (ms ++ (front ++
        Message.ofRecords (.own p) records ++ .threadEnd (StreamRef.own p).ordering :: back)) := by
  obtain ⟨past, -, hintact⟩ := (chronicle settings ts).inOrder
  obtain ⟨hthere, horphaned⟩ := hintact.1.orphaned p ⟨thread, hleft⟩
  obtain ⟨records, hholds, -⟩ := hintact.1.held (.own p) hthere
  have hfate := Client.Fate.flush hintact hp
  rw [hflush] at hfate
  cases hfate with
  | kept _ hfails => cases hfails horphaned
  | refused _ hfails => cases hfails
  | dropped _ _ _ hfails => cases hfails
  | told pending frame front back htake hframe hwaiting hfreed =>
    have hstep : ((after settings ts).step .flush).client = c := by
      rw [← after_flush hflush, after_concat]
      rfl
    have hsender (deliver : Nat → Delivery) : Call.flush ≠ .runSender deliver := nofun
    have hadded : (after settings ts).enqueuedBy (.call .flush) =
        front ++ pending.toList ++ frame :: back := by
      dsimp only [Step.final] at hwaiting
      rw [enqueuedBy_call hsender, hstep, hwaiting, List.drop_left]
    obtain ⟨-, hpending⟩ :=
      RecordStream.forall₂_ofRecords hholds (hintact.1.ordering (.own p) hthere) htake
    obtain ⟨ms, others, rest, hms, hmore⟩ := exists_enqueuedBy hadded hpending hframe
    exact ⟨hfreed.2 thread, ms, records, others, rest, hms, hholds, hmore⟩

/-- **The stream of a thread that is gone** has ended after all records were sent early. -/
theorem exists_flushEnds {c : Client}
    (hflush : Client.flush (after settings ts).client = .ok ⟨⟩ c)
    (hleft : Left settings ts thread p) : ∃ ms more, FlushEnds settings ts thread p ms more := by
  have hhad : Had settings ts thread p := by
    obtain ⟨first, later, rfl, hbefore⟩ := hleft
    exact ⟨first, List.prefix_append _ _, hbefore⟩
  by_cases hp : (after settings ts).client.streamOf[thread]? = some p
  · obtain ⟨hgone, ms, records, front, back, hms, hholds, hmore⟩ := ends_of_flush hflush hleft hp
    exact ⟨ms, _, {
      enqueued := hms
      flushed := hmore
      gone := by rwa [after_flush hflush]
      ends := fun _ => ⟨records, front, back, hholds, rfl⟩
      parted := fun hnot => absurd hp hnot
      ended := fun _ hparted hfits => hparted.told hfits hms }⟩
  · obtain ⟨ps, hms, -⟩ := exists_enqueued settings ts
    obtain ⟨ps', hms', -⟩ := exists_enqueued settings (ts ++ [.call .flush])
    obtain ⟨more, hmore⟩ := hms.prefix_of hms' (List.prefix_append _ _)
    exact ⟨_, more, {
      enqueued := hms
      flushed := hmore ▸ hms'
      gone := by
        rw [after_append]
        exact fun hlater => only_turns (· ≠ thread) hhad.lt
          (fun other hother heq => hp (heq ▸ hother)) _ thread hlater rfl
      ends := fun hyes => absurd hyes hp
      parted := hhad.parted
      ended := fun _ hparted hfits => hparted.told hfits hms }⟩

/-! ### Streams that are new -/

/-- No record was accepted on a stream, and nothing was sent under its ordering id. -/
def Unused (settings : ClientSettings) (ts : List Turn) (ref : StreamRef) : Prop :=
  (∀ thread record, ¬ Emitted settings ts thread ref record) ∧
    ∃ ms, Enqueued settings ts ms ∧ ∀ m ∈ ms, m.ordering? ≠ some ref.ordering

/-- A stream that there was not yet. -/
theorem unused_of_size_le {earlier : List Turn} (hearly : earlier <+: ts)
    (hfew : (after settings ts).client.own.size + Message.sharedOrderings ≤ UInt64.size)
    (hnew : (after settings earlier).client.own.size ≤ p)
    (hp : p < (after settings ts).client.own.size) : Unused settings earlier (.own p) := by
  obtain ⟨ps, hms, hsound, hsource, -⟩ := exists_enqueued settings earlier
  refine ⟨fun thread record hemitted => absurd hemitted.had.lt (Nat.not_lt.2 hnew), _, hms, ?_⟩
  rintro m hm hordering
  obtain ⟨q, hq, rfl⟩ := List.mem_map.1 hm
  obtain ⟨ref, href, hid⟩ := Parcel.source_of_ordering (hsound q hq) hordering
  have hthere := (hsource q hq ref href).1
  have hlater : (after settings ts).client.Has ref := by
    cases ref with
    | shared i => trivial
    | own p' => exact Nat.lt_of_lt_of_le hthere (size_earlier_le hearly)
  have howns : (after settings ts).client.Has (.own p) := hp
  cases Client.ordering_inj hfew howns hlater hid
  exact absurd hthere (Nat.not_lt.2 hnew)

/-- A thread that ended begins again with a stream that is new. -/
theorem unused_of_threadEnd {middle : List Turn} {t : Turn} {record : Record}
    (hearly : earlier ++ .call (.threadEnd thread) :: (middle ++ [t]) <+: ts)
    (hfew : (after settings ts).client.own.size + Message.sharedOrderings ≤ UInt64.size)
    (hopen : (after settings earlier).client.closed = false)
    (hemits : (after settings (earlier ++ .call (.threadEnd thread) :: middle)).Emits t thread
      (.own p) record) :
    Unused settings (earlier ++ [.call (.threadEnd thread)]) (.own p) := by
  have hsplit : earlier ++ .call (.threadEnd thread) :: (middle ++ [t]) =
      earlier ++ [.call (.threadEnd thread)] ++ (middle ++ [t]) := by
    rw [List.append_assoc]
    rfl
  have hended : (after settings (earlier ++ [.call (.threadEnd thread)])).client.streamOf[thread]? =
      none := by
    rw [after_concat]
    exact streamOf_threadEnd hopen thread
  have hp := hemits.streamOf
  rw [List.append_assoc, List.cons_append] at hp
  have hhad : Had settings ts thread p := ⟨_, hearly, hp⟩
  rw [hsplit, after_append] at hp
  refine unused_of_size_le ?_ hfew (fresh_turns hended _ hp) hhad.lt
  rw [hsplit] at hearly
  exact (List.prefix_append _ _).trans hearly

/-! ### Sessions -/

/-- What becomes of the streams of threads in a session. The messages `ms` went to the outbox, and
each stream of a thread is one of its `owner`. -/
structure Lifespans (settings : ClientSettings) (ts : List Turn) (owner : Nat → ThreadId)
    (ms : List Message) : Prop where
  enqueued : Enqueued settings ts ms
  /-- A thread has none but its own streams. -/
  had : ∀ thread p, Had settings ts thread p → thread = owner p
  /-- The records of a stream are those of its owner. -/
  emitted : ∀ thread p record, Emitted settings ts thread (.own p) record → thread = owner p
  /-- Records go out under the ordering id of a shared stream, or under that of the stream of a
  thread, and then all of them are records of its owner. -/
  analyze : ∀ id records, .analyze id records ∈ ms →
    (∃ i : UInt8, id.toNat = i.toNat ∧
      ∀ record ∈ records, ∃ thread, Emitted settings ts thread (.shared i) record) ∨
    ∃ p < (after settings ts).client.own.size, id.toNat = Message.sharedOrderings + p ∧
      ∀ record ∈ records, Emitted settings ts (owner p) (.own p) record
  /-- Only streams of threads end. -/
  threadEnd : ∀ id, .threadEnd id ∈ ms →
    ∃ p < (after settings ts).client.own.size, id.toNat = Message.sharedOrderings + p
  /-- Nothing follows the end of a stream. -/
  final : ∀ front id behind, ms = front ++ .threadEnd id :: behind →
    ∀ m ∈ behind, m.ordering? ≠ some id
  /-- A thread that ended begins again with a stream that is new. -/
  again : ∀ earlier thread middle t p record,
    earlier ++ .call (.threadEnd thread) :: (middle ++ [t]) <+: ts →
    (after settings earlier).client.closed = false →
    (after settings (earlier ++ .call (.threadEnd thread) :: middle)).Emits t thread (.own p)
      record →
    Unused settings (earlier ++ [.call (.threadEnd thread)]) (.own p)
  /-- The streams of threads that are gone end when all records are sent early. -/
  flushed : ∀ earlier thread p c, earlier ++ [.call .flush] <+: ts →
    Client.flush (after settings earlier).client = .ok ⟨⟩ c → Left settings earlier thread p →
    ∃ before more behind, ms = before ++ more ++ behind ∧
      FlushEnds settings earlier thread p before more
  /-- A stream does not end whose records are too large for one frame when it is given up. -/
  silent : ∀ earlier thread p records, earlier <+: ts → Parted settings earlier thread p records →
    (StreamRef.own p).Overloaded records → .threadEnd (StreamRef.own p).ordering ∉ ms

/-- The ordering id of the stream of a thread. -/
private theorem toNat_ordering {c : Client} {p : Nat}
    (hfew : c.own.size + Message.sharedOrderings ≤ UInt64.size) (hp : c.Has (.own p)) :
    (StreamRef.own p).ordering.toNat = Message.sharedOrderings + p := by
  have hlt : p < c.own.size := hp
  exact StreamRef.toNat_ordering_own (by omega)

/-- **The streams of threads** do not share ordering ids, and nothing follows their ends, in any
session in which not too many of them begin. -/
theorem exists_lifespans (settings : ClientSettings) (ts : List Turn)
    (hfew : (after settings ts).client.own.size + Message.sharedOrderings ≤ UInt64.size) :
    ∃ owner ms, Lifespans settings ts owner ms := by
  obtain ⟨owner, howner⟩ := exists_owner settings ts
  obtain ⟨ps, hms, hsound, hsource, hfinal⟩ := exists_enqueued settings ts
  refine ⟨owner, ps.map Parcel.message, {
    enqueued := hms
    had := howner
    emitted := fun thread p record hemitted => howner thread p hemitted.had
    analyze := fun id records hmem => ?_
    threadEnd := fun id hmem => ?_
    final := fun front id behind hsplit m hm hid => ?_
    again := fun earlier thread middle t p record hearly hopen hemits =>
      unused_of_threadEnd hearly hfew hopen hemits
    flushed := fun earlier thread p c hearly hflush hleft => ?_
    silent := ?_ }⟩
  · obtain ⟨q, hq, hmessage⟩ := List.mem_map.1 hmem
    have hsome : q.message.ordering? = some id := by rw [hmessage]; rfl
    obtain ⟨ref, href, rfl⟩ := Parcel.source_of_ordering (hsound q hq) hsome
    obtain ⟨hthere, hrecords⟩ := hsource q hq ref href
    rw [hmessage] at hrecords
    cases ref with
    | shared i => exact .inl ⟨i, StreamRef.toNat_ordering_shared i, hrecords⟩
    | own p =>
      refine .inr ⟨p, hthere, toNat_ordering hfew hthere, fun record hrecord => ?_⟩
      obtain ⟨thread, hemitted⟩ := hrecords record hrecord
      rwa [← howner thread p hemitted.had]
  · obtain ⟨q, hq, hmessage⟩ := List.mem_map.1 hmem
    obtain ⟨p, hends, rfl⟩ := Parcel.ends_of_threadEnd (hsound q hq) hmessage
    have hthere := (hsource q hq _ (Parcel.source_of_ends hends)).1
    exact ⟨p, hthere, toNat_ordering hfew hthere⟩
  · obtain ⟨before, rest, rfl, -, hrest⟩ := List.map_eq_append_iff.1 hsplit
    obtain ⟨q, later, rfl, hmessage, rfl⟩ := List.map_eq_cons_iff.1 hrest
    obtain ⟨q', hq', rfl⟩ := List.mem_map.1 hm
    have hmemq : q ∈ before ++ q :: later := List.mem_append_right _ List.mem_cons_self
    have hmemq' : q' ∈ before ++ q :: later :=
      List.mem_append_right _ (List.mem_cons_of_mem _ hq')
    obtain ⟨p, hends, rfl⟩ := Parcel.ends_of_threadEnd (hsound q hmemq) hmessage
    obtain ⟨ref, href, hordering⟩ := Parcel.source_of_ordering (hsound q' hmemq') hid
    have hthere := (hsource q hmemq _ (Parcel.source_of_ends hends)).1
    cases Client.ordering_inj hfew hthere (hsource q' hmemq' ref href).1 hordering
    have hpair := (List.pairwise_cons.1 (List.pairwise_append.1 hfinal).2.1).1 q' hq'
    exact hpair p hends href
  · obtain ⟨before, more, hends⟩ := exists_flushEnds hflush hleft
    obtain ⟨behind, hbehind⟩ := hends.flushed.prefix_of hms hearly
    exact ⟨before, more, behind, hbehind.symm, hends⟩
  · rintro earlier thread p records ⟨later, rfl⟩ hparted hlarge
    exact hparted.silent hlarge hfew hms

/-! ### A thread that begins again -/

/-- Two threads send a record each. One of them ends and begins again, and the other one is gone. -/
def twoLives : List Turn :=
  [.call (.register "X.m"), .call (.dispatch 1 1 [.int 3]), .call (.dispatch 2 1 []),
    .call (.threadEnd 1), .call (.dispatch 1 1 []), .call (.threadGone 2)]

/-- What goes to the outbox. -/
def twoLivesMessages : List Message :=
  [.registerMethod 1 "X.m", .analyze 256 [⟨1, [.int 3]⟩], .threadEnd 256]

set_option maxRecDepth 100000 in
private theorem twoLives_holds : (after {} twoLives).client.own.size = 3 ∧
    (after {} twoLives).client.streamOf[(1 : ThreadId)]? = some 2 ∧
    (after {} twoLives).client.streamOf[(2 : ThreadId)]? = some 1 ∧
    (after {} (twoLives.take 3)).client.streamOf[(1 : ThreadId)]? = some 0 ∧
    twoLivesMessages.map Message.toBytes = ((after {} []).enqueued twoLives).map Except.ok := by
  decide +kernel

private theorem twoLives_enqueued : Enqueued {} twoLives twoLivesMessages := by
  obtain ⟨-, -, -, -, hframes⟩ := twoLives_holds
  rw [← List.forall₂_eq_eq_eq, List.forall₂_map_left_iff, List.forall₂_map_right_iff] at hframes
  exact hframes

theorem exists_lifespans_beginsAgain :
    (after {} twoLives).client.own.size + Message.sharedOrderings ≤ UInt64.size ∧
      ∃ owner, (owner 0 = 1 ∧ owner 1 = 2 ∧ owner 2 = 1) ∧
        Lifespans {} twoLives owner twoLivesMessages ∧ Unused {} (twoLives.take 4) (.own 2) := by
  obtain ⟨hsize, hagain, hother, hfirst, -⟩ := twoLives_holds
  have hfew : (after {} twoLives).client.own.size + Message.sharedOrderings ≤ UInt64.size := by
    rw [hsize]
    decide
  obtain ⟨owner, ms, h⟩ := exists_lifespans {} twoLives hfew
  rw [h.enqueued.unique twoLives_enqueued] at h
  refine ⟨hfew, owner, ⟨?_, ?_, ?_⟩, h, ?_⟩
  · exact (h.had 1 0 ⟨twoLives.take 3, ⟨_, rfl⟩, hfirst⟩).symm
  · exact (h.had 2 1 ⟨twoLives, List.prefix_rfl, hother⟩).symm
  · exact (h.had 1 2 ⟨twoLives, List.prefix_rfl, hagain⟩).symm
  · exact h.again (twoLives.take 3) 1 [] (.call (.dispatch 1 1 [])) 2 ⟨1, []⟩
      ⟨_, rfl⟩ rfl ⟨_, rfl, rfl, rfl⟩

/-! ### A stream that never ends -/

namespace Filled

variable {n : Nat} {c d : Client}

/-- There is one stream only. -/
private theorem eq_zero (h : Filled settings n c) {other : ThreadId} {p : Nat}
    (hp : c.streamOf[other]? = some p) : other = 0 ∧ p = 0 := by
  have hlt := h.placed.inRange other p hp
  rw [h.single, Nat.lt_one_iff] at hlt
  subst hlt
  exact ⟨h.placed.single other 0 0 hp h.has, rfl⟩

private theorem ownRefs (h : Filled settings n c) : c.ownRefs = [(0, .own 0)] := by
  rw [← List.perm_singleton, List.perm_ext_iff_of_nodup (c.nodup_ownRefs.of_map)
    (List.nodup_singleton _)]
  rintro ⟨other, ref⟩
  rw [Client.mem_ownRefs, List.mem_singleton]
  constructor
  · rintro ⟨p, rfl, hp⟩
    obtain ⟨rfl, rfl⟩ := h.eq_zero hp
    rfl
  · rintro ⟨⟩
    exact ⟨0, rfl, h.has⟩

/-- The thread is gone. -/
private theorem threadGone (h : Filled settings n c) : Filled settings n (c.threadGone 0) ∧
    ((c.threadGone 0).stream (.own 0)).orphaned = true := by
  rw [Client.threadGone_of_some h.has]
  have hstream := Client.stream_setStream_of_has h.placed.size_shared h.has_own
    { c.stream (.own 0) with orphaned := true } (.own 0)
  rw [if_pos rfl] at hstream
  exact ⟨h.setStream rfl h.holds, by rw [hstream]⟩

/-- The stream is given up, but it does not end. -/
private theorem flush_fails (h : Filled settings 65529 c)
    (horphaned : (c.stream (.own 0)).orphaned = true) : ∃ d : Client,
      Client.flush c = .error (.wire .batchTooLarge) d ∧ d.closed = false ∧ d.SharedIdle ∧
      d.ownRefs = [] ∧ d.frees.Holds [] ∧ d.outbox.waiting.toList = [announced] := by
  obtain ⟨d, hd, -, hend⟩ := Client.endStream_of_unwritable h.placed h.has (take_wide h.holds)
  have hvisit : Client.visit 0 (.own 0) c = .error (.wire .batchTooLarge) d := by
    rw [Client.visit_eq, if_pos horphaned, hend]
  have hflush : Client.flush c = .error (.wire .batchTooLarge) d := by
    rw [h.idle.flush, Client.flushThreads, Client.ensureOpen_bind h.opened, Step.get_bind,
      h.ownRefs]
    exact Step.bind_of_error (Step.bind_of_error hvisit)
  have hstreams : d.streamOf = c.streamOf.erase 0 := by rw [hd, Client.streamOf_setStream]
  refine ⟨d, hflush, by rw [hd]; exact h.opened, by rw [hd]; exact h.idle, ?_,
    by rw [hd]; exact h.frees, by rw [hd]; exact h.waiting⟩
  refine List.eq_nil_iff_forall_not_mem.2 fun entry hentry => ?_
  obtain ⟨p, -, hp⟩ := Client.mem_ownRefs.1 hentry
  rw [hstreams, getElem?_erase] at hp
  split at hp
  · cases hp
  · next hother => exact hother (h.eq_zero hp).1

end Filled

/-- With no streams, and no frees that are held back, there is nothing to send. -/
private theorem flush_of_nothing {c : Client} (hopen : c.closed = false) (hidle : c.SharedIdle)
    (hnone : c.ownRefs = []) (hfrees : c.frees.Holds []) :
    ∃ d, Client.flush c = .ok ⟨⟩ d ∧ d.outbox = c.outbox := by
  obtain ⟨-, hseal⟩ := Client.sealFrees_of_holds hfrees
  refine ⟨{ c with frees := c.frees.take.2 }, ?_, rfl⟩
  rw [hidle.flush, Client.flushThreads, Client.ensureOpen_bind hopen, Step.get_bind, hnone]
  exact (Step.bind_of_ok rfl).trans hseal

/-- Settings under which records are held back even if they are too large for a frame. -/
def spacious : ClientSettings := { batchRecords := 70000, batchBytes := 8589934592 }

/-- A thread has as many records held back, and is gone. Then everything is sent early. -/
def goneCrowd (n : Nat) : List Turn := crowd n ++ [.call (.threadGone 0)] ++ [.call .flush]

private theorem left_goneCrowd {n : Nat} (h : Filled settings n (after settings (crowd n)).client) :
    Left settings (goneCrowd n) 0 0 := by
  refine ⟨crowd n, [.call .flush], ?_, h.has⟩
  rw [goneCrowd, List.append_assoc]
  rfl

private theorem after_goneCrowd {n : Nat} {e : ClientError} {d : Client}
    (hfails : Client.flush ((after settings (crowd n)).client.threadGone 0) = .error e d) :
    (after settings (goneCrowd n)).client = d ∧
      (after settings (goneCrowd n)).accepted = (after settings (crowd n)).accepted ∧
      (after settings (goneCrowd n)).faults = (after settings (crowd n)).faults ++ [e] := by
  rw [goneCrowd, after_concat, after_concat, turn, turn, step, step, perform, hfails]
  exact ⟨rfl, rfl, rfl⟩

/-- The sender does not run meanwhile. -/
private theorem enqueued_goneCrowd (settings : ClientSettings) (n : Nat) :
    (after settings []).enqueued (goneCrowd n ++ [.call .flush]) =
      (after settings (goneCrowd n ++ [.call .flush])).client.outbox.waiting.toList := by
  have hgone := enqueued_call_of_waiting (enqueued_crowd settings n)
    fun deliver => (nofun : Call.threadGone 0 ≠ .runSender deliver)
  have hflush (deliver : Nat → Delivery) : Call.flush ≠ .runSender deliver := nofun
  exact enqueued_call_of_waiting (enqueued_call_of_waiting hgone hflush) hflush

/-- **The end of a stream is never told.** All records are accepted, and the thread is gone. To send
everything early fails, as the records are too large together. The next time it succeeds, but still
nothing has gone to the outbox but the name of the method. -/
theorem end_never_told :
    Left spacious (goneCrowd 65529) 0 0 ∧
      (after spacious (goneCrowd 65529)).accepted = List.replicate 65529 (.own 0, wide) ∧
      (after spacious (goneCrowd 65529)).faults = [.wire .batchTooLarge] ∧
      (∃ c, Client.flush (after spacious (goneCrowd 65529)).client = .ok ⟨⟩ c) ∧
      Enqueued spacious (goneCrowd 65529 ++ [.call .flush]) [.registerMethod 1 "X.m"] := by
  have hcrowded : Crowded spacious 65529 (after spacious (crowd 65529)) :=
    crowded (by decide +kernel) (by decide) (by decide)
  have hfilled := hcrowded.filled (by decide)
  obtain ⟨hgone, horphaned⟩ := hfilled.threadGone
  obtain ⟨d, hfails, hopen, hidle, hnone, hfrees, hwaiting⟩ := hgone.flush_fails horphaned
  obtain ⟨c, hflush, houtbox⟩ := flush_of_nothing hopen hidle hnone hfrees
  obtain ⟨hclient, haccepted, hfaults⟩ := after_goneCrowd hfails
  rw [← hclient] at hflush
  have hannounced : (Message.registerMethod 1 "X.m").toBytes = .ok announced := by decide +kernel
  refine ⟨left_goneCrowd hfilled, haccepted.trans hcrowded.accepted, ?_, ⟨c, hflush⟩, ?_⟩
  · rw [hfaults, hcrowded.faults]
    rfl
  · rw [Enqueued, enqueued_goneCrowd, after_flush hflush, houtbox, hwaiting]
    exact .cons hannounced .nil

end Run

end TraceRelay
