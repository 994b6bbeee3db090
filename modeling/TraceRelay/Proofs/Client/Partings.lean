import TraceRelay.Proofs.Client.Exact
import TraceRelay.Proofs.Client.Fate
import TraceRelay.Proofs.Client.Owners
import TraceRelay.Proofs.Codec.Limits

/-!
# How threads part from their streams

A thread gives up its stream when it ends, and when everything is sent early after it is gone. The
records that the stream holds then go to the outbox, and directly behind them the end of the stream.
It is different with records that are too large for one frame. The call fails, and neither the
records nor the end of the stream ever go out.

## Main definitions

* `Message.ordering?` : the ordering id that a message is sent under.
* `Run.Parted` : a thread that gave up its stream.
* `StreamRef.Overloaded` : records that are too large for one frame of a stream.

## Main results

* `Run.Enqueued.unique` : the messages of a session are known from its frames.
* `Run.Parted.told`, `Run.Parted.silent` : what goes out for a stream that a thread gave up.
-/

namespace TraceRelay

/-- The ordering id that a message is sent under. -/
def Message.ordering? : Message → Option UInt64
  | .analyze ordering _ => some ordering
  | .threadEnd ordering => some ordering
  | _ => none

/-- The message with the records of a stream, if there are any. -/
def Message.ofRecords (ref : StreamRef) (records : List Record) : List Message :=
  if records = [] then [] else [.analyze ref.ordering records]

namespace Parcel

variable {p : Parcel}

/-- A message that goes out under an ordering id is about the stream that has it. -/
theorem source_of_ordering (h : p.Sound ∨ p = ⟨none, .close⟩) {id : UInt64}
    (hid : p.message.ordering? = some id) : ∃ ref, p.source = some ref ∧ id = ref.ordering := by
  obtain ⟨source, m⟩ := p
  rcases h with hsound | hclose
  · cases m with
    | analyze ordering records =>
      obtain ⟨-, ref, hsource, hordering⟩ := hsound
      exact ⟨ref, hsource, (Option.some.inj hid).symm.trans hordering⟩
    | threadEnd ordering =>
      obtain ⟨position, hsource, hordering⟩ := hsound
      exact ⟨_, hsource, (Option.some.inj hid).symm.trans hordering⟩
    | _ => cases hid
  · cases hclose
    cases hid

/-- The stream of a thread whose end is told. -/
theorem ends_of_threadEnd (h : p.Sound ∨ p = ⟨none, .close⟩) {id : UInt64}
    (hid : p.message = .threadEnd id) :
    ∃ position, p.ends? = some position ∧ id = (StreamRef.own position).ordering := by
  obtain ⟨source, m⟩ := p
  cases hid
  rcases h with ⟨position, hsource, hordering⟩ | hclose
  · cases hsource
    exact ⟨position, rfl, hordering⟩
  · cases hclose

end Parcel

/-- Records are too large for one frame of a stream. -/
def StreamRef.Overloaded (ref : StreamRef) (records : List Record) : Prop :=
  (Message.analyze ref.ordering records).toBytes = .error .batchTooLarge

namespace RecordStream

variable {s : RecordStream} {records : List Record} {ref : StreamRef}

/-- Nothing is not too large. -/
private theorem not_overloaded_nil (ref : StreamRef) : ¬ ref.Overloaded [] := by
  have hsmall : ¬ (Message.analyze ref.ordering []).TooLarge := by
    rw [Message.not_tooLarge_iff]
    exact ⟨⟨nofun, nofun, Nat.zero_le _⟩, (by decide : 12 ≤ maxUInt32)⟩
  obtain ⟨frame, hframe⟩ := (Message.takes_write _).succeeds.2 hsmall
  rw [StreamRef.Overloaded, Message.toBytes_eq, hframe]
  exact nofun

/-- The frame of the records that a stream holds cannot be made. -/
theorem overloaded_of_take (hholds : s.Holds records) (hordering : s.ordering = ref.ordering)
    {e : WireError} (htake : s.take.1 = .error e) : ref.Overloaded records := by
  rw [(take_of_holds hholds).1, hordering] at htake
  split at htake
  · cases htake
  · next hsome =>
    cases hbytes : (Message.analyze ref.ordering records).toBytes with
    | ok frame =>
      rw [hbytes] at htake
      cases htake
    | error e' =>
      rw [StreamRef.Overloaded, hbytes]
      rw [← hordering] at hbytes
      rw [eq_batchTooLarge_of_toBytes hholds hsome hbytes]

/-- The frame of the records that a stream holds. -/
theorem forall₂_ofRecords (hholds : s.Holds records) (hordering : s.ordering = ref.ordering)
    {pending : Option Bytes} (htake : s.take.1 = .ok pending) : ¬ ref.Overloaded records ∧
      List.Forall₂ (fun (m : Message) frame => m.toBytes = .ok frame)
        (Message.ofRecords ref records) pending.toList := by
  rw [(take_of_holds hholds).1, hordering] at htake
  unfold Message.ofRecords
  split at htake
  · next hnone =>
    cases htake
    rw [if_pos hnone, hnone]
    exact ⟨not_overloaded_nil ref, .nil⟩
  · next hsome =>
    rw [if_neg hsome, StreamRef.Overloaded]
    cases hbytes : (Message.analyze ref.ordering records).toBytes with
    | error e =>
      rw [hbytes] at htake
      cases htake
    | ok frame =>
      rw [hbytes] at htake
      cases htake
      exact ⟨nofun, .cons hbytes .nil⟩

end RecordStream

/-- The streams of a client have different ordering ids as long as these do not run out. -/
theorem Client.ordering_inj {c : Client}
    (hfew : c.own.size + Message.sharedOrderings ≤ UInt64.size) {ref ref' : StreamRef}
    (href : c.Has ref) (href' : c.Has ref') (h : ref.ordering = ref'.ordering) : ref = ref' :=
  StreamRef.ordering_inj (l := { opened := c.own.size }) hfew (by cases ref <;> exact href)
    (by cases ref' <;> exact href') h

private theorem exists_of_forall₂_append {α β : Type} {R : α → β → Prop} {as : List α}
    {bs cs : List β} (h : List.Forall₂ R as (bs ++ cs)) :
    ∃ front behind, as = front ++ behind ∧ List.Forall₂ R front bs ∧ List.Forall₂ R behind cs :=
  ⟨_, _, (List.take_append_drop bs.length as).symm, List.forall₂_take_append as bs cs h,
    List.forall₂_drop_append as bs cs h⟩

namespace Run

variable {settings : ClientSettings} {ts earlier : List Turn} {thread : ThreadId} {p : Nat}
  {ms ms' : List Message}

/-! ### Messages -/

private theorem leftUnique_toBytes :
    Relator.LeftUnique fun (m : Message) frame => m.toBytes = .ok frame :=
  fun _ _ _ => Message.eq_of_toBytes

/-- What is known of the messages of a session. -/
theorem exists_enqueued (settings : ClientSettings) (ts : List Turn) :
    ∃ ps : List Parcel, Enqueued settings ts (ps.map Parcel.message) ∧
      (∀ p ∈ ps, p.Sound ∨ p = ⟨none, .close⟩) ∧
      (∀ p ∈ ps, ∀ ref, p.source = some ref → (after settings ts).client.Has ref ∧
        ∀ record ∈ p.message.records, ∃ thread, Emitted settings ts thread ref record) ∧
      ps.Pairwise fun p p' => ∀ position, p.ends? = some position →
        p'.source ≠ some (.own position) := by
  obtain ⟨past, henqueued, -, ps, hlogs⟩ := (chronicle settings ts).inOrder
  refine ⟨ps, ?_, hlogs.sound, fun p hp ref href =>
    ⟨hlogs.has p hp ref href, hlogs.records p hp ref href⟩, hlogs.final⟩
  rw [Enqueued, henqueued]
  exact List.forall₂_map_left_iff.2 hlogs.frames

/-- **The messages of a session** are known from its frames. -/
theorem Enqueued.unique (h : Enqueued settings ts ms) (h' : Enqueued settings ts ms') :
    ms = ms' :=
  List.left_unique_forall₂' leftUnique_toBytes h h'

/-- What went to the outbox stays in front. -/
theorem Enqueued.prefix_of (h : Enqueued settings earlier ms) (h' : Enqueued settings ts ms')
    (hearly : earlier <+: ts) : ms <+: ms' := by
  obtain ⟨later, rfl⟩ := hearly
  rw [Enqueued, enqueued_append] at h'
  obtain ⟨front, behind, rfl, hfront, -⟩ := exists_of_forall₂_append h'
  exact ⟨behind, by rw [Enqueued.unique h hfront]⟩

/-! ### One turn -/

private theorem ne_runSender {call : Call} (hcall : call.endsStreams = true)
    (deliver : Nat → Delivery) : call ≠ .runSender deliver := by
  rintro rfl
  cases hcall

/-- How a stream of a thread that held records ended in a turn: they went out, and directly behind
them the end of the stream, or they were too large for one frame, and the stream is silent from then
on. -/
inductive EndsIn (settings : ClientSettings) (ts : List Turn) (t : Turn) (p : Nat)
    (records : List Record) : Prop
  | told (ms front back : List Message) (hfits : ¬ (StreamRef.own p).Overloaded records)
    (hbefore : Enqueued settings ts ms)
    (hafter : Enqueued settings (ts ++ [t]) (ms ++ (front ++ Message.ofRecords (.own p) records ++
      .threadEnd (StreamRef.own p).ordering :: back)))
  | silent (hlarge : (StreamRef.own p).Overloaded records)
    (hsilent : InOrder settings (ts ++ [t]) fun q => False ∨ q = p)

/-- What went to the outbox in a turn are messages. -/
theorem exists_enqueuedBy {t : Turn} {front pending back : List Bytes} {frame : Bytes}
    {m : Message} (hadded : (after settings ts).enqueuedBy t = front ++ pending ++ frame :: back)
    (hpending : List.Forall₂ (fun (m : Message) frame => m.toBytes = .ok frame) ms' pending)
    (hframe : m.toBytes = .ok frame) : ∃ ms others rest, Enqueued settings ts ms ∧
      Enqueued settings (ts ++ [t]) (ms ++ (others ++ ms' ++ m :: rest)) := by
  obtain ⟨ps, hmessages, -⟩ := exists_enqueued settings (ts ++ [t])
  have hall := hmessages
  rw [Enqueued, enqueued_concat, hadded] at hall
  obtain ⟨ms, more, hsplit, hms, hmore⟩ := exists_of_forall₂_append hall
  obtain ⟨first, last, rfl, hfirst, hlast⟩ := exists_of_forall₂_append hmore
  obtain ⟨others, mine, rfl, -, hmine⟩ := exists_of_forall₂_append hfirst
  cases hlast with
  | @cons told _ rest _ htold hrest =>
    rw [List.left_unique_forall₂' leftUnique_toBytes hmine hpending,
      Message.eq_of_toBytes htold hframe] at hsplit
    exact ⟨ms, others, rest, hms, hsplit ▸ hmessages⟩

/-- What becomes of a stream in a call that ends it. -/
theorem EndsIn.of_fate {call : Call} (hcall : call.endsStreams = true) {past : List Bytes}
    {sure : Prop} {records : List Record} {result : EStateM.Result ClientError Client Unit}
    (hstep : ((after settings ts).step call).client = Step.final result)
    (henqueued : (after settings []).enqueued ts =
      past ++ (after settings ts).client.outbox.waiting.toList)
    (hordering : ((after settings ts).client.stream (.own p)).ordering =
      (StreamRef.own p).ordering)
    (hholds : ((after settings ts).client.stream (.own p)).Holds records)
    (hfate : (after settings ts).client.Fate (fun p => ∃ thread, Left settings ts thread p)
      (fun ref record => ∃ thread, Emitted settings ts thread ref record) (fun _ => False) past
      sure thread p result)
    (hkept : (Step.final result).streamOf[thread]? = some p →
      ¬ (sure → Step.succeeded result = false))
    (hrefused : (Step.final result).outbox.accepting = false → Step.succeeded result = true) :
    EndsIn settings ts (.call call) p records := by
  cases hfate with
  | kept hp hfails => exact absurd hfails (hkept hp)
  | refused hno hfails => cases hfails.symm.trans (hrefused hno)
  | told pending frame front back htake hframe hwaiting =>
    have hadded : (after settings ts).enqueuedBy (.call call) =
        front ++ pending.toList ++ frame :: back := by
      rw [enqueuedBy_call (ne_runSender hcall), hstep, hwaiting, List.drop_left]
    obtain ⟨hfits, hpending⟩ := RecordStream.forall₂_ofRecords hholds hordering htake
    obtain ⟨ms, others, rest, hbefore, hafter⟩ := exists_enqueuedBy hadded hpending hframe
    exact .told ms others rest hfits hbefore hafter
  | dropped e d htake hfails hintact =>
    refine .silent (RecordStream.overloaded_of_take hholds hordering htake) ?_
    refine inOrder_of_silent hcall henqueued ?_
    rw [hstep, hfails]
    exact hintact

/-- Only a call that ends streams, and that is made while the session is open, takes a stream from
its thread. -/
private theorem call_of_given_up {t : Turn}
    (hp : (after settings ts).client.streamOf[thread]? = some p)
    (hnot : (after settings (ts ++ [t])).client.streamOf[thread]? ≠ some p) :
    ∃ call, t = .call call ∧ (after settings ts).client.closed = false ∧
      call.endsStreams = true := by
  have hplaced := placed_after settings ts
  rw [after_concat] at hnot
  cases t with
  | shutdown deliver =>
    rcases heq : (after settings ts).client.shutdown deliver with ⟨answer, out, c⟩
    refine absurd ?_ hnot
    change ((after settings ts).shutdown deliver).client.streamOf[thread]? = some p
    rw [(shutdown_eq heq).1]
    exact (Client.Onward.shutdown hplaced heq).streamOf thread p hp
  | call call =>
    have hstays : ¬ ((after settings ts).client.closed = true ∨ call.endsStreams = false) :=
      fun hstays => hnot ((onward_step hplaced call hstays).streamOf thread p hp)
    rw [not_or, Bool.not_eq_true, Bool.not_eq_false] at hstays
    exact ⟨call, rfl, hstays⟩

/-- **A thread gives up its stream** in a turn. -/
private theorem endsIn_of_given_up {t : Turn} {records : List Record}
    (hp : (after settings ts).client.streamOf[thread]? = some p)
    (hnot : (after settings (ts ++ [t])).client.streamOf[thread]? ≠ some p)
    (hholds : ((after settings ts).client.stream (.own p)).Holds records) :
    EndsIn settings ts t p records := by
  obtain ⟨past, henqueued, hintact⟩ := (chronicle settings ts).inOrder
  have hordering := hintact.1.ordering (.own p) (hintact.1.placed.inRange thread p hp)
  obtain ⟨call, rfl, hopen, hcall⟩ := call_of_given_up hp hnot
  have hafter : after settings (ts ++ [.call call]) = (after settings ts).step call :=
    after_concat ..
  have haccepting : ((after settings ts).step call).client.outbox.accepting = true := by
    have hgate := congrArg (·.2.1) (gate_step (after settings ts) call (ne_runSender hcall))
    rw [← hafter] at hgate ⊢
    exact accepting_after (hgate.trans hopen)
  rw [hafter] at hnot
  have hends {sure : Prop} {m : EStateM ClientError Client Unit}
      (hstep : ((after settings ts).step call).client =
        Step.final (m (after settings ts).client))
      (hfate : (after settings ts).client.Fate _ _ _ past sure thread p
        (m (after settings ts).client)) : EndsIn settings ts (.call call) p records :=
    .of_fate hcall hstep henqueued hordering hholds hfate
      (fun hhas => absurd (hstep ▸ hhas) hnot)
      fun hno => by cases (hstep ▸ haccepting).symm.trans hno
  cases call with
  | flush => exact hends (client_perform fun _ _ => rfl) (.flush hintact hp)
  | objectFreed t => exact hends (client_perform fun _ _ => rfl) (.objectFreed hintact hp t)
  | threadEnd other =>
    have hstep : ((after settings ts).step (.threadEnd other)).client =
        Step.final (Client.threadEnd other (after settings ts).client) :=
      client_perform fun _ _ => rfl
    by_cases hother : thread = other
    · subst hother
      exact hends hstep (.threadEnd hintact hp)
    · refine absurd ?_ hnot
      rw [hstep, Client.threadEnd, Client.ensureOpen_bind hopen,
        Client.streamOf_endStream other _ hother]
      exact hp
  | _ => cases hcall

/-! ### Sessions -/

/-- A thread gave up a stream, which held the records then. -/
def Parted (settings : ClientSettings) (ts : List Turn) (thread : ThreadId) (p : Nat)
    (records : List Record) : Prop :=
  ∃ earlier t later, ts = earlier ++ t :: later ∧
    (after settings earlier).client.streamOf[thread]? = some p ∧
    (after settings (earlier ++ [t])).client.streamOf[thread]? ≠ some p ∧
    ((after settings earlier).client.stream (.own p)).Holds records

/-- A thread that had a stream has it still, or gave it up. -/
theorem Had.parted (hhad : Had settings ts thread p)
    (hnot : (after settings ts).client.streamOf[thread]? ≠ some p) :
    ∃ records, Parted settings ts thread p records := by
  obtain ⟨first, ⟨later, rfl⟩, hp⟩ := hhad
  rw [after_append] at hnot
  obtain ⟨middle, t, last, rfl, hbefore, hends⟩ :=
    exists_turn (P := fun r => r.client.streamOf[thread]? = some p) hp hnot
  rw [← after_append] at hbefore
  rw [← after_append, ← after_concat] at hends
  obtain ⟨past, -, hsteady, -⟩ := (chronicle settings (first ++ middle)).inOrder
  obtain ⟨records, hholds, -⟩ := hsteady.held (.own p) (hsteady.placed.inRange thread p hbefore)
  exact ⟨records, first ++ middle, t, last, (List.append_assoc ..).symm, hbefore, hends, hholds⟩

/-- A stream that is silent stays so. -/
private theorem InOrder.append {silent : Nat → Prop} (h : InOrder settings ts silent)
    (later : List Turn) : InOrder settings (ts ++ later) silent := by
  induction later using List.reverseRecOn with
  | nil => rwa [List.append_nil]
  | append_singleton later t ih =>
    rw [← List.append_assoc]
    exact ih.concat (chronicle settings _).drafts t

/-- The end of a stream that is silent is not told. -/
private theorem InOrder.not_told {silent : Nat → Prop} (h : InOrder settings ts silent)
    (hp : silent p)
    (hfew : (after settings ts).client.own.size + Message.sharedOrderings ≤ UInt64.size)
    (hms : Enqueued settings ts ms) : .threadEnd (StreamRef.own p).ordering ∉ ms := by
  obtain ⟨past, henqueued, -, ps, hlogs⟩ := h
  have hmessages : Enqueued settings ts (ps.map Parcel.message) := by
    rw [Enqueued, henqueued]
    exact List.forall₂_map_left_iff.2 hlogs.frames
  obtain ⟨hfreed, hunended⟩ := hlogs.silence p hp
  rw [hms.unique hmessages]
  intro hmem
  obtain ⟨q, hq, hmessage⟩ := List.mem_map.1 hmem
  obtain ⟨position, hends, hordering⟩ := Parcel.ends_of_threadEnd (hlogs.sound q hq) hmessage
  have hthere := hlogs.has q hq _ (Parcel.source_of_ends hends)
  have hthis : (after settings ts).client.Has (.own p) := hfreed.1
  cases Client.ordering_inj hfew hthis hthere hordering
  exact hunended q hq hends

namespace Parted

variable {records : List Record}

private theorem endsIn (h : Parted settings ts thread p records) :
    ∃ earlier t later, ts = earlier ++ [t] ++ later ∧ EndsIn settings earlier t p records := by
  obtain ⟨earlier, t, later, rfl, hp, hnot, hholds⟩ := h
  exact ⟨earlier, t, later, by simp, endsIn_of_given_up hp hnot hholds⟩

/-- **The end of a stream is told** when a thread gives it up, directly behind what it held, unless
that was too large for one frame. -/
theorem told (h : Parted settings ts thread p records)
    (hfits : ¬ (StreamRef.own p).Overloaded records) (hms : Enqueued settings ts ms) :
    ∃ front back, ms = front ++ Message.ofRecords (.own p) records ++
      .threadEnd (StreamRef.own p).ordering :: back := by
  obtain ⟨earlier, t, later, rfl, hends⟩ := h.endsIn
  cases hends with
  | silent hlarge => exact absurd hlarge hfits
  | told before front back _ _ hafter =>
    obtain ⟨behind, rfl⟩ := hafter.prefix_of hms (List.prefix_append _ _)
    exact ⟨before ++ front, back ++ behind, by simp only [List.append_assoc, List.cons_append]⟩

/-- **The end of a stream is never told** that held records that were too large for one frame when
its thread gave it up. -/
theorem silent (h : Parted settings ts thread p records)
    (hlarge : (StreamRef.own p).Overloaded records) {later : List Turn}
    (hfew : (after settings (ts ++ later)).client.own.size + Message.sharedOrderings ≤ UInt64.size)
    (hms : Enqueued settings (ts ++ later) ms) : .threadEnd (StreamRef.own p).ordering ∉ ms := by
  obtain ⟨earlier, t, meanwhile, rfl, hends⟩ := h.endsIn
  cases hends with
  | told _ _ _ hfits => exact absurd hlarge hfits
  | silent _ hsilent =>
    exact ((hsilent.append meanwhile).append later).not_told (.inr rfl) hfew hms

end Parted

end Run

end TraceRelay
