import TraceRelay.Proofs.Client.Ended

/-!
# Where the records are

A record that was accepted is held back by its stream, or it went to the outbox in a frame. It is
lost if its frame is too large to be made or is not accepted any more. Beside a client it is written
down where each record is, and what each step of the client does to that is said once: records of a
stream leave together, and one more record comes to the end of its stream.

## Main definitions

* `Receipt`, `Shipment`, `Custody` : what is written down.
* `Client.Attests`, `Client.Assigns` : it agrees with a client.
* `Custody.Ships`, `Custody.Takes`, `Custody.Finishes` : all that a step can do to the records of a
  stream, to a new record, and when a record is finished.

## Main results

* `Client.Attests.ships`, `Client.Attests.takes`, `Client.Attests.finishes` : there is nothing else
  that these steps do.
-/

namespace TraceRelay

/-- The records of a message, each with the ordering id under which it comes. -/
def Message.stamped : Message → List (UInt64 × Record)
  | .analyze ordering records => records.map (ordering, ·)
  | _ => []

/-- A record that was accepted. -/
structure Receipt where
  ref : StreamRef
  record : Record
  thread : ThreadId
  /-- How many turns there were before. -/
  turn : Nat

/-- A record with its ordering id. -/
def Receipt.stamp (e : Receipt) : UInt64 × Record := (e.ref.ordering, e.record)

/-- A message that went to the outbox, and the receipts of its records. -/
structure Shipment where
  message : Message
  receipts : List Receipt

/-- Where the records are that were accepted. -/
structure Custody where
  /-- The records that each stream holds back. -/
  held : StreamRef → List Receipt := fun _ => []
  /-- What went to the outbox, first to last. -/
  shipped : List Shipment := []
  /-- The records that will never be sent. -/
  lost : List Receipt := []

namespace Custody

/-- The records that went to the outbox, first to last. -/
def log (k : Custody) : List Receipt := k.shipped.flatMap (·.receipts)

/-- The message of all records that a stream holds back. -/
def message (k : Custody) (ref : StreamRef) : Message :=
  .analyze ref.ordering ((k.held ref).map (·.record))

/-- What the streams hold back if one of them holds other records. -/
def replaced (k : Custody) (ref : StreamRef) (es : List Receipt) : StreamRef → List Receipt :=
  fun other => if other = ref then es else k.held other

/-- The records of a stream go to the outbox. -/
def ship (k : Custody) (ref : StreamRef) : Custody where
  held := k.replaced ref []
  shipped := k.shipped ++ [⟨k.message ref, k.held ref⟩]
  lost := k.lost

/-- The records of a stream are lost. -/
def lose (k : Custody) (ref : StreamRef) : Custody where
  held := k.replaced ref []
  shipped := k.shipped
  lost := k.lost ++ k.held ref

/-- A message without records goes to the outbox. -/
def tell (k : Custody) (m : Message) : Custody := { k with shipped := k.shipped ++ [⟨m, []⟩] }

/-- A record comes to its stream. -/
def take (k : Custody) (e : Receipt) : Custody :=
  { k with held := k.replaced e.ref (k.held e.ref ++ [e]) }

/-- A record on a shared stream may come: all records on streams of its thread have left. -/
def Ready (k : Custody) (e : Receipt) : Prop :=
  ∀ i, e.ref = .shared i → ∀ p, ∀ e' ∈ k.held (.own p), e'.thread ≠ e.thread

/-- The result of a step that gives nothing. -/
abbrev Result := EStateM.Result ClientError Client Unit

/-- All that can become of the records of a stream that are to leave. The outbox accepts frames, or
it does not. -/
inductive Ships (k : Custody) (ref : StreamRef) (accepting : Bool) : Result → Custody → Prop where
  | nothing {c : Client} (hnone : k.held ref = []) : Ships k ref accepting (.ok ⟨⟩ c) k
  | sent {c : Client} (hsome : k.held ref ≠ []) : Ships k ref accepting (.ok ⟨⟩ c) (k.ship ref)
  | refused {c : Client} (hno : accepting = false) :
    Ships k ref accepting (.error .sessionClosed c) (k.lose ref)
  | unwritable {c : Client} (hlarge : (k.message ref).toBytes = .error .batchTooLarge) :
    Ships k ref accepting (.error (.wire .batchTooLarge) c) (k.lose ref)

/-- All that can become of a record that comes to its stream. If the records that then leave are
lost, the record was not accepted. -/
inductive Takes (k : Custody) (e : Receipt) (accepting : Bool) : Result → Custody → Prop where
  | refused {cause : ClientError} {c : Client} : Takes k e accepting (.error cause c) k
  | kept {c : Client} : Takes k e accepting (.ok ⟨⟩ c) (k.take e)
  | sent {c : Client} : Takes k e accepting (.ok ⟨⟩ c) ((k.take e).ship e.ref)
  | closed {c : Client} (hno : accepting = false) :
    Takes k e accepting (.error .sessionClosed c) (k.lose e.ref)
  | unwritable {c : Client} (hlarge : ((k.take e).message e.ref).toBytes = .error .batchTooLarge) :
    Takes k e accepting (.error (.wire .batchTooLarge) c) (k.lose e.ref)

/-- All that can become of a record that is finished. If it goes to a shared stream, the records on
the stream of its thread leave first. -/
inductive Finishes (k : Custody) (e : Receipt) (accepting : Bool) : Result → Custody → Prop where
  | refused {cause : ClientError} {c : Client} : Finishes k e accepting (.error cause c) k
  | taken {result : Result} {k' : Custody} (hready : k.Ready e)
    (htakes : k.Takes e accepting result k') : Finishes k e accepting result k'
  | blocked {p : Nat} {cause : ClientError} {c : Client} {k' : Custody}
    (hships : k.Ships (.own p) accepting (.error cause c) k') :
    Finishes k e accepting (.error cause c) k'
  | passed {p : Nat} {c : Client} {k₁ : Custody} {result : Result} {k' : Custody}
    (hships : k.Ships (.own p) accepting (.ok ⟨⟩ c) k₁) (hready : k₁.Ready e)
    (htakes : k₁.Takes e accepting result k') : Finishes k e accepting result k'

variable {k k' : Custody} {ref other : StreamRef} {e e' : Receipt} {accepting : Bool}
  {result : Result}

theorem Ready.of_own {p : Nat} (h : e.ref = .own p) : k.Ready e := by
  intro i hi
  cases h.symm.trans hi

theorem replaced_self (k : Custody) (ref : StreamRef) : k.replaced ref (k.held ref) = k.held := by
  funext other
  rw [replaced]
  split
  · next heq => rw [heq]
  · rfl

theorem mem_replaced_nil : e ∈ k.replaced ref [] other ↔ other ≠ ref ∧ e ∈ k.held other := by
  rw [replaced]
  split
  · next heq => simp [heq]
  · next hne => simp [hne]

theorem mem_take : e' ∈ (k.take e).held ref ↔ e' ∈ k.held ref ∨ ref = e.ref ∧ e' = e := by
  dsimp only [take, replaced]
  split
  · next heq =>
    rw [heq, List.mem_append, List.mem_singleton]
    simp
  · next hne => simp [hne]

/-- The stream is empty afterwards, and the others are as they were. -/
theorem Ships.held (h : k.Ships ref accepting result k') : k'.held = k.replaced ref [] := by
  cases h with
  | nothing hnone => rw [← hnone, replaced_self]
  | sent | refused | unwritable => rfl

theorem Ships.mem_held (h : k.Ships ref accepting result k') :
    e ∈ k'.held other ↔ other ≠ ref ∧ e ∈ k.held other := by
  rw [h.held, mem_replaced_nil]

theorem Takes.held_subset (h : k.Takes e accepting result k') (he' : e' ∈ k'.held other) :
    e' ∈ (k.take e).held other := by
  cases h with
  | refused => exact mem_take.2 (.inl he')
  | kept => exact he'
  | sent => exact (mem_replaced_nil.1 he').2
  | closed | unwritable => exact mem_take.2 (.inl (mem_replaced_nil.1 he').2)

end Custody

namespace Client

variable {c c' : Client} {past : List Bytes} {k k' : Custody} {ref : StreamRef} {thread : ThreadId}

/-- What is written down of the records agrees with a client. The frames `past` are no longer in its
outbox. -/
structure Attests (past : List Bytes) (k : Custody) (c : Client) : Prop where
  placed : c.Placed
  ordering : ∀ ref, c.Has ref → (c.stream ref).ordering = ref.ordering
  held : ∀ ref, c.Has ref → (c.stream ref).Holds ((k.held ref).map (·.record))
  tagged : ∀ ref, ∀ e ∈ k.held ref, e.ref = ref
  frames : List.Forall₂ (fun (s : Shipment) frame => s.message.toBytes = .ok frame) k.shipped
    (past ++ c.outbox.waiting.toList)
  stamped : ∀ s ∈ k.shipped, s.message.stamped = s.receipts.map (·.stamp)
  frees : ∃ tokens, c.frees.Holds tokens

/-- The records on the streams of threads are those of the threads that have the streams. -/
def Assigns (k : Custody) (c : Client) : Prop :=
  ∀ p, ∀ e ∈ k.held (.own p), c.streamOf[e.thread]? = some p

theorem Assigns.mono (h : c.Assigns k) (hheld : ∀ ref, ∀ e ∈ k'.held ref, e ∈ k.held ref)
    (hstreams : c'.streamOf = c.streamOf) : c'.Assigns k' := by
  intro p e he
  rw [hstreams]
  exact h p e (hheld _ e he)

namespace Attests

/-- What will not be sent is not seen of a client. -/
theorem congr (h : c.Attests past k) (hheld : k'.held = k.held)
    (hshipped : k'.shipped = k.shipped) : c.Attests past k' where
  placed := h.placed
  ordering := h.ordering
  held := by
    rw [hheld]
    exact h.held
  tagged := by
    rw [hheld]
    exact h.tagged
  frames := by
    rw [hshipped]
    exact h.frames
  stamped := by
    rw [hshipped]
    exact h.stamped
  frees := h.frees

/-- One stream holds other records. -/
theorem setStream (h : c.Attests past k) (href : c.Has ref) {s : RecordStream}
    (hordering : s.ordering = (c.stream ref).ordering) {es : List Receipt}
    (hholds : s.Holds (es.map (·.record))) (htagged : ∀ e ∈ es, e.ref = ref) :
    (c.setStream ref s).Attests past { k with held := k.replaced ref es } where
  placed := h.placed.setStream ref s
  ordering := forall_setStream (P := fun other t => t.ordering = other.ordering)
    h.placed.size_shared href h.ordering (hordering.trans (h.ordering ref href))
  held other hother := by
    rw [stream_setStream_of_has h.placed.size_shared href]
    dsimp only [Custody.replaced]
    split
    · exact hholds
    · exact h.held other ((has_setStream ref s other).1 hother)
  tagged other e he := by
    dsimp only [Custody.replaced] at he
    split at he
    · next heq => rw [htagged e he, heq]
    · exact h.tagged other e he
  frames := by cases ref <;> exact h.frames
  stamped := h.stamped
  frees := by cases ref <;> exact h.frees

/-- Nothing changes of what a stream holds back. -/
theorem setStream_same (h : c.Attests past k) (href : c.Has ref) {s : RecordStream}
    (hordering : s.ordering = (c.stream ref).ordering)
    (hholds : s.Holds ((k.held ref).map (·.record))) : (c.setStream ref s).Attests past k :=
  (h.setStream href hordering hholds (h.tagged ref)).congr (k.replaced_self ref).symm rfl

/-- The streams are the same. Frames may leave the outbox. -/
theorem same (h : c.Attests past k) (hc : c.SameStreams c')
    (hfrees : ∃ tokens, c'.frees.Holds tokens) {past' : List Bytes}
    (hframes : past' ++ c'.outbox.waiting.toList = past ++ c.outbox.waiting.toList) :
    c'.Attests past' k where
  placed := hc.placed h.placed
  ordering ref href := by
    rw [hc.stream]
    exact h.ordering ref ((hc.has ref).1 href)
  held ref href := by
    rw [hc.stream]
    exact h.held ref ((hc.has ref).1 href)
  tagged := h.tagged
  frames := by
    rw [hframes]
    exact h.frames
  stamped := h.stamped
  frees := hfrees

/-- One more frame. -/
theorem post (h : c.Attests past k) {s : Shipment} {frame : Bytes}
    (hframe : s.message.toBytes = .ok frame)
    (hstamped : s.message.stamped = s.receipts.map (·.stamp)) :
    (c.posted (some frame)).Attests past { k with shipped := k.shipped ++ [s] } where
  placed := (c.sameStreams_posted (some frame)).placed h.placed
  ordering := h.ordering
  held := h.held
  tagged := h.tagged
  frames := by
    rw [toList_posted, ← List.append_assoc]
    exact List.rel_append h.frames (.cons hframe .nil)
  stamped := List.forall_mem_append.2 ⟨h.stamped, List.forall_mem_singleton.2 hstamped⟩
  frees := h.frees

theorem detach (h : c.Attests past k) (thread : ThreadId) :
    Attests past k { c with streamOf := c.streamOf.erase thread } :=
  { h with placed := h.placed.detach thread }

/-- A thread that has no stream gets one, which holds nothing. -/
theorem obtain (h : c.Attests past k) (thread : ThreadId)
    (hnone : k.held (.own c.own.size) = []) :
    Attests past k { c with
      own := c.own.push { ordering := .ofNat (Message.sharedOrderings + c.own.size) }
      streamOf := c.streamOf.insert thread c.own.size } :=
  { h with
    placed := h.placed.obtain thread _
    ordering := forall_push (P := fun ref t => t.ordering = ref.ordering) h.ordering rfl
    held := forall_push (P := fun ref t => t.Holds ((k.held ref).map (·.record))) h.held <| by
      rw [hnone]
      rfl }

theorem stamped_message (h : c.Attests past k) (ref : StreamRef) :
    (k.message ref).stamped = (k.held ref).map (·.stamp) := by
  rw [Custody.message, Message.stamped, List.map_map]
  refine List.map_congr_left fun e he => ?_
  rw [Receipt.stamp, h.tagged ref e he]
  rfl

/-! ### Records that leave -/

/-- The records of a stream are to leave. -/
theorem ships (h : c.Attests past k) (href : c.Has ref) {s : RecordStream}
    (hordering : s.ordering = (c.stream ref).ordering) (hempty : s.Holds [])
    {result : Custody.Result} (hsends : Sends (c.stream ref).take.1 (c.setStream ref s) result) :
    ∃ k', k.Ships ref c.outbox.accepting result k' ∧ (Step.final result).Attests past k' := by
  have hholds := h.held ref href
  have htake := (RecordStream.take_of_holds hholds).1
  have hmessage : Message.analyze (c.stream ref).ordering ((k.held ref).map (·.record)) =
      k.message ref := by rw [h.ordering ref href, Custody.message]
  have houtbox : (c.setStream ref s).outbox = c.outbox := by cases ref <;> rfl
  have hclear : (c.setStream ref s).Attests past { k with held := k.replaced ref [] } :=
    h.setStream href hordering hempty nofun
  by_cases hnone : k.held ref = []
  · rw [hnone, List.map_nil, if_pos rfl] at htake
    rw [htake] at hsends
    cases hsends with
    | nothing =>
      rw [← hnone, k.replaced_self] at hclear
      exact ⟨k, .nothing hnone, hclear⟩
    | sent hsome | refused hsome => cases hsome
    | unwritable herror => cases herror
  · have hsome : (k.held ref).map (·.record) ≠ [] := fun heq => hnone (List.map_eq_nil_iff.1 heq)
    rw [if_neg hsome, hmessage] at htake
    cases hbytes : (k.message ref).toBytes with
    | error e =>
      rw [← hmessage] at hbytes
      obtain rfl := RecordStream.eq_batchTooLarge_of_toBytes hholds hsome hbytes
      rw [hmessage] at hbytes
      rw [htake, hbytes] at hsends
      cases hsends with
      | unwritable herror =>
        cases herror
        exact ⟨k.lose ref, .unwritable hbytes, hclear.congr rfl rfl⟩
      | nothing hok | sent hok | refused hok => cases hok
    | ok frame =>
      rw [htake, hbytes] at hsends
      cases hsends with
      | sent hframe =>
        cases hframe
        exact ⟨k.ship ref, .sent hnone, hclear.post hbytes (h.stamped_message ref)⟩
      | refused _ hno => exact ⟨k.lose ref, .refused (houtbox ▸ hno), hclear.congr rfl rfl⟩
      | nothing hok => cases hok
      | unwritable herror => cases herror

theorem sealStream (h : c.Attests past k) (href : c.Has ref) :
    ∃ k', k.Ships ref c.outbox.accepting (sealStream ref c) k' ∧
      (Step.final (sealStream ref c)).Attests past k' := by
  obtain ⟨-, hempty, hgate⟩ := RecordStream.take_of_holds (h.held ref href)
  exact h.ships href hgate.ordering hempty (sealStream_sends ref c)

theorem closeStream (h : c.Attests past k) (href : c.Has ref) :
    ∃ k', k.Ships ref c.outbox.accepting (closeStream ref c) k' ∧
      (Step.final (closeStream ref c)).Attests past k' := by
  obtain ⟨-, hempty, hgate⟩ := RecordStream.take_of_holds (h.held ref href)
  exact h.ships (s := { (c.stream ref).take.2 with closed := true }) href hgate.ordering hempty
    (closeStream_sends h.placed.size_shared href)

/-- A message without records is told. -/
theorem tells (h : c.Attests past k) {m : Message} (hm : m.stamped = []) :
    (Step.final (enqueueMessage m c)).Attests past k ∧
        Step.succeeded (enqueueMessage m c) = false ∨
      (Step.final (enqueueMessage m c)).Attests past (k.tell m) := by
  have hsends := enqueueMessage_sends m c
  generalize enqueueMessage m c = result at hsends
  cases hbytes : m.toBytes with
  | error e =>
    rw [hbytes] at hsends
    cases hsends with
    | unwritable => exact .inl ⟨h, rfl⟩
    | nothing hok | sent hok | refused hok => cases hok
  | ok frame =>
    rw [hbytes] at hsends
    cases hsends with
    | sent hframe =>
      cases hframe
      exact .inr (h.post (s := ⟨m, []⟩) hbytes hm)
    | refused => exact .inl ⟨h, rfl⟩
    | nothing hok => cases hok
    | unwritable herror => cases herror

/-! ### Records that come -/

/-- A record comes to a stream. -/
theorem takes (h : c.Attests past k) {e : Receipt} (href : c.Has e.ref) {b : RecordBuilder}
    (hb : b.Holds e.record) :
    ∃ k', k.Takes e c.outbox.accepting (appendTo e.ref b c) k' ∧
      (Step.final (appendTo e.ref b c)).Attests past k' := by
  have hholds := h.held e.ref href
  have htagged : ∀ e' ∈ k.held e.ref ++ [e], e'.ref = e.ref :=
    List.forall_mem_append.2 ⟨h.tagged e.ref, List.forall_mem_singleton.2 rfl⟩
  rcases appendTo_cases h.placed.size_shared href b with
    ⟨cause, s, happend, hresult⟩ | ⟨s, happend, hrest⟩
  · rw [hresult]
    refine ⟨k, .refused, ?_⟩
    cases hclosed : (c.stream e.ref).closed with
    | true =>
      cases (RecordStream.append_of_closed hclosed b).symm.trans happend
      exact h.setStream_same href rfl hholds
    | false =>
      rcases RecordStream.append_of_holds hholds hclosed hb with
        ⟨_, hok, -⟩ | ⟨_, s', herror, hholds', hgate, -⟩
      · cases hok.symm.trans happend
      · cases herror.symm.trans happend
        exact h.setStream_same href hgate.ordering hholds'
  · have hmore : s.Holds ((k.held e.ref ++ [e]).map (·.record)) ∧
        (c.stream e.ref).SameGate s := by
      cases hclosed : (c.stream e.ref).closed with
      | true => cases (RecordStream.append_of_closed hclosed b).symm.trans happend
      | false =>
        rcases RecordStream.append_of_holds hholds hclosed hb with
          ⟨_, hok, hholds', hgate, -⟩ | ⟨_, _, herror, -⟩
        · cases hok.symm.trans happend
          rw [List.map_append]
          exact ⟨hholds', hgate⟩
        · cases herror.symm.trans happend
    obtain ⟨hholds', hgate⟩ := hmore
    have htaken : (c.setStream e.ref s).Attests past (k.take e) :=
      h.setStream href hgate.ordering hholds' htagged
    rcases hrest with ⟨-, hresult⟩ | ⟨-, hsends⟩
    · rw [hresult]
      exact ⟨k.take e, .kept, htaken⟩
    · -- All records of the stream are to leave, the new one among them.
      have href' : (c.setStream e.ref s).Has e.ref := (has_setStream e.ref s e.ref).2 href
      have hstream : (c.setStream e.ref s).stream e.ref = s := by
        rw [stream_setStream_of_has h.placed.size_shared href, if_pos rfl]
      have houtbox : (c.setStream e.ref s).outbox = c.outbox := by cases e.ref <;> rfl
      obtain ⟨-, hempty, hgate'⟩ := RecordStream.take_of_holds hholds'
      have hordering : s.take.2.ordering = ((c.setStream e.ref s).stream e.ref).ordering := by
        rw [hstream, hgate'.ordering]
      have hsends' : Sends ((c.setStream e.ref s).stream e.ref).take.1
          ((c.setStream e.ref s).setStream e.ref s.take.2) (Client.appendTo e.ref b c) := by
        rwa [hstream, setStream_setStream]
      obtain ⟨k', hships, hattests⟩ := htaken.ships href' hordering hempty hsends'
      rw [houtbox] at hships
      have hheld : ((k.take e).lose e.ref).held = (k.lose e.ref).held := by
        funext other
        simp only [Custody.lose, Custody.take, Custody.replaced]
        split <;> rfl
      generalize Client.appendTo e.ref b c = result at hships hattests
      cases hships with
      | nothing hnone => simp [Custody.take, Custody.replaced] at hnone
      | sent => exact ⟨_, .sent, hattests⟩
      | refused hno => exact ⟨_, .closed hno, hattests.congr hheld.symm rfl⟩
      | unwritable hlarge => exact ⟨_, .unwritable hlarge, hattests.congr hheld.symm rfl⟩

private theorem streamOf_appendTo (hplaced : c.Placed) (href : c.Has ref) (b : RecordBuilder) :
    (Step.final (appendTo ref b c)).streamOf = c.streamOf := by
  rcases appendTo_cases hplaced.size_shared href b with
    ⟨_, _, -, hresult⟩ | ⟨_, -, ⟨-, hresult⟩ | ⟨-, hsends⟩⟩
  · rw [hresult]
    exact streamOf_setStream ..
  · rw [hresult]
    exact streamOf_setStream ..
  · obtain ⟨frame, hfinal, -⟩ := hsends.final
    rw [hfinal, (sameStreams_posted _ frame).streamOf, streamOf_setStream]

private theorem takes_assigned (h : c.Attests past k) (hassigns : c.Assigns k) {e : Receipt}
    (href : c.Has e.ref) (hown : ∀ p, e.ref = .own p → c.streamOf[e.thread]? = some p)
    {b : RecordBuilder} (hb : b.Holds e.record) :
    ∃ k', k.Takes e c.outbox.accepting (appendTo e.ref b c) k' ∧
      (Step.final (appendTo e.ref b c)).Attests past k' ∧
      (Step.final (appendTo e.ref b c)).Assigns k' := by
  obtain ⟨k', htakes, hattests⟩ := h.takes href hb
  refine ⟨k', htakes, hattests, fun p e' he' => ?_⟩
  rw [streamOf_appendTo h.placed href]
  rcases Custody.mem_take.1 (htakes.held_subset he') with hold | ⟨heq, rfl⟩
  · exact hassigns p e' hold
  · exact hown p heq.symm

/-- A thread gets a stream, if it has none, and its records go there. -/
private theorem obtain_assigned (h : c.Attests past k) (hassigns : c.Assigns k)
    (thread : ThreadId) :
    ∃ p d, c.streamFor thread none = .own p ∧ Client.obtain thread c = .ok (.own p) d ∧
      d.Attests past k ∧ d.Assigns k ∧ d.Has (.own p) ∧ d.streamOf[thread]? = some p ∧
      d.outbox = c.outbox := by
  unfold streamFor streamOf?
  cases hp : c.streamOf[thread]? with
  | some p =>
    exact ⟨p, c, rfl, obtain_of_some hp, h, hassigns, h.placed.inRange thread p hp, hp, rfl⟩
  | none =>
    have hempty : k.held (.own c.own.size) = [] := by
      refine List.eq_nil_iff_forall_not_mem.2 fun e he => ?_
      exact c.not_has_size (h.placed.inRange e.thread _ (hassigns _ e he))
    refine ⟨_, _, rfl, obtain_of_none hp, h.obtain thread hempty, fun p e he => ?_,
      has_push.2 (.inr rfl), by rw [getElem?_insert, if_pos rfl], rfl⟩
    have hold := hassigns p e he
    have hne : e.thread ≠ thread := fun heq => by
      rw [heq, hp] at hold
      cases hold
    rw [getElem?_insert, if_neg hne]
    exact hold

/-- A record goes to a shared stream, after those that its thread has on its own stream. -/
private theorem appends_shared (h : c.Attests past k) (hassigns : c.Assigns k) (thread : ThreadId)
    (i : UInt8) {b : RecordBuilder} {r : Record} (hb : b.Holds r) (turn : Nat) :
    ∃ k', k.Finishes ⟨.shared i, r, thread, turn⟩ c.outbox.accepting
        (appendShared thread i b c) k' ∧
      (Step.final (appendShared thread i b c)).Attests past k' ∧
      (Step.final (appendShared thread i b c)).Assigns k' := by
  rw [appendShared, Step.get_bind]
  unfold Client.streamOf?
  cases hp : c.streamOf[thread]? with
  | none =>
    have hready : k.Ready ⟨.shared i, r, thread, turn⟩ := by
      intro j _ p e he heq
      have hold := hassigns p e he
      rw [heq, hp] at hold
      cases hold
    obtain ⟨k', htakes, hrest⟩ := h.takes_assigned hassigns (e := ⟨.shared i, r, thread, turn⟩)
      trivial (fun _ hown => by cases hown) hb
    exact ⟨k', .taken hready htakes, hrest⟩
  | some p =>
    have href : c.Has (.own p) := h.placed.inRange thread p hp
    obtain ⟨k₁, hships, hattests⟩ := h.sealStream href
    have hstreams : (Step.final (Client.sealStream (.own p) c)).streamOf = c.streamOf :=
      congrArg (·.2.1) (holdings_sealStream (.own p) c)
    have hassigns₁ := hassigns.mono (fun _ _ he => (hships.mem_held.1 he).2) hstreams
    have hgate : (Step.final (Client.sealStream (.own p) c)).outbox.accepting =
        c.outbox.accepting :=
      congrArg (·.2.2.2.accepting) ((lasting_gate c.gate).keeps_sealStream (.own p) c rfl)
    dsimp only [Option.map_some]
    cases hseal : Client.sealStream (.own p) c with
    | error cause d =>
      rw [hseal] at hships hattests hassigns₁
      rw [Step.bind_of_error hseal]
      exact ⟨k₁, .blocked hships, hattests, hassigns₁⟩
    | ok _ d =>
      rw [hseal] at hships hattests hassigns₁ hstreams hgate
      rw [Step.bind_of_ok hseal]
      -- What the thread had on its own stream has left it.
      have hready : k₁.Ready ⟨.shared i, r, thread, turn⟩ := by
        intro j _ q e he heq
        obtain ⟨hne, he⟩ := hships.mem_held.1 he
        have hold := hassigns q e he
        rw [heq, hp] at hold
        cases hold
        exact hne rfl
      obtain ⟨k', htakes, hrest⟩ := Attests.takes_assigned hattests hassigns₁
        (e := ⟨.shared i, r, thread, turn⟩) trivial (fun _ hown => by cases hown) hb
      rw [hgate] at htakes
      exact ⟨k', .passed hships hready htakes, hrest⟩

/-- A record is finished. -/
theorem finishes (h : c.Attests past k) (hassigns : c.Assigns k) (thread : ThreadId)
    {w : EventWriter} {r : Record} (hw : w.fault = none → w.record.Holds r) (turn : Nat) :
    ∃ k', k.Finishes ⟨c.streamFor thread w.ordering, r, thread, turn⟩ c.outbox.accepting
        (finishEvent thread w c) k' ∧
      (Step.final (finishEvent thread w c)).Attests past k' ∧
      (Step.final (finishEvent thread w c)).Assigns k' := by
  unfold Client.finishEvent
  cases hfault : w.fault with
  | some cause => exact ⟨k, .refused, h, hassigns⟩
  | none =>
    cases hordering : w.ordering with
    | none =>
      obtain ⟨p, d, hstream, hobtain, hd, hassigns', href, hp, houtbox⟩ :=
        h.obtain_assigned hassigns thread
      dsimp only
      rw [appendLocal, Step.bind_of_ok hobtain, hstream, ← houtbox]
      obtain ⟨k', htakes, hrest⟩ := hd.takes_assigned hassigns' (e := ⟨.own p, r, thread, turn⟩)
        href (fun q hq => by cases hq; exact hp) (hw hfault)
      exact ⟨k', .taken (.of_own rfl) htakes, hrest⟩
    | some i => exact h.appends_shared hassigns thread i (hw hfault) turn

/-- A record that is sent at once is begun and finished. -/
theorem dispatches (h : c.Attests past k) (hassigns : c.Assigns k) (thread : ThreadId)
    (id : MethodId) (args : List Value) (turn : Nat) :
    ∃ k', k.Finishes ⟨c.streamFor thread none, ⟨id, args⟩, thread, turn⟩ c.outbox.accepting
        (dispatch thread id args c) k' ∧
      (Step.final (dispatch thread id args c)).Attests past k' ∧
      (Step.final (dispatch thread id args c)).Assigns k' := by
  unfold dispatch
  rcases beginEvent_cases id none c with hbegin | ⟨e, hbegin⟩
  · obtain ⟨hholds, -, hordering⟩ := EventWriter.foldl_send_of_holds
      (w := { record := .start id, ordering := none })
      (fun _ => RecordBuilder.holds_start id) args
    have hfinishes := h.finishes hassigns thread hholds turn
    rw [hordering] at hfinishes
    rw [Step.bind_of_ok hbegin]
    exact hfinishes
  · rw [Step.bind_of_error hbegin]
    exact ⟨k, .refused, h, hassigns⟩

end Attests

end Client

end TraceRelay
