import TraceRelay.Proofs.Client.Ended

/-!
# The fate of a stream

A thread gives up its stream when it ends, or at the next time that all is sent after it is gone.
What the stream holds goes out then, and directly behind it the end of the stream, as long as these
records fit into a frame. If they are too large for one then they are gone with the stream, and its
end is never told.

## Main definitions

* `Client.Fate` : what becomes of the stream of a thread in a call.

## Main results

* `Client.Fate.endStream` : the end of a stream.
* `Client.Fate.flush`, `Client.Fate.objectFreed`, `Client.Fate.threadEnd` : the calls in which
  threads give up streams.
-/

namespace TraceRelay

namespace Client

open Step (Keeps)

variable {c c' d : Client} {gone silent : Nat → Prop} {given : StreamRef → Record → Prop}
  {past : List Bytes} {ref : StreamRef} {thread : ThreadId} {sure : Prop}
  {result : EStateM.Result ClientError Client Unit}

/-! ### Frames -/

/-- A step that was to send a frame, and succeeded. -/
theorem Sends.of_ok {frame : Except WireError (Option Bytes)} (h : Sends frame c (.ok ⟨⟩ c')) :
    ∃ sent, frame = .ok sent ∧ c' = c.posted sent := by
  cases h with
  | nothing h => exact ⟨none, h, rfl⟩
  | sent h _ => exact ⟨some _, h, rfl⟩

/-- A step that was to send a frame that could be made fails only if no frames are accepted. -/
theorem Sends.refused_of_error {sent : Option Bytes} {e : ClientError}
    (h : Sends (.ok sent) c (.error e c')) : c'.outbox.accepting = false := by
  cases h with
  | refused _ hno => exact hno
  | unwritable h => cases h

/-- What a step puts into the outbox comes behind what waits. -/
theorem exists_behind {α : Type} {m : EStateM ClientError Client α}
    (hm : ∀ {P : Client → Prop}, Lasting P → Keeps P m) (c : Client) :
    ∃ behind, (Step.final (m c)).outbox.waiting.toList = c.outbox.waiting.toList ++ behind := by
  obtain ⟨behind, hbehind⟩ := hm (lasting_waiting c.outbox.waiting.toList) c List.prefix_rfl
  exact ⟨behind, hbehind.symm⟩

/-! ### Other streams -/

/-- A thread has a stream, which is still as it was. -/
private structure Untouched (thread : ThreadId) (p : Nat) (s : RecordStream) (c : Client) :
    Prop where
  placed : c.Placed
  has : c.streamOf[thread]? = some p
  stream : c.stream (.own p) = s

namespace Untouched

variable {p : Nat} {s : RecordStream} {other : ThreadId}

theorem setStream (h : c.Untouched thread p s) (href : ref ≠ .own p) (t : RecordStream) :
    (c.setStream ref t).Untouched thread p s where
  placed := h.placed.setStream ref t
  has := by
    rw [streamOf_setStream]
    exact h.has
  stream := by
    by_cases hthere : c.Has ref
    · rw [stream_setStream_of_has h.placed.size_shared hthere, if_neg href.symm]
      exact h.stream
    · rw [setStream_of_not_has hthere]
      exact h.stream

theorem sends (h : c.Untouched thread p s) {frame : Except WireError (Option Bytes)}
    {result : EStateM.Result ClientError Client Unit} (hsends : Sends frame c result) :
    (Step.final result).Untouched thread p s := by
  obtain ⟨frame', hfinal, -⟩ := hsends.final
  have hsame := c.sameStreams_posted frame'
  rw [hfinal]
  exact ⟨hsame.placed h.placed, by rw [hsame.streamOf]; exact h.has,
    (hsame.stream _).trans h.stream⟩

theorem keeps_sealStream (href : ref ≠ .own p) : Keeps (Untouched thread p s) (sealStream ref) :=
  fun c h => (h.setStream href _).sends (sealStream_sends ref c)

theorem keeps_endStream (hother : other ≠ thread) :
    Keeps (Untouched thread p s) (endStream other) := by
  intro c h
  cases hq : c.streamOf[other]? with
  | none =>
    rw [endStream_of_none hq]
    exact h
  | some q =>
    have href : StreamRef.own q ≠ .own p := fun heq => by
      cases heq
      exact hother (h.placed.single other thread p hq h.has)
    rw [endStream_of_some hq]
    have hclose : Keeps (Untouched thread p s) (closeStream (.own q)) :=
      .bind (.modify fun d hd => hd.setStream href _) fun _ => keeps_sealStream href
    refine Keeps.bind hclose (fun _ => .bind .get fun _ d hd => hd.sends (enqueueMessage_sends _ d))
      _ ⟨h.placed.detach other, ?_, h.stream⟩
    rw [getElem?_erase, if_neg hother.symm]
    exact h.has

theorem keeps_visit (hother : other ≠ thread) (href : ref ≠ .own p) :
    Keeps (Untouched thread p s) (visit other ref) := by
  intro c h
  rw [visit_eq]
  split
  · exact keeps_endStream hother c h
  · exact keeps_sealStream href c h

end Untouched

/-- Visits to other threads leave the stream of a thread as it is. -/
private theorem untouched_of_visits {p : Nat} (hplaced : c.Placed)
    (hp : c.streamOf[thread]? = some p) {early late : List (ThreadId × StreamRef)}
    (hsplit : c.ownRefs = early ++ (thread, .own p) :: late) :
    (Step.final (early.forM (fun entry => visit entry.1 entry.2) c)).Untouched thread p
      (c.stream (.own p)) := by
  have hnodup := c.nodup_ownRefs
  rw [hsplit, List.map_append, List.map_cons] at hnodup
  have hkeeps : Keeps (Untouched thread p (c.stream (.own p)))
      (early.forM fun entry => visit entry.1 entry.2) := by
    refine .forM_of_mem fun (other, ref) hentry => ?_
    have hother : other ≠ thread := fun heq =>
      (List.nodup_append.1 hnodup).2.2 _ (List.mem_map_of_mem hentry) _ List.mem_cons_self heq
    refine Untouched.keeps_visit hother fun href => hother ?_
    obtain ⟨q, hq, hhas⟩ := mem_ownRefs.1 (hsplit ▸ List.mem_append_left _ hentry)
    cases href.symm.trans hq
    exact hplaced.single _ _ p hhas hp
  exact hkeeps c ⟨hplaced, hp, rfl⟩

/-! ### What becomes of a stream -/

/-- What becomes of the stream `p` of a thread in a call that ends with a result. A thread that is
`sure` to give it up keeps it only in a call that fails. -/
inductive Fate (gone : Nat → Prop) (given : StreamRef → Record → Prop) (silent : Nat → Prop)
    (past : List Bytes) (sure : Prop) (thread : ThreadId) (p : Nat) (c : Client)
    (result : EStateM.Result ClientError Client Unit) : Prop
  /-- The thread still has the stream. -/
  | kept (hp : (Step.final result).streamOf[thread]? = some p)
    (hfails : sure → Step.succeeded result = false)
  /-- No frames are accepted any more. -/
  | refused (hno : (Step.final result).outbox.accepting = false)
    (hfails : Step.succeeded result = false)
  /-- What the stream held went out, and directly behind it the end of the stream. -/
  | told (pending : Option Bytes) (frame : Bytes) (front back : List Bytes)
    (htake : (c.stream (.own p)).take.1 = .ok pending)
    (hframe : (Message.threadEnd (StreamRef.own p).ordering).toBytes = .ok frame)
    (hwaiting : (Step.final result).outbox.waiting.toList =
      c.outbox.waiting.toList ++ (front ++ pending.toList ++ frame :: back))
    (hfreed : Freed p (Step.final result))
  /-- What the stream held was too large for a frame, and the stream is silent from now on. -/
  | dropped (e : WireError) (d : Client) (htake : (c.stream (.own p)).take.1 = .error e)
    (hfails : result = .error (.wire e) d)
    (hintact : d.Intact gone given (fun q => silent q ∨ q = p) past)

theorem keeps_streamOf_sealStream {p : Nat} (ref : StreamRef) :
    Keeps (·.streamOf[thread]? = some p) (sealStream ref) := by
  intro c hp
  have hstreams : (Step.final (sealStream ref c)).streamOf = c.streamOf :=
    congrArg (·.2.1) (holdings_sealStream ref c)
  exact hstreams ▸ hp

theorem keeps_streamOf_sealFrees {p : Nat} : Keeps (·.streamOf[thread]? = some p) sealFrees := by
  intro c hp
  have hstreams : (Step.final (sealFrees c)).streamOf = c.streamOf :=
    congrArg (·.2.1) (sealFrees_sends c).holdings
  exact hstreams ▸ hp

namespace Fate

variable {p : Nat}

/-- Nothing happened to the stream before, and what waited still does. -/
theorem before (h : d.Fate gone given silent past sure thread p result)
    (hstream : d.stream (.own p) = c.stream (.own p))
    (hwaiting : c.outbox.waiting.toList <+: d.outbox.waiting.toList) :
    c.Fate gone given silent past sure thread p result := by
  obtain ⟨first, hfirst⟩ := hwaiting
  cases h with
  | kept hp hfails => exact .kept hp hfails
  | refused hno hfails => exact .refused hno hfails
  | told pending frame front back htake hframe hwaiting hfreed =>
    refine .told pending frame (first ++ front) back (hstream ▸ htake) hframe ?_ hfreed
    rw [hwaiting, ← hfirst]
    simp only [List.append_assoc]
  | dropped e d' htake hfails hintact => exact .dropped e d' (hstream ▸ htake) hfails hintact

theorem weaken (h : c.Fate gone given silent past sure thread p result) {sure' : Prop}
    (hsure : sure' → sure) : c.Fate gone given silent past sure' thread p result := by
  cases h with
  | kept hp hfails => exact .kept hp (hfails ∘ hsure)
  | refused hno hfails => exact .refused hno hfails
  | told pending frame front back htake hframe hwaiting hfreed =>
    exact .told pending frame front back htake hframe hwaiting hfreed
  | dropped e d htake hfails hintact => exact .dropped e d htake hfails hintact

/-- A step that comes later, and takes the stream from nobody. -/
theorem bind {m : EStateM ClientError Client Unit} {f : Unit → EStateM ClientError Client Unit}
    (h : c.Fate gone given silent past sure thread p (m c))
    (hf : ∀ a {P : Client → Prop}, Lasting P → Keeps P (f a))
    (hkeeps : ∀ a, Keeps (·.streamOf[thread]? = some p) (f a)) :
    c.Fate gone given silent past sure thread p ((m >>= f) c) := by
  cases hm : m c with
  | error e d =>
    rw [hm] at h
    rwa [Step.bind_of_error hm]
  | ok a d =>
    rw [hm] at h
    rw [Step.bind_of_ok hm]
    cases h with
    | kept hp hfails => exact .kept (hkeeps a d hp) fun hsure => nomatch hfails hsure
    | refused _ hfails => cases hfails
    | told pending frame front back htake hframe hwaiting hfreed =>
      obtain ⟨behind, hbehind⟩ := exists_behind (hf a) d
      dsimp only [Step.final] at hwaiting
      refine .told pending frame front (back ++ behind) htake hframe ?_
        (hf a (lasting_only p fun _ => False) d hfreed)
      rw [hbehind, hwaiting]
      simp only [List.append_assoc, List.cons_append]
    | dropped e d' _ hfails => cases hfails

/-- The end of a stream is told behind what the stream held. -/
private theorem of_enqueueMessage {pending : Option Bytes}
    (htake : (c.stream (.own p)).take.1 = .ok pending)
    (hwaiting : d.outbox.waiting.toList = c.outbox.waiting.toList ++ pending.toList)
    (hfreed : Freed p (Step.final (enqueueMessage (.threadEnd (StreamRef.own p).ordering) d))) :
    c.Fate gone given silent past sure thread p
      (enqueueMessage (.threadEnd (StreamRef.own p).ordering) d) := by
  have htells := enqueueMessage_sends (.threadEnd (StreamRef.own p).ordering) d
  rw [Message.toBytes_threadEnd] at htells
  cases htell : enqueueMessage (.threadEnd (StreamRef.own p).ordering) d with
  | error e d' =>
    rw [htell] at htells
    exact .refused htells.refused_of_error rfl
  | ok _ d' =>
    rw [htell] at htells hfreed
    obtain ⟨sent, hframe, rfl⟩ := htells.of_ok
    cases hframe
    refine .told pending _ [] [] htake (Message.toBytes_threadEnd _) ?_ hfreed
    rw [Step.final, toList_posted, hwaiting, List.nil_append, List.append_assoc]
    rfl

/-- **The end of a stream.** -/
theorem endStream (h : c.Intact gone given silent past) (hp : c.streamOf[thread]? = some p) :
    c.Fate gone given silent past sure thread p (endStream thread c) := by
  have hplaced := h.1.placed.detach thread
  have href : Has { c with streamOf := c.streamOf.erase thread } (.own p) :=
    h.1.placed.inRange thread p hp
  have hfreed := freed_endStream h.1.placed hp
  cases htake : (c.stream (.own p)).take.1 with
  | error e =>
    obtain ⟨d, -, -, hend⟩ := Client.endStream_of_unwritable h.1.placed hp htake
    have hsilent := h.endStream_of_unwritable hp htake
    rw [hend] at hsilent ⊢
    exact .dropped e d htake rfl hsilent
  | ok pending =>
    have hcloses := closeStream_sends hplaced.size_shared href
    have hstream : Client.stream { c with streamOf := c.streamOf.erase thread } (.own p) =
        c.stream (.own p) := rfl
    rw [hstream, htake] at hcloses
    rw [endStream_of_some hp] at hfreed ⊢
    cases hclose : closeStream (.own p) { c with streamOf := c.streamOf.erase thread } with
    | error e d =>
      rw [hclose] at hcloses
      rw [Step.bind_of_error hclose]
      exact .refused hcloses.refused_of_error rfl
    | ok _ d =>
      rw [hclose] at hcloses
      obtain ⟨sent, hsent, hd⟩ := hcloses.of_ok
      cases hsent
      have hordering : (d.stream (.own p)).ordering = (StreamRef.own p).ordering := by
        rw [hd, (sameStreams_posted _ pending).stream,
          stream_setStream_of_has hplaced.size_shared href, if_pos rfl,
          ← h.1.ordering (.own p) (h.1.placed.inRange thread p hp), RecordStream.take]
        cases (c.stream (.own p)).batch <;> rfl
      rw [Step.bind_of_ok hclose, Step.get_bind, hordering] at hfreed ⊢
      exact of_enqueueMessage htake (by rw [hd, toList_posted]; rfl) hfreed

theorem visit (h : c.Intact gone given silent past) (hp : c.streamOf[thread]? = some p) :
    c.Fate gone given silent past ((c.stream (.own p)).orphaned = true) thread p
      (visit thread (.own p) c) := by
  rw [visit_eq]
  split
  · exact .endStream h hp
  · next hno => exact .kept (keeps_streamOf_sealStream _ c hp) fun hyes => absurd hyes hno

/-- All streams are visited, those of other threads before this one and after it. -/
theorem sealEvents (h : c.Intact gone given silent past) (hp : c.streamOf[thread]? = some p) :
    c.Fate gone given silent past ((c.stream (.own p)).orphaned = true) thread p
      (sealEvents c) := by
  obtain ⟨early, late, hsplit⟩ := List.append_of_mem (mem_ownRefs.2 ⟨p, rfl, hp⟩)
  have hnodup := c.nodup_ownRefs
  rw [hsplit, List.map_append, List.map_cons, List.nodup_append, List.nodup_cons] at hnodup
  have hstill := untouched_of_visits h.1.placed hp hsplit
  have hintact := h.visits hnodup.1 fun entry hentry =>
    mem_ownRefs.1 (hsplit ▸ List.mem_append_left _ hentry)
  rw [Client.sealEvents, Step.get_bind]
  refine bind ?_ (fun _ _ hP => .forM hP.keeps_sealStream _)
    fun _ => .forM keeps_streamOf_sealStream _
  rw [hsplit, List.forM_eq_forM, List.forM_append, List.forM_cons]
  rw [List.forM_eq_forM] at hstill hintact
  cases hearly : forM early (fun entry => Client.visit entry.1 entry.2) c with
  | error e d =>
    rw [hearly] at hstill
    rw [Step.bind_of_error hearly]
    exact .kept hstill.has fun _ => rfl
  | ok _ d =>
    obtain ⟨behind, hbehind⟩ := exists_behind
      (fun hP => .forM (fun entry => hP.keeps_visit entry.1 entry.2) early) c
    rw [List.forM_eq_forM, hearly] at hbehind
    rw [hearly] at hstill hintact
    rw [Step.bind_of_ok hearly]
    refine before ?_ hstill.stream ⟨behind, hbehind.symm⟩
    refine bind (hstill.stream ▸ .visit hintact hstill.has)
      (fun _ _ hP => .forM (fun entry => hP.keeps_visit entry.1 entry.2) late) fun _ => ?_
    refine .forM_of_mem fun entry hentry d hd => ?_
    have hother : thread ≠ entry.1 := fun heq =>
      hnodup.2.1.1 (List.mem_map.2 ⟨entry, hentry, heq.symm⟩)
    exact (streamOf_visit entry.1 entry.2 d hother).trans hd

/-- **Everything is sent early.** -/
theorem flush (h : c.Intact gone given silent past) (hp : c.streamOf[thread]? = some p) :
    c.Fate gone given silent past ((c.stream (.own p)).orphaned = true) thread p (flush c) := by
  cases hclosed : c.closed with
  | true =>
    rw [Client.flush, ensureOpen_bind_of_closed hclosed]
    exact .kept hp fun _ => rfl
  | false =>
    rw [Client.flush, ensureOpen_bind hclosed]
    exact bind (.sealEvents h hp) (fun _ _ hP => hP.keeps_sealFrees)
      fun _ => keeps_streamOf_sealFrees

/-- A free that comes to a full message sends everything early. -/
theorem objectFreed (h : c.Intact gone given silent past) (hp : c.streamOf[thread]? = some p)
    (t : Token) : c.Fate gone given silent past False thread p (objectFreed t c) := by
  cases hclosed : c.closed with
  | true =>
    rw [Client.objectFreed, ensureOpen_bind_of_closed hclosed]
    exact .kept hp False.elim
  | false =>
    have hintact := h.onFrees t
    have hfinal := final_onFrees t c
    rw [Client.objectFreed, ensureOpen_bind hclosed]
    cases hfree : onFrees (FreeStream.append t) c with
    | error e d =>
      rw [hfree] at hfinal
      rw [Step.bind_of_error hfree]
      cases hfinal
      exact .kept hp False.elim
    | ok _ d =>
      rw [hfree] at hfinal hintact
      rw [Step.bind_of_ok hfree, Step.get_bind]
      cases hfinal
      split
      · have hsealed := weaken (.sealEvents hintact hp) False.elim
        exact before (bind hsealed (fun _ _ hP => hP.keeps_sealFrees)
          fun _ => keeps_streamOf_sealFrees) rfl List.prefix_rfl
      · exact .kept hp False.elim

/-- **A thread ends.** -/
theorem threadEnd (h : c.Intact gone given silent past) (hp : c.streamOf[thread]? = some p) :
    c.Fate gone given silent past True thread p (threadEnd thread c) := by
  cases hclosed : c.closed with
  | true =>
    rw [Client.threadEnd, ensureOpen_bind_of_closed hclosed]
    exact .kept hp fun _ => rfl
  | false =>
    rw [Client.threadEnd, ensureOpen_bind hclosed]
    exact .endStream h hp

end Fate

end Client

end TraceRelay
