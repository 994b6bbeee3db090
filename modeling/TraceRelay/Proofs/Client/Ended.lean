import TraceRelay.Proofs.Client.Logged

/-!
# Calls and the ends of streams

Each call keeps the streams in order, lets nothing follow the end of a stream, and breaks no
silence.

## Main results

* `Client.Intact.finishEvent`, `Client.Intact.dispatch` : records.
* `Client.Intact.keeps_flush`, `Client.Intact.keeps_threadEnd`, … : calls that end streams.
* `Client.Intact.closeAll` : the end of the session.
-/

namespace TraceRelay

namespace FreeStream

variable {s : FreeStream} {tokens : List Token}

/-- A token is taken, or it is refused and changes nothing. -/
theorem append_cases (h : s.Holds tokens) (t : Token) :
    (∃ s', append t s = .ok ⟨⟩ s' ∧ s'.Holds (tokens ++ [t])) ∨ ∃ e, append t s = .error e s := by
  cases hclosed : s.closed with
  | true => exact .inr ⟨_, append_of_closed hclosed t⟩
  | false =>
    rcases append_of_holds h hclosed t with ⟨s', happend, hholds, -⟩ | happend
    · exact .inl ⟨s', happend, hholds⟩
    · exact .inr ⟨_, happend⟩

/-- A token that comes to the frees is held back, or what was held back still is. -/
theorem exists_holds_append (h : s.Holds tokens) (t : Token) :
    ∃ tokens', (Step.final (append t s)).Holds tokens' := by
  rcases append_cases h t with ⟨s', happend, hholds⟩ | ⟨e, happend⟩
  · exact ⟨_, by rw [happend]; exact hholds⟩
  · exact ⟨tokens, by rw [happend]; exact h⟩

end FreeStream

namespace Client

open Step (Keeps)

variable {c c' : Client} {gone silent : Nat → Prop} {given : StreamRef → Record → Prop}
  {past : List Bytes} {ref : StreamRef} {thread : ThreadId} {w : EventWriter} {r : Record}

theorem inUse_shared (c : Client) (i : UInt8) : c.InUse (.shared i) := trivial

theorem inUse_own {p : Nat} (h : c.streamOf[thread]? = some p) : c.InUse (.own p) := ⟨thread, h⟩

theorem inUse_of_mem_sharedRefs (h : ref ∈ sharedRefs) : c.InUse ref := by
  obtain ⟨_, -, rfl⟩ := List.mem_map.1 h
  trivial

/-- Each thread is there once. -/
theorem nodup_ownRefs (c : Client) : (c.ownRefs.map Prod.fst).Nodup := by
  have hkeys : c.ownRefs.map Prod.fst = c.streamOf.keys := by
    rw [ownRefs, List.map_map, ← Std.TreeMap.map_fst_toList_eq_keys]
    rfl
  rw [hkeys]
  exact Std.TreeMap.nodup_keys

/-- The end of a stream takes no stream from another thread. -/
theorem streamOf_endStream (thread : ThreadId) (c : Client) {other : ThreadId}
    (h : other ≠ thread) :
    (Step.final (endStream thread c)).streamOf[other]? = c.streamOf[other]? := by
  cases hp : c.streamOf[thread]? with
  | none => rw [endStream_of_none hp]; rfl
  | some p =>
    have hstreams : (Step.final (endStream thread c)).streamOf = c.streamOf.erase thread :=
      congrArg (·.2.1) (holdings_endStream hp)
    rw [hstreams, getElem?_erase, if_neg h]

theorem streamOf_visit (thread : ThreadId) (ref : StreamRef) (c : Client) {other : ThreadId}
    (h : other ≠ thread) :
    (Step.final (visit thread ref c)).streamOf[other]? = c.streamOf[other]? := by
  rw [visit_eq]
  split
  · exact streamOf_endStream thread c h
  · have hstreams : (Step.final (sealStream ref c)).streamOf = c.streamOf :=
      congrArg (·.2.1) (holdings_sealStream ref c)
    rw [hstreams]

/-- The frees that are held back are told in one message, if there are any. -/
theorem sealFrees_of_holds {tokens : List Token} (h : c.frees.Holds tokens) :
    c.frees.take.2.Holds [] ∧ sealFrees c = (if tokens = [] then pure ⟨⟩
      else enqueueMessage (.objectFree tokens)) { c with frees := c.frees.take.2 } := by
  obtain ⟨htake, hempty, -⟩ := FreeStream.take_of_holds h
  have hseal : sealFrees c = enqueueTaken c.frees.take.1 { c with frees := c.frees.take.2 } := rfl
  refine ⟨hempty, ?_⟩
  rw [hseal, htake]
  split
  · rfl
  · unfold enqueueMessage
    cases (Message.objectFree tokens).toBytes <;> rfl

theorem final_onFrees (t : Token) (c : Client) : Step.final (onFrees (FreeStream.append t) c) =
    { c with frees := Step.final (FreeStream.append t c.frees) } := by
  unfold onFrees
  dsimp only
  cases FreeStream.append t c.frees <;> rfl

namespace Intact

/-! ### Frees, methods and messages -/

theorem sealFrees (h : c.Intact gone given silent past) :
    (Step.final (sealFrees c)).Intact gone given silent past := by
  obtain ⟨tokens, hholds⟩ := h.1.frees
  obtain ⟨hempty, hseal⟩ := sealFrees_of_holds hholds
  have hsame : Intact gone given silent past { c with frees := c.frees.take.2 } :=
    h.same ⟨rfl, rfl, rfl⟩ ⟨[], hempty⟩ rfl
  rw [hseal]
  split
  · exact hsame
  · next hsome => exact hsame.tellMessage (.inl hsome)

theorem onFrees (h : c.Intact gone given silent past) (t : Token) :
    (Step.final (onFrees (FreeStream.append t) c)).Intact gone given silent past := by
  obtain ⟨tokens, hholds⟩ := h.1.frees
  rw [final_onFrees]
  exact h.same ⟨rfl, rfl, rfl⟩ (FreeStream.exists_holds_append hholds t) rfl

theorem keeps_register (name : String) :
    Keeps (Intact gone given silent past) (register name) :=
  keeps_register_of (fun _ _ h => h.tellMessage (.inl trivial))
    fun _ _ h => h.same ⟨rfl, rfl, rfl⟩ h.1.frees rfl

/-- A message is told that is about no stream. -/
theorem keeps_tell {m : Message} (hm : Parcel.Sound ⟨none, m⟩) :
    Keeps (Intact gone given silent past) (tell m) :=
  .bind keeps_ensureOpen fun _ _ h => h.tellMessage (.inl hm)

/-! ### Records -/

/-- A thread gets a stream, if it has none. -/
private theorem obtain (h : c.Intact gone given silent past) (thread : ThreadId) :
    ∃ p d, c.streamFor thread none = .own p ∧ Client.obtain thread c = .ok (.own p) d ∧
      d.Intact gone given silent past ∧ d.streamOf[thread]? = some p := by
  unfold streamFor streamOf?
  cases hp : c.streamOf[thread]? with
  | some p => exact ⟨p, c, rfl, obtain_of_some hp, h, hp⟩
  | none =>
    obtain ⟨hsteady, ps, hlogs⟩ := h
    refine ⟨_, _, rfl, obtain_of_none hp, ⟨hsteady.obtain thread, ps, hlogs.obtain thread _⟩, ?_⟩
    rw [getElem?_insert, if_pos rfl]

/-- A record is finished. If the call fails then no stream holds the record. -/
theorem finishEvent (h : c.Intact gone given silent past) (thread : ThreadId)
    (hw : w.fault = none → w.record.Holds r) : (Step.final (finishEvent thread w c)).Intact gone
      (also given (Step.succeeded (finishEvent thread w c) = true)
        (c.streamFor thread w.ordering) r) silent past := by
  unfold Client.finishEvent
  cases hfault : w.fault with
  | some e => exact h.giving fun _ _ => .inl
  | none =>
    cases hordering : w.ordering with
    | none =>
      obtain ⟨p, d, hstream, hobtain, hd, hp⟩ := h.obtain thread
      dsimp only
      rw [appendLocal, Step.bind_of_ok hobtain, hstream]
      exact hd.appendTo (inUse_own hp) (hw hfault)
    | some i =>
      dsimp only
      rw [appendShared, Step.get_bind]
      cases hp : c.streamOf[thread]? with
      | none =>
        rw [streamOf?, hp]
        exact h.appendTo (inUse_shared c i) (hw hfault)
      | some p =>
        have hseal := h.sealStream (inUse_own hp)
        rw [streamOf?, hp]
        dsimp only [Option.map_some]
        cases hresult : Client.sealStream (.own p) c with
        | error e d =>
          rw [hresult] at hseal
          rw [Step.bind_of_error hresult]
          exact hseal.giving fun _ _ => .inl
        | ok _ d =>
          rw [hresult] at hseal
          rw [Step.bind_of_ok hresult]
          exact appendTo hseal (inUse_shared d i) (hw hfault)

/-- The stream that takes a record is one that the thread has from then on. -/
theorem streamOf_finishEvent (h : c.Intact gone given silent past)
    (hordering : w.ordering = none) (hfinish : Client.finishEvent thread w c = .ok ⟨⟩ c') :
    ∃ p, c.streamFor thread none = .own p ∧ c'.streamOf[thread]? = some p := by
  obtain ⟨p, d, hstream, hobtain, hd, hp⟩ := h.obtain thread
  unfold Client.finishEvent at hfinish
  rw [hordering] at hfinish
  cases hfault : w.fault with
  | some e =>
    rw [hfault] at hfinish
    cases hfinish
  | none =>
    rw [hfault] at hfinish
    dsimp only at hfinish
    rw [appendLocal, Step.bind_of_ok hobtain] at hfinish
    have honward := Onward.keeps_appendTo (.own p) w.record d (.refl hd.1.placed)
    rw [hfinish] at honward
    exact ⟨p, hstream, honward.streamOf thread p hp⟩

end Intact

/-- A record is begun, or the reason is told why not. -/
theorem beginEvent_cases (id : MethodId) (ordering : Option UInt8) (c : Client) :
    beginEvent id ordering c = .ok { record := .start id, ordering } c ∨
      ∃ e, beginEvent id ordering c = .error e c := by
  cases hclosed : c.closed with
  | true => exact .inr ⟨_, ensureOpen_bind_of_closed hclosed⟩
  | false =>
    rw [beginEvent_of_open hclosed]
    split
    · exact .inl rfl
    · exact .inr ⟨_, rfl⟩

namespace Intact

theorem dispatch (h : c.Intact gone given silent past) (thread : ThreadId) (id : MethodId)
    (args : List Value) :
    (Step.final (dispatch thread id args c)).Intact gone
      (also given (Step.succeeded (dispatch thread id args c) = true)
        (c.streamFor thread none) ⟨id, args⟩) silent past := by
  unfold Client.dispatch
  rcases beginEvent_cases id none c with hbegin | ⟨e, hbegin⟩
  · obtain ⟨hholds, -, hordering⟩ := EventWriter.foldl_send_of_holds
      (w := { record := .start id, ordering := none })
      (fun _ => RecordBuilder.holds_start id) args
    rw [Step.bind_of_ok hbegin]
    have hfinish := h.finishEvent thread hholds
    rwa [hordering] at hfinish
  · rw [Step.bind_of_error hbegin]
    exact h.giving fun _ _ => .inl

theorem streamOf_dispatch (h : c.Intact gone given silent past) {id : MethodId}
    {args : List Value} (hdispatch : Client.dispatch thread id args c = .ok ⟨⟩ c') :
    ∃ p, c.streamFor thread none = .own p ∧ c'.streamOf[thread]? = some p := by
  obtain ⟨w, d, hbegin, hfinish⟩ := Step.bind_eq_ok_iff.1 hdispatch
  rcases beginEvent_cases id none c with hok | ⟨e, herror⟩
  · cases hok.symm.trans hbegin
    have hordering := (EventWriter.foldl_send_of_holds
      (w := { record := .start id, ordering := none })
      (fun _ => RecordBuilder.holds_start id) args).2.2
    exact h.streamOf_finishEvent hordering hfinish
  · cases herror.symm.trans hbegin

/-! ### Calls that end streams -/

theorem keeps_threadEnd (thread : ThreadId) :
    Keeps (Intact gone given silent past) (threadEnd thread) :=
  .bind keeps_ensureOpen fun _ _ h => h.endStream thread

theorem visit (h : c.Intact gone given silent past) {p : Nat}
    (hp : c.streamOf[thread]? = some p) :
    (Step.final (visit thread (.own p) c)).Intact gone given silent past := by
  rw [visit_eq]
  split
  · exact h.endStream thread
  · exact h.sealStream (inUse_own hp)

/-- Threads that have streams are visited one after the other. -/
theorem visits {entries : List (ThreadId × StreamRef)} (hnodup : (entries.map Prod.fst).Nodup)
    (h : c.Intact gone given silent past)
    (hhas : ∀ entry ∈ entries, ∃ p, entry.2 = .own p ∧ c.streamOf[entry.1]? = some p) :
    (Step.final (entries.forM (fun entry => Client.visit entry.1 entry.2) c)).Intact gone given
      silent past := by
  induction entries generalizing c with
  | nil => exact h
  | cons entry entries ih =>
    obtain ⟨⟨p, href, hp⟩, hrest⟩ := List.forall_mem_cons.1 hhas
    rw [List.map_cons, List.nodup_cons] at hnodup
    have hfirst := h.visit hp
    rw [← href] at hfirst
    refine Step.final_bind_of hfirst fun _ d hd h' => ih hnodup.2 h' fun other hother => ?_
    change Client.visit entry.1 entry.2 c = _ at hd
    obtain ⟨q, hother', hq⟩ := hrest other hother
    have hne : other.1 ≠ entry.1 := fun heq => hnodup.1 (heq ▸ List.mem_map_of_mem hother)
    have hstays := streamOf_visit entry.1 entry.2 c hne
    rw [hd] at hstays
    exact ⟨q, hother', hstays.trans hq⟩

theorem keeps_sealEvents : Keeps (Intact gone given silent past) sealEvents := by
  intro c h
  rw [sealEvents, Step.get_bind]
  refine Step.final_bind_of (visits c.nodup_ownRefs h fun entry hentry => mem_ownRefs.1 hentry)
    fun _ d _ h' => ?_
  have hshared : Keeps (Intact gone given silent past) (sharedRefs.forM Client.sealStream) :=
    .forM_of_mem fun ref href d h => h.sealStream (inUse_of_mem_sharedRefs href)
  exact hshared d h'

theorem keeps_flush : Keeps (Intact gone given silent past) flush :=
  .bind keeps_ensureOpen fun _ => .bind keeps_sealEvents fun _ _ h => h.sealFrees

theorem keeps_objectFreed (t : Token) : Keeps (Intact gone given silent past) (objectFreed t) := by
  refine .bind keeps_ensureOpen fun _ => .bind (fun _ h => h.onFrees t) fun _ =>
    .bind .get fun c => ?_
  split
  · exact .bind keeps_sealEvents fun _ _ h => h.sealFrees
  · exact .pure _

/-! ### The end of the session -/

theorem closeAll (h : c.Intact gone given silent past) :
    (Step.final (closeAll c)).Intact gone given silent past := by
  have hcloses {α : Type} {refs : List α} {g : α → StreamRef} (hrefs : ∀ a ∈ refs, c.InUse (g a)) :
      Keeps (fun d => d.Intact gone given silent past ∧ d.holdings = c.holdings)
        (refs.forM fun a => Client.closeStream (g a)) :=
    Keeps.forM_of_mem fun a ha d ⟨hd, hholdings⟩ =>
      ⟨hd.closeStream ((hrefs a ha).holdings hholdings),
        (holdings_closeStream (g a) d).trans hholdings⟩
  have hown : ∀ entry ∈ c.ownRefs, c.InUse entry.2 := fun entry hentry => by
    obtain ⟨p, href, hp⟩ := mem_ownRefs.1 hentry
    rw [href]
    exact ⟨entry.1, hp⟩
  rw [Client.closeAll, Step.get_bind]
  refine (Keeps.bind (hcloses hown) (fun _ => .bind (hcloses fun ref => inUse_of_mem_sharedRefs)
    fun _ => .bind (.modify fun d hd => ?_) fun _ => .bind (fun d hd => ⟨hd.1.sealFrees, ?_⟩)
    fun _ d hd => ⟨hd.1.tellMessage (.inr rfl), ?_⟩) c ⟨h, rfl⟩).1
  · exact ⟨hd.1.same ⟨rfl, rfl, rfl⟩ hd.1.1.frees rfl, hd.2⟩
  · exact (sealFrees_sends d).holdings.trans hd.2
  · exact (enqueueMessage_sends .close d).holdings.trans hd.2

theorem threadGone (h : c.Intact gone given silent past) (thread : ThreadId) :
    (c.threadGone thread).Intact (fun p => gone p ∨ c.streamOf[thread]? = some p) given silent
      past := by
  obtain ⟨hsteady, ps, hlogs⟩ := h
  refine ⟨hsteady.threadGone thread, ps, ?_⟩
  unfold Client.threadGone
  split
  · exact hlogs.setStream _ _
  · exact hlogs

end Intact

/-! ### Frames -/

/-- What waits is sent before what comes later. -/
theorem lasting_waiting (frames : List Bytes) : Lasting (frames <+: ·.outbox.waiting.toList) where
  setStream _ ref _ h := by cases ref <;> exact h
  obtained _ _ _ h := h
  detached _ _ h := h
  frees _ _ h := h
  methods _ _ h := h
  push c frame _ h := by
    rw [Fifo.toList_push]
    exact h.trans (List.prefix_append _ _)

end Client

end TraceRelay
