import TraceRelay.Proofs.Client.Order
import TraceRelay.Proofs.Session.EndToEnd
import TraceRelay.Proofs.Session.References
import TraceRelay.Proofs.Session.Whole

/-!
# Records name live objects

Records that were accepted before an object was reported as freed are delivered while the object is
live at the other end as well: the message that tells that the object is gone comes behind them, and
until then nothing makes the receiving side give up the object. So all of them name the same live
replica.

## Main definitions

* `StandsAmong` : an entry of a list stands among those that come first on its stream.

## Main results

* `Heap.Consistent.exists_live` : the only live object of an id before it is removed.
* `Run.Completed.delivers_live` : what analyses are shown of objects that were not yet freed.
-/

namespace TraceRelay

/-! ### Objects before they are removed -/

/-- **An id has only one live object** before it is removed. -/
theorem Heap.Consistent.exists_live {h : Heap} (hc : h.Consistent) (id : ObjectId)
    (calls : List HeapCall) :
    ∃ o, ∀ made, made <+: calls → (∀ c ∈ made, ¬ c.Removes id) → ∀ ref,
      (h.after made).standing id = .live ref → ref = o := by
  by_cases hlive : ∃ made, made <+: calls ∧ (∀ c ∈ made, ¬ c.Removes id) ∧
      ∃ ref, (h.after made).standing id = .live ref
  · obtain ⟨made, hmade, hkeeps, o, ho⟩ := hlive
    -- Of two moments the later one still finds the object of the earlier one.
    have hlater {first later : List HeapCall} (hbefore : first <+: later)
        (hkeeps : ∀ c ∈ later, ¬ c.Removes id) {x y : ObjectRef}
        (hx : (h.after first).standing id = .live x)
        (hy : (h.after later).standing id = .live y) : x = y := by
      obtain ⟨rest, rfl⟩ := hbefore
      have hfound := ((hc.after first).ref?_after_of_live hx rest).2
        fun c hc => hkeeps c (List.mem_append_right _ hc)
      rw [← Heap.after_append, hy] at hfound
      exact (Option.some.inj hfound).symm
    refine ⟨o, fun made' hmade' hkeeps' ref href => ?_⟩
    rcases List.prefix_or_prefix_of_prefix hmade' hmade with hbefore | hbefore
    · exact hlater hbefore hkeeps href ho
    · exact (hlater hbefore hkeeps' ho href).symm
  · exact ⟨0, fun made hmade hkeeps ref href => absurd ⟨made, hmade, hkeeps, ref, href⟩ hlive⟩

/-! ### Entries and actions -/

/-- The entry at a position of a list stands among those that come first on its stream: there are
more of them than entries before it on the stream. -/
def StandsAmong (first entries : List (StreamRef × Record)) (n : Nat) : Prop :=
  ∃ ref r, entries[n]? = some (ref, r) ∧
    (recordsFor ref (entries.take n)).length < (recordsFor ref first).length

/-- Where all entries come first, each of them stands among those that do. -/
theorem standsAmong_of_recordsFor {first entries : List (StreamRef × Record)}
    (h : ∀ ref, recordsFor ref entries = recordsFor ref first) {n : Nat} {ref : StreamRef}
    {r : Record} (hn : entries[n]? = some (ref, r)) : StandsAmong first entries n := by
  have hnext : entries.take (n + 1) = entries.take n ++ [(ref, r)] := by
    rw [List.take_add_one, hn, Option.toList_some]
  have hbefore : recordsFor ref (entries.take (n + 1)) <+: recordsFor ref entries :=
    (List.take_prefix (n + 1) entries).filterMap _
  refine ⟨ref, r, hn, ?_⟩
  rw [← h ref]
  refine Nat.lt_of_lt_of_le ?_ hbefore.length_le
  rw [hnext, recordsFor_append, recordsFor_singleton, if_pos rfl, List.length_append]
  exact Nat.lt_succ_self _

/-- The actions of a message ask for its records to be delivered. -/
theorem Parcel.Sound.record?_actions {p : Parcel} (h : p.Sound) :
    p.message.actions.filterMap Action.record? =
      p.entries.map fun entry => (entry.1.ordering, entry.2) := by
  obtain ⟨source, message⟩ := p
  cases message with
  | analyze ordering records =>
    obtain ⟨-, ref, rfl, rfl⟩ := h
    simp [Message.actions, Parcel.entries, Message.records, List.filterMap_map, Function.comp_def,
      Action.record?]
  | objectFree tokens =>
    have hnone : (tokens.map Action.free).filterMap Action.record? = [] := by
      rw [List.filterMap_map]
      exact List.filterMap_eq_nil_iff.2 fun _ _ => rfl
    cases source <;> exact hnone
  | close => exact h.elim
  | _ => cases source <;> rfl

/-- An element of a joined list stands in one of its parts. -/
private theorem exists_of_getElem?_flatMap {α β : Type} {f : α → List β} {xs : List α} {n : Nat}
    {b : β} (h : (xs.flatMap f)[n]? = some b) :
    ∃ before x behind front back, xs = before ++ x :: behind ∧ f x = front ++ b :: back ∧
      n = (before.flatMap f).length + front.length := by
  obtain ⟨hlt, rfl⟩ := List.getElem?_eq_some_iff.1 h
  have hsplit : xs.flatMap f =
      (xs.flatMap f).take n ++ (xs.flatMap f)[n] :: (xs.flatMap f).drop (n + 1) := by
    rw [List.getElem_cons_drop, List.take_append_drop]
  obtain ⟨before, x, behind, front, back, hxs, hx, hfront, -⟩ := exists_of_flatMap_eq hsplit
  have hlength := congrArg List.length hfront
  rw [List.length_take_of_le (Nat.le_of_lt hlt), List.length_append] at hlength
  exact ⟨before, x, behind, front, back, hxs, hx, hlength⟩

private theorem mem_tokens_of_free {p : Parcel} {t : Token} (hmem : .free t ∈ p.message.actions) :
    t ∈ p.tokens := by
  obtain ⟨source, message⟩ := p
  cases message with
  | objectFree tokens =>
    obtain ⟨t', ht', heq⟩ := List.mem_map.1 hmem
    cases heq
    exact ht'
  | analyze ordering records =>
    obtain ⟨r, -, heq⟩ := List.mem_map.1 hmem
    cases heq
  | registerMethod | classInfo | stringInfo | threadInfo => cases List.mem_singleton.1 hmem
  | close | threadEnd => cases hmem

/-- A record that a message carries stands among the records of its stream. -/
private theorem eq_of_entries {p : Parcel} (h : p.Sound) {ref : StreamRef} {r : Record}
    {xs ys : List (StreamRef × Record)} (hentries : p.entries = xs ++ (ref, r) :: ys) :
    ∃ front back, p = ⟨some ref, .analyze ref.ordering (front ++ r :: back)⟩ ∧
      xs = front.map fun r => (ref, r) := by
  obtain ⟨source, message⟩ := p
  cases source with
  | none => cases xs <;> cases hentries
  | some other =>
    obtain ⟨front, rest, hrecords, rfl, hrest⟩ := List.map_eq_append_iff.1 hentries
    obtain ⟨r', back, rfl, heq, -⟩ := List.map_eq_cons_iff.1 hrest
    cases heq
    cases message with
    | analyze ordering records =>
      obtain ⟨-, ref', hsource, rfl⟩ := h
      cases hsource
      exact ⟨front, back, by rw [← hrecords]; rfl, rfl⟩
    | _ => cases front <;> cases hrecords

/-- **Where a record stands among the actions.** If an id is removed before the record is delivered
then a message that tells so comes before it. -/
private theorem split_at_entry {parcels : List Parcel} (hsound : ∀ p ∈ parcels, p.Sound) {n : Nat}
    {ref : StreamRef} {r : Record} (hn : (parcels.flatMap Parcel.entries)[n]? = some (ref, r)) :
    ∃ before behind, parcels.flatMap (fun p => p.message.actions) =
        before ++ .deliver ref.ordering r :: behind ∧
      (before.filterMap Action.record?).length = n ∧
      ∀ id, ∀ c ∈ (before ++ [.deliver ref.ordering r]).flatMap Action.heapCalls, c.Removes id →
        ∃ first p rest, parcels = first ++ p :: rest ∧ p.Frees id ∧
          (first.flatMap (Parcel.recordsOn ref)).length ≤
            (recordsFor ref ((parcels.flatMap Parcel.entries).take n)).length := by
  obtain ⟨ps, p, qs, xs, ys, rfl, hentries, rfl⟩ := exists_of_getElem?_flatMap hn
  obtain ⟨front, back, rfl, rfl⟩ := eq_of_entries (hsound p (by simp)) hentries
  have hcount : recordsFor ref (((ps ++ ⟨some ref, .analyze ref.ordering (front ++ r :: back)⟩ ::
      qs).flatMap Parcel.entries).take ((ps.flatMap Parcel.entries).length +
        (front.map fun r => (ref, r)).length)) =
      ps.flatMap (Parcel.recordsOn ref) ++ recordsFor ref (front.map fun r => (ref, r)) := by
    rw [List.flatMap_append, List.flatMap_cons, hentries, List.take_length_add_append,
      List.append_assoc, List.take_left, recordsFor_append, recordsFor_flatMap_entries]
  refine ⟨ps.flatMap (fun p => p.message.actions) ++ front.map (.deliver ref.ordering),
    back.map (.deliver ref.ordering) ++ qs.flatMap (fun p => p.message.actions), ?_, ?_,
    fun id c hc hremoves => ?_⟩
  · simp [Message.actions]
  · have hps : (ps.flatMap fun p => p.message.actions).filterMap Action.record? =
        (ps.flatMap Parcel.entries).map fun entry => (entry.1.ordering, entry.2) := by
      rw [List.filterMap_flatMap, List.map_flatMap]
      exact List.flatMap_congr fun p hp => (hsound p (by simp [hp])).record?_actions
    have hfront : (front.map (Action.deliver ref.ordering)).filterMap Action.record? =
        front.map fun r => (ref.ordering, r) := by
      rw [List.filterMap_map]
      exact congrFun (List.filterMap_eq_map (f := fun r => (ref.ordering, r))) front
    rw [List.filterMap_append, hps, hfront, List.length_append, List.length_map, List.length_map,
      List.length_map]
  · obtain ⟨a, ha, hca⟩ := List.mem_flatMap.1 hc
    obtain ⟨t, rfl, hnames⟩ := Action.free_of_removes hca hremoves
    obtain ⟨p, hp, hfree⟩ : ∃ p ∈ ps, .free t ∈ p.message.actions := by
      simpa using ha
    obtain ⟨first, rest, rfl⟩ := List.mem_iff_append.1 hp
    refine ⟨first, p, _, by rw [List.append_assoc, List.cons_append],
      ⟨t, mem_tokens_of_free hfree, hnames⟩, ?_⟩
    rw [hcount, List.flatMap_append, List.length_append, List.length_append, Nat.add_assoc]
    exact Nat.le_add_right _ _

/-! ### Sessions -/

variable {σ : Type}

/-- An argument that names an id with a live object is this object. -/
private theorem Invocation.Carries.live {heap : Heap} {i : Invocation} {ordering : UInt64}
    {r : Record} (h : i.Carries heap ordering r) (hc : heap.Consistent) {id : ObjectId}
    {o : ObjectRef} (hlive : ∀ ref, (heap.standing id).ref? = some ref → heap.standing id = .live o)
    {k : Nat} {v : Value} {t : Token} (hv : r.args[k]? = some v) (ht : v.token? = some t)
    (hnames : t.Names id) :
    i.args[k]? = some (.object (some o)) ∧
      ∃ replica, heap.object? o = some replica ∧ replica.id = id ∧ replica.isDetached = false := by
  obtain ⟨ref, harg, href⟩ := h.object hv ht hnames
  have hs := hlive ref href
  rw [hs] at href
  cases href
  obtain ⟨handle, hx, hplace, -⟩ := hc.identity?_of_live hs
  obtain ⟨replica, hreplica, hid, rfl⟩ := Heap.identity?_eq_some_iff.1 hx
  exact ⟨harg, replica, hreplica, hid, by simpa [Replica.isDetached] using hplace⟩

/-- **What analyses are shown of the records of messages.** In each heap that an analysis is shown
with a record that comes before the end of an object, the id of the object stands for one and the
same live object, should it stand for any. -/
private theorem Host.shown_live {parcels : List Parcel} (hsound : ∀ p ∈ parcels, p.Sound)
    {host host' : Host σ} (hc : host.heap.Consistent)
    (hacts : Host.actAll (parcels.flatMap fun p => p.message.actions) host = .ok () host')
    (id : ObjectId) (hnew : ∀ found, host.heap.standing id ≠ .freed found)
    {early : List (StreamRef × Record)} (hbehind : FreesBehind id early parcels) :
    ∃ o, ∀ n heap i, ((host.tellsAll (parcels.flatMap fun p => p.message.actions)).filterMap
        Round.handled?)[n]? = some (heap, i) →
      StandsAmong early (parcels.flatMap Parcel.entries) n →
      heap.Consistent ∧
        ∀ ref, (heap.standing id).ref? = some ref → heap.standing id = .live o := by
  obtain ⟨o, ho⟩ := hc.exists_live id
    ((parcels.flatMap fun p => p.message.actions).flatMap Action.heapCalls)
  refine ⟨o, fun n heap i hshown ⟨ref, record, hentry, hless⟩ => ?_⟩
  obtain ⟨before, behind, hsplit, hlength, hremoved⟩ := split_at_entry hsound hentry
  rw [hsplit] at hacts hshown ho
  -- The heap that is shown comes out of calls that did not remove the id.
  obtain ⟨made, hmade⟩ : ∃ made,
      made = (before ++ [Action.deliver ref.ordering record]).flatMap Action.heapCalls := ⟨_, rfl⟩
  have hheap : heap = host.heap.after made := by
    obtain ⟨position, i', hi', -⟩ := Host.delivery_of_split hc hacts
    rw [hlength, ← hmade] at hi'
    rw [← Round.map_delivery?, List.getElem?_map, hi'] at hshown
    cases hshown
    rfl
  have hkeeps : ∀ c ∈ made, ¬ c.Removes id := by
    intro c hc hremoves
    rw [hmade] at hc
    obtain ⟨first, p, rest, rfl, hfrees, hcount⟩ := hremoved id c hc hremoves
    have hbefore := (hbehind first p rest rfl hfrees ref).length_le
    omega
  have hbefore : made <+: (before ++ Action.deliver ref.ordering record :: behind).flatMap
      Action.heapCalls := by
    refine ⟨behind.flatMap Action.heapCalls, ?_⟩
    rw [hmade, ← List.flatMap_append, ← List.append_cons]
  have hnot := hc.not_freed_after hnew hkeeps
  rw [hheap]
  refine ⟨hc.after made, fun ref href => ?_⟩
  cases hs : (host.heap.after made).standing id with
  | unknown =>
    rw [hs] at href
    cases href
  | live ref' => rw [ho made hbefore hkeeps ref' hs]
  | freed found => exact absurd hs (hnot found)

namespace Run

variable {settings : ClientSettings} {calls : List Call} {r : Run} {frames : List Bytes}

/-- **Records name live objects.** A session that ended in order at one end is received at the other
end, in any chunks and with any limits, and ends well there. Then each record that was accepted
reaches an analysis once, stream by stream in the order in which they were accepted, and its
arguments stand for its values. For each object id there is one replica: every argument that names
the id, in a record that was accepted before the first call that reported the id as freed, is this
replica, and it is not detached when the record is handled. -/
theorem Completed.delivers_live (h : Completed settings calls r frames) (registry : Registry σ)
    (state : σ) (maxFrame maxFreed : Nat)
    {arrivals : List (Except TransportError Bytes)}
    (hbytes : Session.arrived arrivals = frames.flatten) {summary : Summary}
    (hok : ((Session.start registry state maxFrame maxFreed).run arrivals).1 = .ok summary) :
    let written := (Session.start registry.journaled (state, []) maxFrame maxFreed).run arrivals
    ∃ (rounds : List Round) (delivered : List (StreamRef × Record)),
      written.2.host.state.2 = rounds.flatMap (Round.entries registry.installed.size) ∧
      (∀ ref, recordsFor ref delivered = recordsFor ref r.accepted) ∧
      List.Forall₂ (fun (entry : StreamRef × Record) (shown : Heap × Invocation) =>
          shown.2.Carries shown.1 entry.1.ordering entry.2)
        delivered (rounds.filterMap Round.handled?) ∧
      ∀ id, ∃ o, ∀ n ref record heap i, delivered[n]? = some (ref, record) →
        (rounds.filterMap Round.handled?)[n]? = some (heap, i) →
        StandsAmong (beforeFree settings calls id).accepted delivered n →
        ∀ (k : Nat) v t, record.args[k]? = some v → v.token? = some t → t.Names id →
          i.args[k]? = some (.object (some o)) ∧
            ∃ replica, heap.object? o = some replica ∧ replica.id = id ∧
              replica.isDetached = false := by
  intro written
  obtain ⟨parcels, hframes, hsound, hrecords, hbehind⟩ := h.freesBehind
  have hopen : Message.close ∉ parcels.map (·.message) := by
    intro hmem
    obtain ⟨p, hp, hmessage⟩ := List.mem_map.1 hmem
    have hfalse := hsound p hp
    rwa [Parcel.Sound, hmessage] at hfalse
  have hes : List.Forall₂ (fun (m : Message) e => m.toBytes = .ok e)
      ((parcels ++ [(⟨none, .close⟩ : Parcel)]).map (·.message)) frames :=
    List.forall₂_map_left_iff.2 hframes
  rw [List.map_append, List.map_singleton] at hes
  obtain ⟨⟨host', hacts⟩, hrounds⟩ := Session.actAll_of_run hes hopen hbytes hok
  obtain ⟨-, hwritten⟩ := Session.run_journaled registry state maxFrame maxFreed arrivals
  rw [hrounds] at hwritten
  have hc : (Host.start registry state maxFreed).heap.Consistent := .empty maxFreed
  rw [List.flatMap_map] at hacts hwritten
  have hcarries := Host.actAll_carries hc hacts
  have hasked : (parcels.flatMap fun p => p.message.actions).filterMap Action.record? =
      (parcels.flatMap Parcel.entries).map fun entry => (entry.1.ordering, entry.2) := by
    rw [List.filterMap_flatMap, List.map_flatMap]
    exact List.flatMap_congr fun p hp => (hsound p hp).record?_actions
  rw [hasked, List.forall₂_map_left_iff] at hcarries
  have hlive (id : ObjectId) := Host.shown_live hsound hc hacts id
    (fun found => by simp [Host.start, Heap.standing, Heap.findLive?]) (hbehind id)
  generalize (Host.start registry state maxFreed).tellsAll
    (parcels.flatMap fun p => p.message.actions) = told at hwritten hcarries hlive
  have htold : (told ++ [Round.exited]).filterMap Round.handled? =
      told.filterMap Round.handled? := by
    rw [List.filterMap_append]
    exact List.append_nil _
  refine ⟨told ++ [.exited], parcels.flatMap Parcel.entries,
    congrArg (fun host => host.state.2) hwritten, fun ref => ?_, ?_, fun id => ?_⟩
  · rw [recordsFor_flatMap_entries, hrecords]
  · rw [htold]
    exact hcarries
  · obtain ⟨o, ho⟩ := hlive id
    refine ⟨o, fun n ref record heap i hentry hshown hearly k v t hv ht hnames => ?_⟩
    rw [htold] at hshown
    obtain ⟨hc, hstands⟩ := ho n heap i hshown hearly
    obtain ⟨shown, hshown', hcarried⟩ := getElem?_of_forall₂ hcarries hentry
    cases hshown.symm.trans hshown'
    exact hcarried.live hc hstands hv ht hnames

/-! ### An object that two threads name -/

/-- Two threads name an object. It is reported as freed while both records are held back. -/
def sharedObject : List Call :=
  [.register "canvas.draw", .dispatch 0 1 [.object ⟨5⟩], .dispatch 1 1 [.object ⟨5⟩],
    .objectFreed ⟨5⟩, .flush]

/-- The run in which two threads name an object. -/
def sharedObjectRun : Run := play { client := { settings := {} } } sharedObject

/-- What this session hands to the transport. -/
def sharedObjectFrames : List Bytes :=
  [[3, 18, 0, 0, 0, 1, 0, 16, 11, 0, 0, 0, 99, 97, 110, 118, 97, 115, 46, 100, 114, 97, 119],
    [1, 24, 0, 0, 0, 0, 1, 0, 0, 0, 0, 0, 0, 1, 0, 0, 0, 1, 0, 1, 32, 5, 0, 0, 0, 0, 0, 0, 0],
    [1, 24, 0, 0, 0, 1, 1, 0, 0, 0, 0, 0, 0, 1, 0, 0, 0, 1, 0, 1, 32, 5, 0, 0, 0, 0, 0, 0, 0],
    [2, 12, 0, 0, 0, 1, 0, 0, 0, 5, 0, 0, 0, 0, 0, 0, 0],
    [0, 0, 0, 0, 0]]

private theorem step_flush_of_idle {r : Run} (h : r.client.SharedIdle) :
    r.step .flush = r.perform Client.flushThreads fun _ r => r := by
  rw [step, perform, perform, h.flush]

/-- The flush visits only the streams of the two threads. -/
private theorem sharedObjectRun_eq : sharedObjectRun =
    (play { client := { settings := {} } } (sharedObject.take 4)).perform
      Client.flushThreads fun _ r => r := by
  have hshared : (play { client := { settings := {} } } (sharedObject.take 4)).client.shared =
      ({ settings := {} } : Client).shared := rfl
  have hidle : (play { client := { settings := {} } } (sharedObject.take 4)).client.SharedIdle := by
    rw [Client.SharedIdle, hshared]
    exact Client.sharedIdle_start {}
  have hcalls : sharedObjectRun =
      play { client := { settings := {} } } (sharedObject.take 4 ++ [.flush]) := rfl
  rw [hcalls, play, List.foldl_append, List.foldl_cons, List.foldl_nil]
  exact step_flush_of_idle hidle

private theorem sharedIdle_sharedObjectRun : sharedObjectRun.client.SharedIdle := by
  have hshared : sharedObjectRun.client.shared = ({ settings := {} } : Client).shared := by
    rw [sharedObjectRun_eq]
    rfl
  rw [Client.SharedIdle, hshared]
  exact Client.sharedIdle_start {}

set_option maxRecDepth 100000 in
theorem sharedObject_run :
    (sharedObjectRun.faults = [] ∧
      sharedObjectRun.accepted = [(.own 0, ⟨1, [.object ⟨5⟩]⟩), (.own 1, ⟨1, [.object ⟨5⟩]⟩)] ∧
      (beforeFree {} sharedObject 5).accepted = sharedObjectRun.accepted) ∧
    (∀ s ∈ sharedObjectRun.client.own.toList, s.isIdle = true) ∧
    sharedObjectRun.client.outbox.accepting = true ∧
    sharedObjectRun.client.outbox.failure = none ∧
    sharedObjectRun.client.frees.take.1 = .ok none ∧
    sharedObjectRun.sent ++ (sharedObjectRun.client.outbox.waiting.toList ++ [] ++
      [MessageKind.close.byteOf :: [0, 0, 0, 0]]) = sharedObjectFrames := by
  rw [sharedObjectRun_eq]
  decide +kernel

theorem sharedObject_completed :
    Completed {} sharedObject sharedObjectRun sharedObjectFrames := by
  obtain ⟨⟨hfaults, -⟩, hown, haccepting, hfailure, hfreed, hframes⟩ := sharedObject_run
  have hshared : ∀ s ∈ sharedObjectRun.client.shared.toList, s.isIdle = true := fun s hs => by
    rw [RecordStream.isIdle, sharedIdle_sharedObjectRun s hs]
  obtain ⟨c, hend⟩ := Client.shutdown_of_idle ⟨hshared, hown⟩ haccepting hfreed
    (ending_play { client := { settings := {} } } sharedObject) hfailure
  refine ⟨⟨_, rfl, rfl⟩, ?_, _, _, c, hend, hframes.symm⟩
  rw [hfaults]
  exact List.not_mem_nil

/-- Both analyses are shown the same live replica. -/
theorem delivers_live_sharedObject :
    Completed {} sharedObject sharedObjectRun sharedObjectFrames ∧
    ∃ (rounds : List Round) (o : ObjectRef),
      ((Session.start canvasRegistry.journaled ({}, []) 64 8).run
        [.ok sharedObjectFrames.flatten]).2.host.state.2 = rounds.flatMap (Round.entries 1) ∧
      (rounds.filterMap Round.handled?).length = 2 ∧
      ∀ heap i, (heap, i) ∈ rounds.filterMap Round.handled? →
        i.args[0]? = some (.object (some o)) ∧
          ∃ replica, heap.object? o = some replica ∧ replica.id = 5 ∧
            replica.isDetached = false := by
  obtain ⟨⟨-, haccepted, hearly⟩, -⟩ := sharedObject_run
  have hok : ((Session.start canvasRegistry {} 64 8).run
      [.ok sharedObjectFrames.flatten]).1.isOk = true := by
    decide +kernel
  obtain ⟨summary, hsummary⟩ : ∃ summary, ((Session.start canvasRegistry {} 64 8).run
      [.ok sharedObjectFrames.flatten]).1 = .ok summary := by
    cases hrun : ((Session.start canvasRegistry {} 64 8).run
      [.ok sharedObjectFrames.flatten]).1 with
    | ok summary => exact ⟨summary, rfl⟩
    | error e =>
      rw [hrun] at hok
      cases hok
  obtain ⟨rounds, delivered, hjournal, hrecords, hcarries, hlive⟩ :=
    sharedObject_completed.delivers_live canvasRegistry {} 64 8
      (List.append_nil _) hsummary
  have hperm := perm_of_recordsFor hrecords
  obtain ⟨o, ho⟩ := hlive 5
  refine ⟨sharedObject_completed, rounds, o, hjournal, ?_, fun heap i hmem => ?_⟩
  · rw [← hcarries.length_eq, hperm.length_eq, haccepted]
    rfl
  · obtain ⟨n, hn⟩ := List.mem_iff_getElem?.1 hmem
    obtain ⟨⟨ref, record⟩, hentry⟩ : ∃ entry, delivered[n]? = some entry := by
      obtain ⟨hlt, -⟩ := List.getElem?_eq_some_iff.1 hn
      exact ⟨_, List.getElem?_eq_getElem (hcarries.length_eq ▸ hlt)⟩
    have hrecord : record = ⟨1, [.object ⟨5⟩]⟩ := by
      have hmem := hperm.mem_iff.1 (List.mem_of_getElem? hentry)
      rw [haccepted] at hmem
      simp only [List.mem_cons, Prod.mk.injEq, List.not_mem_nil, or_false, ← or_and_right] at hmem
      exact hmem.2
    have hstands := standsAmong_of_recordsFor hrecords hentry
    rw [← hearly] at hstands
    exact ho n ref record heap i hentry hn hstands 0 (.object ⟨5⟩) ⟨5⟩ (by rw [hrecord]; rfl) rfl
      (by decide)

end Run

end TraceRelay
