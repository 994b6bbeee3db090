import Mathlib.Data.List.Induction
import Mathlib.Data.List.TakeWhile
import TraceRelay.Proofs.Client.Tracked

/-!
# Freed tokens leave behind the records

When an object is reported as freed, records that name it may still be held back. Freed tokens leave
only when all records that are held back have left before them. So a message that tells that an
object is gone comes behind all records that were accepted before the object was reported as freed.

## Main definitions

* `FreesBehind` : messages in which the end of an object comes behind given records.
* `Call.Frees`, `Run.beforeFree` : the call that reports an object as freed, and the run before it.

## Main results

* `Ledger.held_sealEvents` : when all records have gone out, nothing is held back.
* `Run.Tracks.freesBehind_step` : one call.
* `Run.Completed.freesBehind` : a session from its beginning to its end.
-/

namespace TraceRelay

/-- A message tells that the object of an id is gone. -/
def Parcel.Frees (id : ObjectId) (p : Parcel) : Prop := ∃ t ∈ p.tokens, t.Names id

/-- A message that tells that the object of an id is gone comes behind all of the given records,
stream by stream. -/
def FreesBehind (id : ObjectId) (early : List (StreamRef × Record)) (parcels : List Parcel) :
    Prop :=
  ∀ before p behind, parcels = before ++ p :: behind → p.Frees id →
    ∀ ref, recordsFor ref early <+: before.flatMap (Parcel.recordsOn ref)

namespace FreesBehind

variable {id : ObjectId} {early : List (StreamRef × Record)} {parcels : List Parcel}

theorem of_none (h : ∀ p ∈ parcels, ¬ p.Frees id) : FreesBehind id early parcels := by
  rintro before p behind rfl hp
  exact absurd hp (h p (by simp))

/-- One more message. -/
theorem concat (h : FreesBehind id early parcels) {p : Parcel}
    (hp : p.Frees id → ∀ ref, recordsFor ref early <+: parcels.flatMap (Parcel.recordsOn ref)) :
    FreesBehind id early (parcels ++ [p]) := by
  intro before q behind hsplit hq
  rcases List.eq_nil_or_concat behind with rfl | ⟨behind, last, rfl⟩
  · obtain ⟨rfl, hlast⟩ := List.append_inj' hsplit rfl
    cases hlast
    exact hp hq
  · rw [List.concat_eq_append, ← List.cons_append, ← List.append_assoc] at hsplit
    obtain ⟨rfl, -⟩ := List.append_inj' hsplit rfl
    exact h before q behind rfl hq

theorem of_append {behind : List Parcel} (h : FreesBehind id early (parcels ++ behind)) :
    FreesBehind id early parcels := by
  rintro before p rest rfl hp
  exact h before p (rest ++ behind) (by simp) hp

end FreesBehind

namespace Ledger

variable {l l' : Ledger} {id : ObjectId} {early : List (StreamRef × Record)}

/-! ### Nothing is held back -/

/-- Streams that are sent hold nothing back. -/
private theorem held_foldl_sealStream (refs : List StreamRef) (l : Ledger) (ref : StreamRef) :
    ((refs.foldl (fun l ref => l.sealStream ref) l).pages ref).held =
      if ref ∈ refs then [] else (l.pages ref).held := by
  induction refs generalizing l with
  | nil => rfl
  | cons first refs ih =>
    rw [List.foldl_cons, ih, pages_sealStream]
    by_cases hmem : ref ∈ refs
    · rw [if_pos hmem, if_pos (List.mem_cons_of_mem _ hmem)]
    · rw [if_neg hmem]
      by_cases heq : ref = first
      · rw [if_pos heq, if_pos (heq ▸ List.mem_cons_self)]
      · rw [if_neg heq, if_neg fun h => (List.mem_cons.1 h).elim heq hmem]

/-- A stream that holds nothing back does not begin to when threads are visited. -/
private theorem held_visit {ref : StreamRef} (h : (l.pages ref).held = [])
    (entry : ThreadId × StreamRef) : ((l.visit entry).pages ref).held = [] := by
  rcases l.visit_cases entry with ⟨-, hvisit⟩ | ⟨-, hvisit⟩ <;> rw [hvisit]
  · rw [pages_endStream]
    split
    · rfl
    · exact h
  · rw [pages_sealStream]
    split
    · rfl
    · exact h

/-- A thread that was visited holds nothing back, or has lost its stream. -/
private theorem held_of_visited {entries : List (ThreadId × StreamRef)} (l : Ledger)
    {thread : ThreadId} {p : Nat} (hmem : (thread, StreamRef.own p) ∈ entries)
    (hp : (entries.foldl visit l).streamOf[thread]? = some p) :
    ((entries.foldl visit l).pages (.own p)).held = [] := by
  induction entries using List.reverseRecOn with
  | nil => cases hmem
  | append_singleton entries entry ih =>
    rw [List.foldl_concat] at hp ⊢
    rcases List.mem_append.1 hmem with hmem | hmem
    · exact held_visit (ih hmem (streamOf_of_visit _ thread hp)) entry
    · obtain rfl := List.mem_singleton.1 hmem
      generalize entries.foldl visit l = l' at hp ⊢
      rcases l'.visit_cases (thread, .own p) with ⟨-, hvisit⟩ | ⟨-, hvisit⟩ <;>
        rw [hvisit] at hp ⊢
      · rw [streamOf_endStream, if_pos rfl] at hp
        cases hp
      · rw [pages_sealStream, if_pos rfl]

/-- **When all records have gone out, nothing is held back.** -/
theorem held_sealEvents (h : l.Sound) (ref : StreamRef) : (l.sealEvents.pages ref).held = [] := by
  rw [sealEvents, held_foldl_sealStream]
  cases ref with
  | shared i => rw [if_pos (mem_sharedRefs i)]
  | own p =>
    have hvisited : ((l.ownRefs.foldl visit l).pages (.own p)).held = [] := by
      have hmoves : l.Moves (l.ownRefs.foldl visit l) :=
        List.foldlRecOn (motive := l.Moves) _ _ .refl fun _ h entry _ => h.visit entry
      by_cases hp : ∃ t : ThreadId, (l.ownRefs.foldl visit l).streamOf[t]? = some p
      · obtain ⟨t, ht⟩ := hp
        have hbefore : l.streamOf[t]? = some p :=
          List.foldlRecOn (motive := fun l' : Ledger => l'.streamOf[t]? = some p →
            l.streamOf[t]? = some p) _ _ id (fun l' ih entry _ h =>
              ih (streamOf_of_visit l' t h)) ht
        exact held_of_visited l (mem_ownRefs hbefore) ht
      · exact (h.moves hmoves).idle p fun t ht => hp ⟨t, ht⟩
    rw [hvisited, ite_self]

/-! ### Where messages go -/

/-- The outbox of a ledger grows by messages that free nothing. -/
inductive Quiet (l : Ledger) : Ledger → Prop
  | refl : Quiet l l
  | post {l' : Ledger} (h : Quiet l l') {p : Parcel} (hp : p.tokens = []) : Quiet l (l'.post p)
  | same {l' l'' : Ledger} (h : Quiet l l') (hparcels : l''.parcels = l'.parcels) : Quiet l l''

namespace Quiet

theorem sealStream (h : Quiet l l') (ref : StreamRef) : Quiet l (l'.sealStream ref) := by
  rcases l'.sealStream_cases ref with ⟨-, hsealed⟩ | ⟨-, hsealed⟩ <;> rw [hsealed]
  · exact h
  · have hpage : Quiet l (l'.setPage ref { l'.pages ref with held := [] }) := h.same rfl
    refine hpage.post ?_
    rfl

theorem closeStream (h : Quiet l l') (ref : StreamRef) : Quiet l (l'.closeStream ref) := by
  have hpage : Quiet l (l'.setPage ref { l'.pages ref with closed := true }) := h.same rfl
  exact hpage.sealStream ref

theorem endStream (h : Quiet l l') (thread : ThreadId) : Quiet l (l'.endStream thread) := by
  rcases l'.endStream_cases thread with ⟨-, hended⟩ | ⟨p, -, hended⟩ <;> rw [hended]
  · exact h
  · have herase : Quiet l { l' with streamOf := l'.streamOf.erase thread } := h.same rfl
    refine (herase.closeStream (.own p)).post ?_
    rfl

theorem prepare (h : Quiet l l') (thread : ThreadId) (ordering : Option UInt8) :
    Quiet l (l'.prepare thread ordering) := by
  unfold Ledger.prepare
  cases ordering with
  | none => rcases l'.obtain_cases thread with ⟨_, -, ho⟩ | ⟨-, ho⟩ <;> exact h.same (by rw [ho])
  | some i =>
    dsimp only
    split
    · exact h
    · exact h.sealStream _

theorem took (h : Quiet l l') {l'' : Ledger} {ref : StreamRef} {r : Record}
    (htook : Took ref r l' l'') : Quiet l l'' := by
  have happend : Quiet l (l'.appendTo ref r) := h.same rfl
  rcases htook with rfl | rfl
  · exact happend
  · exact happend.sealStream ref

theorem sealEvents (h : Quiet l l') : Quiet l l'.sealEvents := by
  have hown : Quiet l (l'.ownRefs.foldl Ledger.visit l') := by
    refine List.foldlRecOn (motive := Quiet l) _ _ h fun l'' h entry _ => ?_
    rcases l''.visit_cases entry with ⟨-, hvisit⟩ | ⟨-, hvisit⟩ <;> rw [hvisit]
    · exact h.endStream entry.1
    · exact h.sealStream entry.2
  exact List.foldlRecOn (motive := Quiet l) _ _ hown fun _ h ref _ => h.sealStream ref

theorem closeEvents (h : Quiet l l') : Quiet l l'.closeEvents :=
  closeEvents_keeps (P := Quiet l) (fun _ ref h => h.closeStream ref) h

theorem freesBehind (h : Quiet l l') (hbehind : FreesBehind id early l.parcels) :
    FreesBehind id early l'.parcels := by
  induction h with
  | refl => exact hbehind
  | post _ hp ih =>
    refine ih.concat fun hfrees => ?_
    obtain ⟨t, hmem, -⟩ := hfrees
    rw [hp] at hmem
    cases hmem
  | same _ hparcels ih => rwa [hparcels]

end Quiet

/-- Freed tokens leave when all that was accepted has left. -/
theorem freesBehind_sealFrees (hbehind : FreesBehind id early l.parcels)
    (hearly : ∀ ref, recordsFor ref early <+: l.parcels.flatMap (Parcel.recordsOn ref)) :
    FreesBehind id early l.sealFrees.parcels := by
  rcases l.sealFrees_cases with ⟨-, hsealed⟩ | ⟨-, hsealed⟩ <;> rw [hsealed]
  · exact hbehind
  · exact hbehind.concat fun _ => hearly

variable {taken : List (StreamRef × Record)} {freed : List Token}

/-- All that was taken has left if nothing is held back. -/
theorem Accounts.early_sent (h : l.Accounts taken freed) (hheld : ∀ ref, (l.pages ref).held = [])
    (hearly : early <+: taken) (ref : StreamRef) :
    recordsFor ref early <+: l.parcels.flatMap (Parcel.recordsOn ref) := by
  have hrecords := h.records ref
  rw [hheld, List.append_nil] at hrecords
  rw [hrecords]
  exact hearly.filterMap _

/-- All records leave, and all tokens behind them. -/
theorem freesBehind_sealAll (h : l.Accounts taken freed) (hsound : l.Sound)
    (hearly : early <+: taken) (hbehind : FreesBehind id early l.parcels) :
    FreesBehind id early l.sealEvents.sealFrees.parcels :=
  freesBehind_sealFrees (Quiet.refl.sealEvents.freesBehind hbehind)
    ((h.moves (.sealEvents .refl)).early_sent (held_sealEvents hsound) hearly)

/-- At the end all records leave, and all tokens behind them. -/
theorem freesBehind_closeAll (h : l.Accounts taken freed) (hsound : l.Sound)
    (hearly : early <+: taken) (hbehind : FreesBehind id early l.parcels) :
    FreesBehind id early l.closeAll.parcels := by
  have hevents : l.closeEvents.Accounts taken freed :=
    closeEvents_keeps (P := (Accounts · taken freed)) (fun _ ref h => h.closeStream ref) h
  have hheld := held_closeEvents hsound
  have hquiet := (Quiet.refl.closeEvents (l := l)).freesBehind hbehind
  unfold Ledger.closeAll
  generalize l.closeEvents = l' at hevents hheld hquiet
  have hsealed : FreesBehind id early l'.closeFrees.sealFrees.parcels :=
    freesBehind_sealFrees hquiet (hevents.early_sent hheld hearly)
  refine hsealed.concat fun hfrees => ?_
  obtain ⟨t, hmem, -⟩ := hfrees
  cases hmem

end Ledger

/-! ### Runs -/

/-- A call reports the object of an id as freed. -/
def Call.frees (id : ObjectId) : Call → Bool
  | .objectFreed t => decide (t.Names id)
  | _ => false

namespace Run

variable {r r' : Run} {l l' : Ledger} {call : Call} {id : ObjectId}
  {early : List (StreamRef × Record)}

/-- The run of a script up to the first call that reports the object of an id as freed. -/
def beforeFree (settings : ClientSettings) (calls : List Call) (id : ObjectId) : Run :=
  play { client := { settings } } (calls.takeWhile fun call => !call.frees id)

private theorem accepted_perform {α : Type} {call : EStateM ClientError Client α}
    {note : α → Run → Run} (hnote : ∀ a r, r.accepted <+: (note a r).accepted) :
    r.accepted <+: (r.perform call note).accepted := by
  unfold perform
  cases call r.client with
  | ok a c => exact hnote a { r with client := c }
  | error e c => exact List.prefix_rfl

/-- What was accepted stays so. -/
theorem accepted_step (r : Run) (call : Call) : r.accepted <+: (r.step call).accepted := by
  cases call with
  | send | discard | threadGone | runSender => exact List.prefix_rfl
  | dispatch thread id args => exact accepted_perform fun _ _ => List.prefix_append _ _
  | finish thread n =>
    cases hd : r.drafts n with
    | none =>
      simp only [step_finish_of_none hd]
      exact List.prefix_rfl
    | some d =>
      rw [step_finish_of_some hd]
      exact accepted_perform (r := r.setDraft n none) fun _ _ => List.prefix_append _ _
  | _ => exact accepted_perform fun _ _ => List.prefix_rfl

theorem accepted_play (r : Run) (calls : List Call) : r.accepted <+: (r.play calls).accepted :=
  List.foldlRecOn (motive := fun r' : Run => r.accepted <+: r'.accepted) calls step List.prefix_rfl
    fun r' h call _ => h.trans (accepted_step r' call)

private theorem mem_freed_of_perform {α : Type} {call : EStateM ClientError Client α}
    {note : α → Run → Run} {t : Token} (ht : t ∈ (r.perform call note).freed)
    (hnote : ∀ a r, (note a r).freed = r.freed) : t ∈ r.freed := by
  unfold perform at ht
  cases hcall : call r.client with
  | ok a c =>
    rw [hcall] at ht
    exact hnote a { r with client := c } ▸ ht
  | error e c =>
    rw [hcall] at ht
    exact ht

/-- Only tokens that calls report are taken. -/
theorem freed_step {t : Token} (ht : t ∈ (r.step call).freed) :
    t ∈ r.freed ∨ call = .objectFreed t := by
  cases call with
  | send | discard | threadGone | runSender => exact .inl ht
  | finish thread n =>
    cases hd : r.drafts n with
    | none =>
      rw [step_finish_of_none hd] at ht
      exact .inl ht
    | some d =>
      rw [step_finish_of_some hd] at ht
      exact .inl (mem_freed_of_perform (r := r.setDraft n none) ht fun _ _ => rfl)
  | objectFreed t' =>
    change t ∈ (r.perform (Client.objectFreed t') _).freed at ht
    unfold perform at ht
    cases hcall : Client.objectFreed t' r.client with
    | ok a c =>
      rw [hcall] at ht
      rcases List.mem_append.1 ht with ht | ht
      · exact .inl ht
      · exact .inr (by rw [List.mem_singleton.1 ht])
    | error e c =>
      rw [hcall] at ht
      exact .inl ht
  | _ => exact .inl (mem_freed_of_perform ht fun _ _ => rfl)

theorem mem_of_freed_play {calls : List Call} {t : Token} (ht : t ∈ (r.play calls).freed) :
    t ∈ r.freed ∨ .objectFreed t ∈ calls := by
  induction calls generalizing r with
  | nil => exact .inl ht
  | cons call calls ih =>
    rcases ih ht with ht | hmem
    · rcases freed_step ht with ht | rfl
      · exact .inl ht
      · exact .inr List.mem_cons_self
    · exact .inr (List.mem_cons_of_mem _ hmem)

namespace Tracks

/-- No message tells that an object is gone which was not reported as freed. -/
theorem freesBehind_of_none (h : r.Tracks l) (hnone : ∀ t ∈ r.freed, ¬ t.Names id) :
    FreesBehind id early l.parcels := by
  refine .of_none fun p hp => ?_
  rintro ⟨t, ht, hnames⟩
  refine hnone t ?_ hnames
  rw [← h.accounts.tokens]
  exact List.mem_append_left _ (List.mem_flatMap.2 ⟨p, hp, ht⟩)

/-- **One call.** -/
theorem freesBehind_step (h : r.Tracks l) (hreaches : r.Reaches l call r' l')
    (hearly : early <+: r.accepted) (hbehind : FreesBehind id early l.parcels) :
    FreesBehind id early l'.parcels := by
  obtain ⟨note, c, sent, faults, houtcome, -, -, -⟩ := hreaches
  have hquiet {l' : Ledger} (hl' : l.Quiet l') := hl'.freesBehind hbehind
  cases houtcome with
  | @announced name =>
    have hnamed : l.Quiet { l with methods := l.methods.insert name } := Ledger.Quiet.refl.same rfl
    refine hquiet (hnamed.post ?_)
    rfl
  | dispatched _ _ _ htook | finished _ _ _ htook =>
    exact hquiet ((Ledger.Quiet.refl.prepare _ _).took htook)
  | dispatchedTooMany | finishedTooMany => exact hquiet (Ledger.Quiet.refl.prepare _ _)
  | @freed t l' hfree =>
    have hfreed : FreesBehind id early (l.free t).parcels := hbehind
    rcases hfree with hl | hl <;> rw [hl]
    · exact hfreed
    · exact Ledger.freesBehind_sealAll (h.accounts.free t) (h.sound.free t) hearly hfreed
  | told hcall =>
    refine hquiet (Ledger.Quiet.refl.post ?_)
    cases call <;> cases hcall <;> rfl
  | flushed => exact Ledger.freesBehind_sealAll h.accounts h.sound hearly hbehind
  | threadEnded thread => exact hquiet (Ledger.Quiet.refl.endStream thread)
  | threadGone thread =>
    refine hquiet (Ledger.Quiet.refl.same ?_)
    rcases l.orphan_cases thread with ⟨-, horphan⟩ | ⟨_, -, horphan⟩ <;> rw [horphan]
    rfl
  | _ => exact hbehind

end Tracks

theorem accepted_beforeFree (settings : ClientSettings) (calls : List Call) (id : ObjectId) :
    (beforeFree settings calls id).accepted <+:
      (play { client := { settings } } calls).accepted := by
  obtain ⟨rest, hrest⟩ := List.takeWhile_prefix (l := calls) fun call : Call => !call.frees id
  have hsplit := accepted_play (beforeFree settings calls id) rest
  rwa [beforeFree, play, play, ← List.foldl_append, hrest] at hsplit

/-- Once the object was reported as freed, further calls do not matter. -/
private theorem beforeFree_concat (settings : ClientSettings) {calls : List Call} {call : Call}
    (hcalls : ¬ ∀ call' ∈ calls ++ [call], call'.frees id = false) :
    beforeFree settings (calls ++ [call]) id = beforeFree settings calls id := by
  rw [beforeFree, beforeFree, List.takeWhile_append]
  split
  · next hlength =>
    have hwhole := (List.takeWhile_prefix fun call : Call => !call.frees id).eq_of_length hlength
    have hnone : ∀ call ∈ calls, call.frees id = false := fun call hmem => by
      simpa using List.takeWhile_eq_self_iff.1 hwhole call hmem
    have hlast : call.frees id = true := by
      by_contra hfalse
      refine hcalls fun call' hmem => ?_
      rcases List.mem_append.1 hmem with hmem | hmem
      · exact hnone call' hmem
      · rw [List.mem_singleton.1 hmem]
        exact Bool.eq_false_iff.2 hfalse
    rw [hwhole, List.takeWhile_cons, hlast]
    exact congrArg _ (List.append_nil calls)
  · rfl

/-- Calls of which none reports the object of an id as freed. -/
private theorem freed_names (settings : ClientSettings) {calls : List Call}
    (hcalls : ∀ call ∈ calls, call.frees id = false) :
    ∀ t ∈ (play { client := { settings } } calls).freed, ¬ t.Names id := by
  intro t ht hnames
  rcases mem_of_freed_play ht with hmem | hmem
  · cases hmem
  · have hfalse := hcalls _ hmem
    rw [Call.frees, decide_eq_true hnames] at hfalse
    cases hfalse

/-- **A whole script.** There is a ledger in which each object goes behind the records that were
accepted before it was reported as freed. -/
theorem exists_freesBehind (settings : ClientSettings) (calls : List Call)
    (hlarge : .wire .batchTooLarge ∉ (play { client := { settings } } calls).faults)
    (hfailure : (play { client := { settings } } calls).client.outbox.failure = none) :
    ∃ l, (play { client := { settings } } calls).Tracks l ∧
      ∀ id, FreesBehind id (beforeFree settings calls id).accepted l.parcels := by
  induction calls using List.reverseRecOn with
  | nil => exact ⟨{}, tracks_start settings, fun id => .of_none nofun⟩
  | append_singleton calls call ih =>
    have hplay : play { client := { settings } } (calls ++ [call]) =
        (play { client := { settings } } calls).step call := List.foldl_concat ..
    rw [hplay] at hlarge hfailure ⊢
    obtain ⟨l, hl, hbehind⟩ := ih (fun hmem => hlarge (mem_faults_step hmem call))
      (failure_step call hfailure)
    obtain ⟨l', hreaches⟩ := hl.reaches call hlarge hfailure
    refine ⟨l', hl.step hreaches, fun id => ?_⟩
    by_cases hcalls : ∀ call' ∈ calls ++ [call], call'.frees id = false
    · refine (hl.step hreaches).freesBehind_of_none ?_
      rw [← hplay]
      exact freed_names settings hcalls
    · rw [beforeFree_concat settings hcalls]
      exact hl.freesBehind_step hreaches (accepted_beforeFree settings calls id) (hbehind id)

/-- **Freed tokens leave behind the records of a session.** Whatever the settings, a message that
tells that an object is gone comes behind all records that were accepted before the first call that
reported the object as freed. -/
theorem Completed.freesBehind {settings : ClientSettings} {calls : List Call} {frames : List Bytes}
    (h : Completed settings calls r frames) :
    ∃ parcels : List Parcel,
      List.Forall₂ (fun p frame => p.message.toBytes = .ok frame) (parcels ++ [⟨none, .close⟩])
        frames ∧
      (∀ p ∈ parcels, p.Sound) ∧
      (∀ ref, parcels.flatMap (Parcel.recordsOn ref) = recordsFor ref r.accepted) ∧
      ∀ id, FreesBehind id (beforeFree settings calls id).accepted parcels := by
  obtain ⟨deliver, out, c, hend, rfl⟩ := h.ended
  obtain ⟨rfl, hfailure⟩ := h.eq_play
  obtain ⟨l, hl, hbehind⟩ := exists_freesBehind settings calls h.noneTooLarge hfailure
  have hending := ending_play { client := { settings } } calls
  have hframes := Client.frames_of_shutdown hl.shows hl.sound.inRange hending hend
  obtain ⟨parcels, hparcels, hsound, hrecords, -⟩ := hl.accounts.closeAll hl.sound
  rw [hparcels] at hframes
  refine ⟨parcels, hframes, hsound, hrecords, fun id => ?_⟩
  have hclosed := Ledger.freesBehind_closeAll hl.accounts hl.sound
    (accepted_beforeFree settings calls id) (hbehind id)
  rw [hparcels] at hclosed
  exact hclosed.of_append

end Run

end TraceRelay
