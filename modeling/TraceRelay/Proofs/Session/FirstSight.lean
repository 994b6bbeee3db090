import TraceRelay.Proofs.Session.Exit
import TraceRelay.Proofs.Session.References

/-!
# Objects that were seen before they were freed

An object goes when it is first reported as freed, if something referred to it before. If nothing
did then the analyses are not told that it went. Whatever refers to the object later finds one
detached replica, as long as no more ids are reported as freed than may be remembered.

## Main definitions

* `Message.freedIds` : the ids that a message reports as freed.
* `Round.freedId?` : the id of the object of which analyses are told that it went.
* `Heap.Detached` : an object is a detached replica of an id.

## Main results

* `Host.tells_free` : what the analyses are told when an object is reported as freed.
* `Host.live_of_mem_tellsAll` : analyses are told that an object went when it is live.
* `Session.run_frees_seen` : which objects go, and what later references find.
-/

namespace TraceRelay

variable {σ : Type}

/-! ### Ids that are reported as freed -/

/-- The ids of the objects that a message reports as freed. -/
def Message.freedIds : Message → List ObjectId
  | objectFree tokens => (tokens.filter fun t => !t.isNull).map Token.objectId
  | _ => []

/-- The id of the object that went. -/
def Round.freedId? : Round → Option ObjectId
  | freed heap ref => (heap.object? ref).map (·.id)
  | _ => none

/-- What the actions of messages free is reported as freed by one of the messages. -/
theorem Message.mem_freedIds_of_frees {ms : List Message} {a : Action} {id : ObjectId}
    (hmem : a ∈ ms.flatMap actions) (hfrees : a.Frees id) : id ∈ ms.flatMap freedIds := by
  obtain ⟨t, rfl, hnull, rfl⟩ := hfrees
  obtain ⟨m, hm, ht⟩ := List.mem_flatMap.1 hmem
  refine List.mem_flatMap.2 ⟨m, hm, ?_⟩
  cases m with
  | objectFree tokens =>
    obtain ⟨t', ht', heq⟩ := List.mem_map.1 ht
    cases heq
    exact List.mem_map_of_mem (List.mem_filter.2 ⟨ht', by simp [hnull]⟩)
  | analyze ordering records =>
    obtain ⟨r, -, heq⟩ := List.mem_map.1 ht
    cases heq
  | registerMethod | classInfo | stringInfo | threadInfo => cases List.mem_singleton.1 ht
  | close | threadEnd => cases ht

namespace Heap

variable {h : Heap} {id : ObjectId} {ref : ObjectRef}

/-- The object that goes is the live one of the id. -/
theorem removed?_eq_some_iff {t : Token} (hnames : t.Names id) :
    h.removed? (.remove t) = some ref ↔ h.standing id = .live ref := by
  obtain ⟨hnull, rfl⟩ := hnames
  constructor
  · intro hremoved
    obtain ⟨id, ⟨t', heq, -, rfl⟩, hlive⟩ := live_of_removed? hremoved
    cases heq
    exact hlive
  · intro hlive
    have hfound := standing_eq_live_iff.1 hlive
    have hindex : ∃ index, h.live[t.objectId]? = some index := by
      cases hnone : h.live[t.objectId]? with
      | none => simp [findLive?, hnone] at hfound
      | some index => exact ⟨index, rfl⟩
    obtain ⟨index, hindex⟩ := hindex
    simp [removed?, remove, hnull, vacate, hindex, hfound]

/-- An object of a heap is a detached replica of an id. -/
def Detached (h : Heap) (id : ObjectId) (ref : ObjectRef) : Prop :=
  ∃ replica, h.object? ref = some replica ∧ replica.id = id ∧ replica.isDetached = true

/-- What a removed id stands for is a detached replica. -/
theorem Consistent.detached_of_freed (hc : h.Consistent)
    (hs : h.standing id = .freed (some ref)) : h.Detached id ref := by
  obtain ⟨replica, hreplica, hid, hhandle⟩ := identity?_eq_some_iff.1 (hc.identity?_of_freed hs)
  exact ⟨replica, hreplica, hid, by simp [Replica.isDetached, hhandle]⟩

end Heap

namespace Host

variable {host host' : Host σ} {id : ObjectId}

/-! ### Objects that go -/

theorem tells_free_eq (host : Host σ) (t : Token) :
    host.tells (.free t) = ((host.heap.removed? (.remove t)).map
      (Round.freed (host.heap.next (.remove t)))).toList := by
  rcases hremove : host.heap.remove t with ⟨_ | ref, heap⟩ <;>
    simp [tells, hremove, Heap.removed?, Heap.next, Heap.call, Step.final]

/-- **When an object is reported as freed** then the analyses are told that it went, if it is live,
and else nothing. -/
theorem tells_free (hc : host.heap.Consistent) {t : Token} (hnames : t.Names id) :
    ((∃ ref, host.heap.standing id = .live ref) → ∃ heap ref,
      host.tells (.free t) = [.freed heap ref] ∧ (Round.freed heap ref).freedId? = some id) ∧
    ((∀ ref, host.heap.standing id ≠ .live ref) → host.tells (.free t) = []) := by
  rw [tells_free_eq]
  constructor
  · rintro ⟨ref, hlive⟩
    rw [(Heap.removed?_eq_some_iff hnames).2 hlive]
    obtain ⟨handle, hx, -⟩ := hc.identity?_of_live hlive
    obtain ⟨replica, hreplica, hid, -⟩ :=
      Heap.identity?_eq_some_iff.1 (hc.identity?_next (.remove t) hx)
    exact ⟨_, ref, rfl, by rw [Round.freedId?, hreplica, Option.map_some, hid]⟩
  · intro hlive
    have hnone : host.heap.removed? (.remove t) = none :=
      Option.eq_none_iff_forall_ne_some.2 fun ref hremoved =>
        hlive ref ((Heap.removed?_eq_some_iff hnames).1 hremoved)
    rw [hnone]
    rfl

/-- Analyses are told that an object went when it is reported as freed, and only if it is live. -/
theorem live_of_mem_tells (hc : host.heap.Consistent) {a : Action} {round : Round}
    (hmem : round ∈ host.tells a) (hid : round.freedId? = some id) :
    a.Frees id ∧ ∃ ref, host.heap.standing id = .live ref := by
  cases a with
  | deliver ordering r =>
    rcases tells_deliver ordering r host with htells | ⟨b, heap, args, -, htells⟩ <;>
      rw [htells] at hmem
    · cases hmem
    · cases List.mem_singleton.1 hmem
      cases hid
  | bind | attach => cases hmem
  | free t =>
    rw [tells_free_eq, Option.mem_toList, Option.map_eq_some_iff] at hmem
    obtain ⟨ref, hremoved, rfl⟩ := hmem
    obtain ⟨_, ⟨t', heq, hnull, rfl⟩, hlive⟩ := Heap.live_of_removed? hremoved
    cases heq
    obtain ⟨handle, hx, -⟩ := hc.identity?_of_live hlive
    obtain ⟨replica, hreplica, hid', -⟩ :=
      Heap.identity?_eq_some_iff.1 (hc.identity?_next (.remove t) hx)
    rw [Round.freedId?, hreplica, Option.map_some, hid'] at hid
    cases hid
    exact ⟨⟨t, rfl, hnull, rfl⟩, ref, hlive⟩

/-- **Analyses are told that an object went** when it is reported as freed, while it is live. -/
theorem live_of_mem_tellsAll (hc : host.heap.Consistent) {as : List Action}
    (hok : actAll as host = .ok () host') {round : Round} (hmem : round ∈ host.tellsAll as)
    (hid : round.freedId? = some id) :
    ∃ before a behind, as = before ++ a :: behind ∧ a.Frees id ∧
      ∃ ref, (host.heap.after (before.flatMap Action.heapCalls)).standing id = .live ref := by
  induction as generalizing host with
  | nil => cases hmem
  | cons a as ih =>
    obtain ⟨⟨⟩, host₁, hfirst, hrest⟩ := Step.bind_eq_ok_iff.mp hok
    simp only [tellsAll, hfirst, List.mem_append] at hmem
    rcases hmem with hmem | hmem
    · obtain ⟨hfrees, hlive⟩ := live_of_mem_tells hc hmem hid
      exact ⟨[], a, as, rfl, hfrees, hlive⟩
    · have hc₁ : host₁.heap.Consistent := by
        simpa only [hfirst, Step.final] using consistent_act hc a
      have hone : actAll [a] host = .ok () host₁ := (Step.bind_of_ok hfirst).trans rfl
      obtain ⟨before, b, behind, rfl, hfrees, hlive⟩ := ih hc₁ hrest hmem
      refine ⟨a :: before, b, behind, rfl, hfrees, ?_⟩
      rw [heap_actAll hone, List.flatMap_singleton] at hlive
      rwa [List.flatMap_cons, Heap.after_append]

/-- **The first report that an object was freed.** The analyses are told that the object went if
something referred to it before, and else nothing. Neither before nor afterwards are they told that
an object of this id went. -/
theorem tellsAll_of_first_free {registry : Registry σ} {state : σ} {n : Nat} {ids : List ObjectId}
    (hroom : ids.length ≤ n) {before behind : List Action} {t : Token}
    (hids : ∀ a ∈ before ++ .free t :: behind, ∀ id, a.Frees id → id ∈ ids)
    (hok : actAll (before ++ .free t :: behind) (start registry state n) = .ok () host')
    (hnames : t.Names id) (hfirst : ∀ a ∈ before, ¬ a.Frees id) :
    ∃ mention rest, (start registry state n).tellsAll (before ++ .free t :: behind) =
        (start registry state n).tellsAll before ++ (mention ++ rest) ∧
      (∀ round ∈ (start registry state n).tellsAll before ++ rest, round.freedId? ≠ some id) ∧
      ((∃ a ∈ before, a.Refers id) → ∃ heap ref,
        mention = [.freed heap ref] ∧ (Round.freed heap ref).freedId? = some id) ∧
      ((∀ a ∈ before, ¬ a.Refers id) → mention = []) := by
  have hc : (start registry state n).heap.Consistent := .empty n
  obtain ⟨host₁, host₂, hbefore, hone, hbehind, htold⟩ := actAll_split hok
  have hc₁ : host₁.heap.Consistent := by
    simpa only [hbefore, Step.final] using consistent_actAll hc before
  have hc₂ : host₂.heap.Consistent := by
    simpa only [hone, Step.final] using consistent_act hc₁ (.free t)
  have hkeeps : ∀ c ∈ before.flatMap Action.heapCalls, ¬ c.Removes id := fun c hc hremoves => by
    obtain ⟨a, ha, hfrees⟩ := Action.exists_frees_iff.2 ⟨c, hc, hremoves⟩
    exact hfirst a ha hfrees
  have hlive : (∃ ref, host₁.heap.standing id = .live ref) ↔ ∃ a ∈ before, a.Refers id := by
    rw [Action.exists_refers_iff, heap_actAll hbefore]
    exact hc.live_after_iff (by simp [start, Heap.standing, Heap.findLive?])
      (answers_actAll hbefore) hkeeps
  refine ⟨_, _, htold, fun round hmem hid => ?_, fun hrefers => ?_, fun hrefers => ?_⟩
  · rcases List.mem_append.1 hmem with hmem | hmem
    · obtain ⟨front, a, back, rfl, hfrees, -⟩ := live_of_mem_tellsAll hc hbefore hmem hid
      exact hfirst a (by simp) hfrees
    · -- Behind the first report the id is remembered as gone.
      obtain ⟨front, a, back, rfl, hfrees, ref, hs⟩ :=
        live_of_mem_tellsAll hc₂ hbehind hmem hid
      have hmade : ∀ c ∈ (before ++ [Action.free t] ++ front).flatMap Action.heapCalls,
          ∀ id', c.Removes id' → id' ∈ ids := fun c hc id' hremoves => by
        obtain ⟨a', ha', hfrees'⟩ := Action.exists_frees_iff.2 ⟨c, hc, hremoves⟩
        refine hids a' ?_ id' hfrees'
        rw [List.append_cons, ← List.append_assoc]
        exact List.mem_append_left _ ha'
      obtain ⟨found, hfreed⟩ := (Heap.freed_after_iff hroom hmade id).2
        (Action.exists_frees_iff.1 ⟨Action.free t, by simp, t, rfl, hnames⟩)
      rw [heap_actAll (actAll_concat hbefore hone), ← Heap.after_append,
        ← List.flatMap_append] at hs
      cases hs.symm.trans hfreed
  · exact (tells_free hc₁ hnames).1 (hlive.2 hrefers)
  · refine (tells_free hc₁ hnames).2 fun ref hs => ?_
    obtain ⟨a, ha, harefers⟩ := hlive.1 ⟨ref, hs⟩
    exact hrefers a ha harefers

/-! ### Later references -/

/-- **What later references find.** When an id was reported as freed, everything that refers to it
finds one detached replica. -/
theorem exists_detached {registry : Registry σ} {state : σ} {n : Nat} {ids : List ObjectId}
    (hroom : ids.length ≤ n) {as : List Action}
    (hids : ∀ a ∈ as, ∀ id, a.Frees id → id ∈ ids)
    (hok : actAll as (start registry state n) = .ok () host') (id : ObjectId) :
    ∃ d,
      (∀ before ordering r behind, as = before ++ .deliver ordering r :: behind →
        (∃ a ∈ before, a.Frees id) → ∃ position heap i,
          (((start registry state n).tellsAll as).filterMap Round.delivery?)[
            (before.filterMap Action.record?).length]? = some (position, heap, i) ∧
          i.Carries heap ordering r ∧
          ∀ (k : Nat) v t, r.args[k]? = some v → v.token? = some t → t.Names id →
            i.args[k]? = some (.object (some d)) ∧ heap.Detached id d) ∧
      ∀ before t data behind, as = before ++ .attach t data :: behind → t.Names id →
        (∃ a ∈ before, a.Frees id) → ∃ host₁ heap,
          actAll before (start registry state n) = .ok () host₁ ∧
          Heap.attach t data host₁.heap = .ok (some d) heap ∧ heap.Detached id d := by
  have hc : (start registry state n).heap.Consistent := .empty n
  have hcalls : ∀ c ∈ as.flatMap Action.heapCalls, ∀ id, c.Removes id → id ∈ ids :=
    fun c hc id hremoves => by
      obtain ⟨a, ha, hfrees⟩ := Action.exists_frees_iff.2 ⟨c, hc, hremoves⟩
      exact hids a ha id hfrees
  obtain ⟨d, hd⟩ := Heap.exists_detached hroom hcalls id
  -- The id stands for the detached replica after each action behind the first report.
  have hfound {before behind : List Action} {a : Action} (has : as = before ++ a :: behind)
      (hfreed : ∃ a ∈ before, a.Frees id) {ref : ObjectRef}
      (href : (((start registry state n).heap.after
        ((before ++ [a]).flatMap Action.heapCalls)).standing id).ref? = some ref) :
      ref = d ∧ ((start registry state n).heap.after
        ((before ++ [a]).flatMap Action.heapCalls)).Detached id d := by
    have hprefix : (before ++ [a]).flatMap Action.heapCalls <+: as.flatMap Action.heapCalls := by
      refine ⟨behind.flatMap Action.heapCalls, ?_⟩
      rw [has, ← List.flatMap_append, ← List.append_cons]
    obtain ⟨b, hb, hfrees⟩ := hfreed
    obtain ⟨hs, heq⟩ := hd _ hprefix
      (Action.exists_frees_iff.1 ⟨b, List.mem_append_left _ hb, hfrees⟩) ref href
    exact ⟨heq, (hc.after _).detached_of_freed hs⟩
  refine ⟨d, fun before ordering r behind has hfreed => ?_, fun before t data behind has hnames
    hfreed => ?_⟩
  · obtain ⟨position, i, hshown, hcarries⟩ := delivery_of_split hc (has ▸ hok)
    rw [← has] at hshown
    refine ⟨position, _, i, hshown, hcarries, fun k v t hv ht hnames => ?_⟩
    obtain ⟨ref, harg, href⟩ := hcarries.object hv ht hnames
    obtain ⟨rfl, hreplica⟩ := hfound has hfreed href
    exact ⟨harg, hreplica⟩
  · obtain ⟨host₁, host₂, hbefore, hattach, -⟩ := actAll_split (has ▸ hok)
    have hheap := heap_actAll (actAll_concat hbefore hattach)
    rw [← attach_eq_act, attach] at hattach
    split at hattach
    next found heap hone =>
      cases hattach
      obtain ⟨hnull, rfl⟩ := hnames
      dsimp only at hheap
      have hcall : Heap.call (.attach t data) host₁.heap = .ok found heap := hone
      have hc₁ : host₁.heap.Consistent := heap_actAll hbefore ▸ hc.after _
      have hanswer : host₁.heap.answer (.attach t data) = .ok found := by rw [Heap.answer, hcall]
      obtain ⟨ref, rfl, -, href⟩ := hc₁.call_named (c := .attach t data) rfl hnull hanswer
      rw [Heap.next, hcall, Step.final, hheap] at href
      obtain ⟨rfl, hreplica⟩ := hfound has hfreed href
      exact ⟨host₁, heap, hbefore, hone, by rwa [hheap]⟩
    · cases hattach

end Host

namespace Session

/-- **Which objects go, and what later references find.** A session ends well that receives the
messages `ms`, which report no more ids as freed than may be remembered. Then an id that is never
reported as freed never goes. If it is then it goes at the first report and at no other time, in a
round that calls all analyses, once each, if something referred to it before; and if nothing did
then it does not go at all. There is one detached replica that all arguments of later records are
which name the id, and which data is attached to that describes it. -/
theorem run_frees_seen (registry : Registry σ) (state : σ) (maxFrame maxFreed : Nat)
    {arrivals : List (Except TransportError Bytes)} {ms : List Message} {es : List Bytes}
    {rest : Bytes} (hreading : Reading maxFrame (arrived arrivals) ms es rest)
    {summary : Summary}
    (hok : ((start registry state maxFrame maxFreed).run arrivals).1 = .ok summary)
    (hroom : (ms.flatMap Message.freedIds).dedup.length ≤ maxFreed) (id : ObjectId) :
    let host := Host.start registry state maxFreed
    let written := (start registry.journaled (state, []) maxFrame maxFreed).run arrivals
    let acts := ms.flatMap Message.actions
    ∃ rounds, written.2.host.state.2 = rounds.flatMap (Round.entries registry.installed.size) ∧
      ((∀ a ∈ acts, ¬ a.Frees id) → ∀ round ∈ rounds, round.freedId? ≠ some id) ∧
      (∀ before t behind, acts = before ++ .free t :: behind → t.Names id →
        (∀ a ∈ before, ¬ a.Frees id) →
        ∃ mention later, rounds = host.tellsAll before ++ (mention ++ later) ∧
          (∀ round ∈ host.tellsAll before ++ later, round.freedId? ≠ some id) ∧
          ((∃ a ∈ before, a.Refers id) → ∃ heap ref,
            mention = [.freed heap ref] ∧ (Round.freed heap ref).freedId? = some id) ∧
          ((∀ a ∈ before, ¬ a.Refers id) → mention = [])) ∧
      ∃ d,
        (∀ before ordering r behind, acts = before ++ .deliver ordering r :: behind →
          (∃ a ∈ before, a.Frees id) → ∃ position heap i,
            (rounds.filterMap Round.delivery?)[(before.filterMap Action.record?).length]? =
              some (position, heap, i) ∧ i.Carries heap ordering r ∧
            ∀ (k : Nat) v t, r.args[k]? = some v → v.token? = some t → t.Names id →
              i.args[k]? = some (.object (some d)) ∧ heap.Detached id d) ∧
        ∀ before t data behind, acts = before ++ .attach t data :: behind → t.Names id →
          (∃ a ∈ before, a.Frees id) → ∃ host₁ heap, Host.actAll before host = .ok () host₁ ∧
            Heap.attach t data host₁.heap = .ok (some d) heap ∧ heap.Detached id d := by
  intro host written acts
  obtain ⟨-, ms', es', behind', hreading', hcases, hjournal⟩ :=
    run_reads registry state maxFrame maxFreed arrivals
  obtain rfl := hreading'.eq_acted.trans hreading.eq_acted.symm
  have hacts : ∃ host', Host.actAll acts host = .ok () host' := by
    generalize hpair : (((start registry state maxFrame maxFreed).run arrivals).1,
      ((start registry state maxFrame maxFreed).run arrivals).2.host) = pair at hcases
    cases hcases with
    | failed | broken => cases hok.symm.trans (congrArg (·.1) hpair)
    | done hacts => exact ⟨_, hacts⟩
  obtain ⟨host', hacts⟩ := hacts
  have hids : ∀ a ∈ acts, ∀ id, a.Frees id → id ∈ (ms'.flatMap Message.freedIds).dedup :=
    fun a ha id hfrees => List.mem_dedup.2 (Message.mem_freedIds_of_frees ha hfrees)
  rw [hok] at hjournal
  refine ⟨host.tellsAll acts ++ [.exited], ?_, fun hnone round hmem hid => ?_,
    fun before t behind hsplit hnames hfirst => ?_, ?_⟩
  · rw [List.flatMap_append]
    exact hjournal
  · rcases List.mem_append.1 hmem with hmem | hmem
    · obtain ⟨before, a, behind, hsplit, hfrees, -⟩ :=
        Host.live_of_mem_tellsAll (Heap.Consistent.empty maxFreed) hacts hmem hid
      exact hnone a (by rw [hsplit]; simp) hfrees
    · cases List.mem_singleton.1 hmem
      cases hid
  · obtain ⟨mention, later, htold, hothers, hmention⟩ := Host.tellsAll_of_first_free hroom
      (hsplit ▸ hids) (hsplit ▸ hacts) hnames hfirst
    refine ⟨mention, later ++ [.exited], ?_, fun round hmem => ?_, hmention⟩
    · rw [hsplit, htold, List.append_assoc, List.append_assoc]
    · rw [← List.append_assoc] at hmem
      rcases List.mem_append.1 hmem with hmem | hmem
      · exact hothers round hmem
      · cases List.mem_singleton.1 hmem
        exact nofun
  · have hdeliveries : (host.tellsAll acts ++ [Round.exited]).filterMap Round.delivery? =
        (host.tellsAll acts).filterMap Round.delivery? := by
      rw [List.filterMap_append]
      exact List.append_nil _
    rw [hdeliveries]
    exact Host.exists_detached hroom hids hacts id

/-- Two objects are reported as freed, one of which was named before. It is named once more, and
reported once more. -/
def freedTwice : List Message :=
  [.registerMethod 1 "canvas.draw", .analyze 256 [⟨1, [.object ⟨5⟩]⟩], .objectFree [⟨6⟩, ⟨5⟩],
    .analyze 256 [⟨1, [.object ⟨5⟩]⟩], .objectFree [⟨5⟩], .close]

/-- What is written for these messages. -/
def freedTwiceFrames : List Bytes :=
  [[3, 18, 0, 0, 0, 1, 0, 16, 11, 0, 0, 0, 99, 97, 110, 118, 97, 115, 46, 100, 114, 97, 119],
    [1, 24, 0, 0, 0, 0, 1, 0, 0, 0, 0, 0, 0, 1, 0, 0, 0, 1, 0, 1, 32, 5, 0, 0, 0, 0, 0, 0, 0],
    [2, 20, 0, 0, 0, 2, 0, 0, 0, 6, 0, 0, 0, 0, 0, 0, 0, 5, 0, 0, 0, 0, 0, 0, 0],
    [1, 24, 0, 0, 0, 0, 1, 0, 0, 0, 0, 0, 0, 1, 0, 0, 0, 1, 0, 1, 32, 5, 0, 0, 0, 0, 0, 0, 0],
    [2, 12, 0, 0, 0, 1, 0, 0, 0, 5, 0, 0, 0, 0, 0, 0, 0],
    [0, 0, 0, 0, 0]]

theorem reading_freedTwice :
    Reading 64 (arrived [.ok freedTwiceFrames.flatten]) freedTwice freedTwiceFrames [] where
  written := by
    refine .cons ?_ (.cons ?_ (.cons ?_ (.cons ?_ (.cons ?_ (.cons ?_ .nil))))) <;> decide +kernel
  bytes := by rw [List.append_nil]; exact List.append_nil _
  close_last := by decide
  no_frame hopen := absurd (by decide) hopen

/-- The object that was named before goes once, and it is detached when it is named again. -/
theorem run_frees_seen_freedTwice :
    let written := (start Run.canvasRegistry.journaled ({}, []) 64 2).run
      [.ok freedTwiceFrames.flatten]
    ((freedTwice.flatMap Message.freedIds).dedup.length ≤ 2 ∧
      ∃ summary, ((start Run.canvasRegistry {} 64 2).run [.ok freedTwiceFrames.flatten]).1 =
        .ok summary) ∧
    ∃ first heap ref later,
      written.2.host.state.2 = (first ++ (.freed heap ref :: later)).flatMap (Round.entries 1) ∧
      (Round.freed heap ref).freedId? = some 5 ∧
      (∀ round ∈ first ++ later, round.freedId? ≠ some 5) ∧
      ∃ position heap' i d, ((first ++ (.freed heap ref :: later)).filterMap Round.delivery?)[1]? =
          some (position, heap', i) ∧
        i.args[0]? = some (.object (some d)) ∧ heap'.Detached 5 d := by
  have hok : ((start Run.canvasRegistry {} 64 2).run
      [.ok freedTwiceFrames.flatten]).1.isOk = true := by
    decide +kernel
  obtain ⟨summary, hsummary⟩ : ∃ summary, ((start Run.canvasRegistry {} 64 2).run
      [.ok freedTwiceFrames.flatten]).1 = .ok summary := by
    cases hrun : ((start Run.canvasRegistry {} 64 2).run [.ok freedTwiceFrames.flatten]).1 with
    | ok summary => exact ⟨summary, rfl⟩
    | error e =>
      rw [hrun] at hok
      cases hok
  have hroom : (freedTwice.flatMap Message.freedIds).dedup.length ≤ 2 := by decide
  obtain ⟨rounds, hjournal, -, hmention, d, hlater, -⟩ := run_frees_seen Run.canvasRegistry {}
    64 2 reading_freedTwice hsummary hroom 5
  have hacts : freedTwice.flatMap Message.actions =
      [.bind 1 "canvas.draw", .deliver 256 ⟨1, [.object ⟨5⟩]⟩, .free ⟨6⟩] ++
        .free ⟨5⟩ :: [.deliver 256 ⟨1, [.object ⟨5⟩]⟩, .free ⟨5⟩] := rfl
  have hfirst : ∀ a ∈ [.bind 1 "canvas.draw", .deliver 256 ⟨1, [.object ⟨5⟩]⟩, .free ⟨6⟩],
      ¬ Action.Frees a 5 := by
    rintro a ha ⟨t, rfl, hnames⟩
    have ht : t = ⟨6⟩ := by simpa using ha
    subst ht
    exact absurd hnames (by decide)
  obtain ⟨mention, later, hrounds, hothers, hseen, -⟩ := hmention _ ⟨5⟩ _ hacts (by decide) hfirst
  obtain ⟨heap, ref, hround, hid⟩ := hseen ⟨.deliver 256 ⟨1, [.object ⟨5⟩]⟩, by simp,
    .argument (v := .object ⟨5⟩) (t := ⟨5⟩) (by simp) rfl (by decide)⟩
  rw [hrounds, hround] at hjournal hlater
  rw [List.append_cons] at hacts
  obtain ⟨position, heap', i, hshown, -, hargs⟩ := hlater _ 256 ⟨1, [.object ⟨5⟩]⟩ _ hacts
    ⟨.free ⟨5⟩, by simp, ⟨5⟩, rfl, by decide⟩
  obtain ⟨harg, hdetached⟩ := hargs 0 (.object ⟨5⟩) ⟨5⟩ rfl rfl (by decide)
  exact ⟨⟨hroom, summary, hsummary⟩, _, heap, ref, later, hjournal, hid, hothers,
    position, heap', i, d, hshown, harg, hdetached⟩

end Session

end TraceRelay
