import Mathlib.Data.List.Induction
import TraceRelay.Proofs.Heap.Lookup
import TraceRelay.Proofs.Heap.Removals

/-!
# What is known of objects

A call that names an object by a token that is not null is a mention of the object that it finds.
The replica of an object tells of its mentions and of nothing else: the token is that of the last
one, the time at which the object was last seen is the number of the last one among all mentions,
and the data is what was attached last. This holds of live objects, of detached ones, and of those
that are gone.

## Main definitions

* `Heap.Mention` : a token that names an object, with the data that comes with it.
* `Heap.mentions` : the mentions among calls, in order.
* `Heap.Mention.Changes` : what a mention changes.
* `Heap.Reflects`, `Heap.Faithful` : a replica, and all replicas, tell of the mentions.

## Main results

* `Heap.Consistent.changes_next` : a mention changes the clock and the object that it finds.
* `Heap.Consistent.object?_next_of_ne` : a call changes nothing of the objects that it does not find
  by a mention.
* `Heap.faithful_after` : the replicas after any calls.
* `Heap.objects_reflect_mentions` : what is known of objects follows their mentions.
-/

namespace TraceRelay

/-- The data that a call attaches. -/
def HeapCall.info? : HeapCall → Option ObjectInfo
  | attach _ data => some data
  | _ => none

namespace Heap

/-- A token that is not null names an object. -/
structure Mention where
  token : Token
  /-- The data that is attached to the object. -/
  info : Option ObjectInfo
  /-- The object, unless none could be made. -/
  found : Option ObjectRef
deriving DecidableEq

/-- The mention that a call is. -/
def mention? (h : Heap) (c : HeapCall) : Option Mention :=
  match c.named? with
  | some t => if t.isNull then none else some ⟨t, c.info?, (h.answer c).toOption.join⟩
  | none => none

/-- The mentions among calls, in order. -/
def mentions (h : Heap) : List HeapCall → List Mention
  | [] => []
  | c :: calls => (h.mention? c).toList ++ (h.next c).mentions calls

/-- What a mention changes: the clock moves on, and the object that is found is told of the mention.
It may be a new one. -/
structure Mention.Changes (m : Mention) (h h' : Heap) : Prop where
  clock : h'.clock = h.clock + 1
  kept : ∀ {ref : ObjectRef}, m.found ≠ some ref → h'.object? ref = h.object? ref
  grows : h.objects.size ≤ h'.objects.size
  found : ∀ {ref : ObjectRef}, m.found = some ref → ∃ o, h'.object? ref = some o ∧
    o.token = m.token ∧ o.info = m.info.or ((h.object? ref).bind (·.info)) ∧
      ((∀ o', h.object? ref = some o' → o'.lastSeen ≤ h.clock + 1) → o.lastSeen = h.clock + 1)

/-- What a replica tells is what the mentions of the object say: the last one of them has its token,
and its number among all mentions is the time of the replica; the data is what was attached last. -/
structure Reflects (ms : List Mention) (ref : ObjectRef) (o : Replica) : Prop where
  latest : ∃ i m, ms[i]? = some m ∧ m.found = some ref ∧
    (∀ j m', i < j → ms[j]? = some m' → m'.found ≠ some ref) ∧
      o.token = m.token ∧ o.lastSeen.toNat = i + 1
  info : o.info = ((ms.filter (·.found = some ref)).filterMap (·.info)).getLast?

variable {h : Heap} {c : HeapCall} {t : Token} {m : Mention} {ms : List Mention} {ref : ObjectRef}

theorem mention?_eq_some_iff : h.mention? c = some m ↔ ∃ t, c.named? = some t ∧ t.isNull = false ∧
    m = ⟨t, c.info?, (h.answer c).toOption.join⟩ := by
  unfold mention?
  cases hnamed : c.named? with
  | none => simp
  | some t => cases ht : t.isNull <;> simp [ht, eq_comm (b := m)]

theorem mentions_append (h : Heap) (calls calls' : List HeapCall) :
    h.mentions (calls ++ calls') = h.mentions calls ++ (h.after calls).mentions calls' := by
  induction calls generalizing h with
  | nil => rfl
  | cons c calls ih => rw [List.cons_append, mentions, mentions, ih, List.append_assoc, after_cons]

theorem mentions_concat (h : Heap) (calls : List HeapCall) (c : HeapCall) :
    h.mentions (calls ++ [c]) = h.mentions calls ++ ((h.after calls).mention? c).toList := by
  rw [mentions_append, mentions, mentions, List.append_nil]

/-- A call that finds an object by a token is a mention of it. -/
theorem mention?_of_answer (hnamed : c.named? = some t) (hfound : h.answer c = .ok (some ref)) :
    ∃ m, h.mention? c = some m ∧ m.found = some ref := by
  refine ⟨⟨t, c.info?, some ref⟩, mention?_eq_some_iff.mpr ⟨t, hnamed, ?_, ?_⟩, rfl⟩
  · rw [← Bool.not_eq_true]
    intro ht
    cases c <;> cases hnamed <;> simp [answer, call, attach_eq, Heap.resolve, ht] at hfound
  · rw [hfound]
    rfl

/-! ### One call -/

theorem Leaves.clock_eq {id : ObjectId} {left : Heap} (hleaves : Leaves id h left) :
    left.clock = h.clock := by
  cases hleaves <;> rfl

theorem Buries.clock_eq {id : ObjectId} {h' : Heap} (hburies : Buries id h h') :
    h'.clock = h.clock := by
  cases hburies <;> rfl

theorem object?_update (h : Heap) (ref : ObjectRef) (f : Replica → Replica) (other : ObjectRef) :
    (h.update ref f).object? other =
      if ref = other then (h.object? other).map f else h.object? other :=
  Array.getElem?_modify

/-- An object is told of a mention. -/
theorem changes_touch {o : Replica} (ho : h.object? ref = some o) :
    Mention.Changes ⟨t, none, some ref⟩ h (h.tick.update ref (.touch t h.tick.clock)) where
  clock := rfl
  kept hne := (object?_update h.tick ref _ _).trans (if_neg fun heq => hne (congrArg some heq))
  grows := Nat.le_of_eq Array.size_modify.symm
  found := by
    rintro _ ⟨⟩
    refine ⟨o.touch t h.tick.clock, ?_, rfl, by simp [ho, Replica.touch], fun hseen => ?_⟩
    · rw [object?_update, if_pos rfl]
      exact congrArg (Option.map _) ho
    · exact if_pos (hseen o ho)

/-- A new object is made when it is mentioned. -/
theorem changes_first {h' : Heap} (handle : Handle) (hclock : h'.clock = h.clock + 1)
    (hobjects : h'.objects = h.objects.push (.first handle t (h.clock + 1))) :
    Mention.Changes ⟨t, none, some h.objects.size⟩ h h' where
  clock := hclock
  kept hne := by
    rw [object?, object?, hobjects, Array.getElem?_push,
      if_neg fun heq => hne (congrArg some heq.symm)]
  grows := by
    rw [hobjects, Array.size_push]
    exact Nat.le_succ _
  found := by
    rintro _ ⟨⟩
    refine ⟨.first handle t (h.clock + 1), ?_, rfl, ?_, fun _ => rfl⟩
    · rw [object?, hobjects, Array.getElem?_push, if_pos rfl]
    · simp [object?, Replica.first]

/-- Data is attached to the object that was mentioned. -/
theorem Mention.Changes.inform {h' : Heap} (hchanges : Changes ⟨t, none, some ref⟩ h h')
    (data : ObjectInfo) :
    Changes ⟨t, some data, some ref⟩ h (h'.update ref ({ · with info := some data })) where
  clock := hchanges.clock
  kept hne := by
    rw [object?_update, if_neg fun heq => hne (congrArg some heq)]
    exact hchanges.kept hne
  grows := Nat.le_trans hchanges.grows (Nat.le_of_eq Array.size_modify.symm)
  found := by
    rintro _ ⟨⟩
    obtain ⟨o, ho, htoken, -, hseen⟩ := hchanges.found rfl
    refine ⟨{ o with info := some data }, ?_, htoken, by simp, hseen⟩
    rw [object?_update, if_pos rfl, ho, Option.map_some]

theorem Mention.Changes.failed (t : Token) (info : Option ObjectInfo) (h : Heap) :
    Changes ⟨t, info, none⟩ h h.tick where
  clock := rfl
  kept _ := rfl
  grows := Nat.le_refl _
  found := nofun

namespace Consistent

theorem changes_resolves (hc : h.Consistent) {r : Outcome} (hresolves : Resolves t h.tick r) :
    ∃ found, (r = .error .exhausted h.tick ∧ found = none ∨
      ∃ ref, found = some ref ∧ r = .ok (some ref) (Step.final r)) ∧
      Mention.Changes ⟨t, none, found⟩ h (Step.final r) := by
  cases hresolves with
  | @known ref hknown =>
    obtain ⟨handle, hx⟩ := hc.tick.identity?_of_ref? hknown
    obtain ⟨o, ho, -⟩ := identity?_eq_some_iff.mp hx
    exact ⟨some ref, .inr ⟨ref, rfl, rfl⟩, changes_touch ho⟩
  | detached =>
    exact ⟨some h.objects.size, .inr ⟨_, rfl, rfl⟩, changes_first .detached rfl rfl⟩
  | settled hunknown hroom =>
    refine ⟨some h.objects.size, .inr ⟨_, rfl, rfl⟩, ?_⟩
    cases hroom with
    | already => exact changes_first _ rfl rfl
    | grown => exact changes_first _ rfl rfl
  | exhausted => exact ⟨none, .inl ⟨rfl, rfl⟩, .failed t none h⟩

/-- A mention changes the clock and the object that it finds, and nothing of other objects. -/
theorem changes_next (hc : h.Consistent) (hm : h.mention? c = some m) : m.Changes h (h.next c) := by
  obtain ⟨t, hnamed, ht, rfl⟩ := mention?_eq_some_iff.mp hm
  obtain ⟨found, hends, hchanges⟩ := hc.changes_resolves (resolve_resolves ht h)
  cases c with
  | resolve t' =>
    cases hnamed
    have hanswer : (h.answer (.resolve t)).toOption.join = found := by
      simp only [answer, call]
      rcases hends with ⟨hr, rfl⟩ | ⟨ref, rfl, hr⟩ <;> rw [hr] <;> rfl
    rw [hanswer]
    exact hchanges
  | attach t' data =>
    cases hnamed
    simp only [answer, Heap.next, call, attach_eq]
    rcases hends with ⟨hr, rfl⟩ | ⟨ref, rfl, hr⟩
    · rw [hr]
      exact .failed t _ h
    · rw [hr]
      exact hchanges.inform data
  | get handle => cases hnamed
  | lookup t' => cases hnamed
  | remove t' => cases hnamed

/-- A call that mentions no object changes nothing of what is known of them. -/
theorem objects_next_of_not_mention (hc : h.Consistent) (hm : h.mention? c = none) :
    (h.next c).clock = h.clock ∧ (h.next c).objects = h.objects := by
  cases c with
  | get handle => exact ⟨rfl, rfl⟩
  | lookup t => exact ⟨rfl, rfl⟩
  | resolve t =>
    have ht : t.isNull = true := by simpa [mention?, HeapCall.named?] using hm
    simp [Heap.next, call, resolve, ht, Step.final]
  | attach t data =>
    have ht : t.isNull = true := by simpa [mention?, HeapCall.named?] using hm
    simp [Heap.next, call, attach_eq, resolve, ht, Step.final]
  | remove t =>
    cases ht : t.isNull with
    | true => simp [Heap.next, call, remove, ht, Step.final]
    | false =>
      have hnext : h.next (.remove t) = (h.vacate t.objectId).2.bury t.objectId := by
        simp [Heap.next, call, remove, ht, Step.final]
      have hleaves := vacate_leaves h t.objectId
      have hlength : (h.vacate t.objectId).2.freedOrder.toList.length ≤
          (h.vacate t.objectId).2.maxFreed := by
        rw [hleaves.freedOrder_eq, hleaves.maxFreed_eq]
        exact hc.length_freedOrder
      have hburies := bury_buries hlength t.objectId
      rw [hnext]
      refine ⟨?_, hburies.objects_eq.trans hleaves.objects_eq⟩
      rw [hburies.clock_eq, hleaves.clock_eq]

/-- A call keeps what is known of the objects that it does not find by a mention. -/
theorem object?_next_of_ne (hc : h.Consistent)
    (hne : ∀ m, h.mention? c = some m → m.found ≠ some ref) :
    (h.next c).object? ref = h.object? ref := by
  cases hm : h.mention? c with
  | none => rw [object?, (hc.objects_next_of_not_mention hm).2, object?]
  | some m => exact (hc.changes_next hm).kept (hne m hm)

/-- What a call answers with is an object that is known afterwards. -/
theorem identity?_of_answer (hc : h.Consistent) (hfound : h.answer c = .ok (some ref)) :
    ∃ x, (h.next c).identity? ref = some x := by
  cases c with
  | resolve t | attach t data =>
    obtain ⟨m, hm, hmfound⟩ := mention?_of_answer rfl hfound
    obtain ⟨o, ho, -⟩ := (hc.changes_next hm).found hmfound
    exact ⟨_, identity?_eq_some_iff.mpr ⟨o, ho, rfl, rfl⟩⟩
  | get handle =>
    have hcell := get?_eq_some_iff.mp (Except.ok.inj hfound)
    obtain ⟨id, hx, -⟩ := hc.occupied_live hcell
    exact ⟨_, hx⟩
  | lookup t =>
    obtain ⟨o, ho, -⟩ := hc.lookup?_eq_some_iff.mp (Except.ok.inj hfound)
    exact ⟨_, identity?_eq_some_iff.mpr ⟨o, ho, rfl, rfl⟩⟩
  | remove t =>
    have hremoved : h.removed? (.remove t) = some ref := Except.ok.inj hfound
    obtain ⟨id, -, hlive⟩ := live_of_removed? hremoved
    obtain ⟨handle, hx, -⟩ := hc.identity?_of_live hlive
    exact ⟨_, hc.identity?_next _ hx⟩

end Consistent

/-! ### Many calls -/

namespace Reflects

variable {o : Replica}

/-- The mention of another object is no news. -/
theorem other (hreflects : Reflects ms ref o) (hne : m.found ≠ some ref) :
    Reflects (ms ++ [m]) ref o where
  latest := by
    obtain ⟨i, m', hm', hfound, hlast, htoken, hseen⟩ := hreflects.latest
    have hi := (List.getElem?_eq_some_iff.mp hm').1
    refine ⟨i, m', by rw [List.getElem?_append_left hi, hm'], hfound, ?_, htoken, hseen⟩
    intro j m'' hij hm''
    rw [List.getElem?_append] at hm''
    split at hm''
    · exact hlast j m'' hij hm''
    · rw [List.mem_singleton.mp (List.mem_of_getElem? hm'')]
      exact hne
  info := by
    rw [hreflects.info, List.filter_append]
    simp [hne]

/-- The last mention of an object tells its token and its time. -/
theorem now (hfound : m.found = some ref) (htoken : o.token = m.token)
    (hseen : o.lastSeen.toNat = ms.length + 1)
    (hinfo : o.info =
      m.info.or ((ms.filter (·.found = some ref)).filterMap (·.info)).getLast?) :
    Reflects (ms ++ [m]) ref o where
  latest := by
    refine ⟨ms.length, m, by simp, hfound, fun j m' hj hm' => ?_, htoken, hseen⟩
    have hlt := (List.getElem?_eq_some_iff.mp hm').1
    rw [List.length_append, List.length_singleton] at hlt
    omega
  info := by
    rw [hinfo, List.filter_append]
    cases hm : m.info <;> simp [hfound, hm]

/-- A replica was last seen when a mention had found it, and no later. -/
theorem lastSeen_le (hreflects : Reflects ms ref o) : o.lastSeen.toNat ≤ ms.length := by
  obtain ⟨i, m, hm, -, -, -, hseen⟩ := hreflects.latest
  have hi := (List.getElem?_eq_some_iff.mp hm).1
  omega

/-- Which of two objects was seen last. -/
theorem lastSeen_lt_iff {ref' : ObjectRef} {o' : Replica} (hreflects : Reflects ms ref o)
    (hreflects' : Reflects ms ref' o') :
    o.lastSeen < o'.lastSeen ↔ ∃ (i : Nat) (m : Mention), ms[i]? = some m ∧ m.found = some ref' ∧
      ∀ (j : Nat) (m' : Mention), i ≤ j → ms[j]? = some m' → m'.found ≠ some ref := by
  obtain ⟨i, m, hm, hfound, hlast, -, hseen⟩ := hreflects.latest
  obtain ⟨i', m', hm', hfound', hlast', -, hseen'⟩ := hreflects'.latest
  rw [UInt64.lt_iff_toNat_lt, hseen, hseen']
  constructor
  · intro hlt
    exact ⟨i', m', hm', hfound', fun j m'' hj => hlast j m'' (by omega)⟩
  · rintro ⟨k, mk, hmk, hfoundk, hlastk⟩
    have hik : i < k := by
      by_contra hle
      exact hlastk i m (Nat.not_lt.mp hle) hm hfound
    have hki : k ≤ i' := by
      by_contra hlt
      exact hlast' k mk (Nat.not_le.mp hlt) hmk hfoundk
    omega

end Reflects

/-- The replicas of a heap tell of the mentions that there were. -/
structure Faithful (ms : List Mention) (h : Heap) : Prop where
  clock : h.clock.toNat = ms.length
  known : ∀ {m : Mention} {ref : ObjectRef}, m ∈ ms → m.found = some ref → ref < h.objects.size
  reflects : ∀ {ref : ObjectRef} {o : Replica}, h.object? ref = some o → Reflects ms ref o

namespace Faithful

theorem start (n : Nat) : Faithful [] { maxFreed := n } where
  clock := rfl
  known := nofun
  reflects := nofun

/-- The clock does not run over at a mention as long as there are not too many. -/
theorem toNat_clock (hfaithful : Faithful ms h) (hfew : ms.length + 1 < UInt64.size) :
    (h.clock + 1).toNat = ms.length + 1 := by
  rw [UInt64.toNat_add, hfaithful.clock]
  exact Nat.mod_eq_of_lt hfew

theorem lastSeen_lt_clock (hfaithful : Faithful ms h) (hfew : ms.length + 1 < UInt64.size)
    {o : Replica} (ho : h.object? ref = some o) : o.lastSeen < h.clock + 1 := by
  rw [UInt64.lt_iff_toNat_lt, hfaithful.toNat_clock hfew]
  exact Nat.lt_succ_of_le (hfaithful.reflects ho).lastSeen_le

/-- The object that a mention finds tells of the mention. -/
theorem reflects_found (hfaithful : Faithful ms h) (hfew : ms.length + 1 < UInt64.size)
    {h' : Heap} (hchanges : m.Changes h h') (hfound : m.found = some ref) {o : Replica}
    (ho : h'.object? ref = some o) : Reflects (ms ++ [m]) ref o := by
  obtain ⟨o', ho', htoken, hinfo, hseen⟩ := hchanges.found hfound
  cases ho.symm.trans ho'
  refine .now hfound htoken ?_ ?_
  · rw [hseen fun o' ho' => UInt64.le_of_lt (hfaithful.lastSeen_lt_clock hfew ho'),
      hfaithful.toNat_clock hfew]
  · rw [hinfo]
    refine congrArg m.info.or ?_
    cases hbefore : h.object? ref with
    | some before => exact (hfaithful.reflects hbefore).info
    | none =>
      -- A new object was not mentioned before, so that no data can have been attached to it.
      have hnew : ms.filter (·.found = some ref) = [] := by
        refine List.filter_eq_nil_iff.mpr fun m' hmem => ?_
        rw [decide_eq_true_iff]
        intro hfound'
        rw [object?, Array.getElem?_eq_none_iff] at hbefore
        exact absurd (hfaithful.known hmem hfound') (Nat.not_lt.mpr hbefore)
      rw [hnew]
      rfl

theorem mention (hfaithful : Faithful ms h) (hfew : ms.length + 1 < UInt64.size) {h' : Heap}
    (hchanges : m.Changes h h') :
    Faithful (ms ++ [m]) h' where
  clock := by
    rw [hchanges.clock, hfaithful.toNat_clock hfew, List.length_append, List.length_singleton]
  known := by
    intro m' ref hmem hfound
    rcases List.mem_append.mp hmem with hbefore | hnow
    · exact Nat.lt_of_lt_of_le (hfaithful.known hbefore hfound) hchanges.grows
    · rw [List.mem_singleton.mp hnow] at hfound
      obtain ⟨o, ho, -⟩ := hchanges.found hfound
      exact (Array.getElem?_eq_some_iff.mp ho).1
  reflects := by
    intro ref o ho
    by_cases hfound : m.found = some ref
    · exact hfaithful.reflects_found hfew hchanges hfound ho
    · rw [hchanges.kept hfound] at ho
      exact (hfaithful.reflects ho).other hfound

/-- A call keeps the replicas faithful. -/
theorem next (hfaithful : Faithful ms h) (hc : h.Consistent)
    (hfew : (ms ++ (h.mention? c).toList).length < UInt64.size) :
    Faithful (ms ++ (h.mention? c).toList) (h.next c) := by
  cases hm : h.mention? c with
  | none =>
    obtain ⟨hclock, hobjects⟩ := hc.objects_next_of_not_mention hm
    rw [Option.toList_none, List.append_nil]
    refine ⟨hclock ▸ hfaithful.clock, hobjects ▸ hfaithful.known, fun ho => ?_⟩
    rw [object?, hobjects] at ho
    exact hfaithful.reflects ho
  | some m =>
    rw [hm, Option.toList_some, List.length_append, List.length_singleton] at hfew
    exact hfaithful.mention hfew (hc.changes_next hm)

end Faithful

/-- The replicas of a heap are faithful after any calls, as long as there are not too many
mentions. -/
theorem faithful_after (n : Nat) (calls : List HeapCall)
    (hfew : (({ maxFreed := n } : Heap).mentions calls).length < UInt64.size) :
    Faithful (({ maxFreed := n } : Heap).mentions calls)
      (({ maxFreed := n } : Heap).after calls) := by
  induction calls using List.reverseRecOn with
  | nil => exact .start n
  | append_singleton calls c ih =>
    rw [mentions_concat] at hfew ⊢
    rw [after_append, after_cons, after_nil]
    refine (ih ?_).next (consistent_start n calls).1 hfew
    rw [List.length_append] at hfew
    omega

/-- What one call of a run tells an object: the call that finds it by a mention makes it seen later
than before, and no other call changes anything of it. -/
theorem Faithful.object?_next {o : Replica} (hfaithful : Faithful ms h) (hc : h.Consistent)
    (hfew : (ms ++ (h.mention? c).toList).length < UInt64.size) (ho : h.object? ref = some o) :
    ∃ o', (h.next c).object? ref = some o' ∧ o'.id = o.id ∧ o'.handle = o.handle ∧
      (c.named?.isSome ∧ h.answer c = .ok (some ref) → o.lastSeen < o'.lastSeen) ∧
      (¬ (c.named?.isSome ∧ h.answer c = .ok (some ref)) → o' = o) := by
  have hx := hc.identity?_next c (identity?_eq_some_iff.mpr ⟨o, ho, rfl, rfl⟩)
  obtain ⟨o', ho', hid, hhandle⟩ := identity?_eq_some_iff.mp hx
  refine ⟨o', ho', hid, hhandle, ?_, fun hother => ?_⟩
  · rintro ⟨hnamed, hanswer⟩
    obtain ⟨t, hnamed⟩ := Option.isSome_iff_exists.mp hnamed
    obtain ⟨m, hm, hfound⟩ := mention?_of_answer hnamed hanswer
    rw [hm, Option.toList_some, List.length_append, List.length_singleton] at hfew
    obtain ⟨o'', ho'', -, -, hseen⟩ := (hc.changes_next hm).found hfound
    cases ho'.symm.trans ho''
    have hearlier {other : Replica} (hother : h.object? ref = some other) :=
      hfaithful.lastSeen_lt_clock hfew hother
    rw [hseen fun _ hother => UInt64.le_of_lt (hearlier hother)]
    exact hearlier ho
  · rw [hc.object?_next_of_ne, ho] at ho'
    · exact (Option.some.inj ho').symm
    · intro m hm hfound
      obtain ⟨t, hnamed, -, rfl⟩ := mention?_eq_some_iff.mp hm
      refine hother ⟨by rw [hnamed]; rfl, ?_⟩
      cases hanswer : h.answer c with
      | error e => simp [hanswer, Except.toOption] at hfound
      | ok found =>
        rw [hanswer] at hfound
        exact congrArg Except.ok hfound

/-- **What is known of objects follows their mentions**, as long as there are not so many that the
clock runs over. Whatever a call answers with is an object that stays known, be it live, detached or
gone. Its token is that of the last mention that found it, the time at which it was last seen is the
number of that mention among all mentions, and its data is what was attached last. Of two objects
the one that was found last was seen last. The calls that find an object by a mention make it seen
later than before, and all other calls leave everything of it as it is. -/
theorem objects_reflect_mentions (n : Nat) (calls : List HeapCall)
    (hfew : (({ maxFreed := n } : Heap).mentions calls).length < UInt64.size) :
    let start : Heap := { maxFreed := n }
    let h := start.after calls
    let ms := start.mentions calls
    (∀ before c ref, before ++ [c] <+: calls → (start.after before).answer c = .ok (some ref) →
      ∃ o, h.object? ref = some o) ∧
    (∀ ref o, h.object? ref = some o → Reflects ms ref o) ∧
    (∀ ref ref' o o', h.object? ref = some o → h.object? ref' = some o' →
      (o.lastSeen < o'.lastSeen ↔ ∃ (i : Nat) (m : Mention), ms[i]? = some m ∧
        m.found = some ref' ∧
          ∀ (j : Nat) (m' : Mention), i ≤ j → ms[j]? = some m' → m'.found ≠ some ref)) ∧
    ∀ before c ref o, before ++ [c] <+: calls → (start.after before).object? ref = some o →
      ∃ o', (start.after (before ++ [c])).object? ref = some o' ∧ o'.id = o.id ∧
        o'.handle = o.handle ∧
        (c.named?.isSome ∧ (start.after before).answer c = .ok (some ref) →
          o.lastSeen < o'.lastSeen) ∧
        (¬ (c.named?.isSome ∧ (start.after before).answer c = .ok (some ref)) → o' = o) := by
  intro start h ms
  have hfaithful : Faithful ms h := faithful_after n calls hfew
  refine ⟨?_, fun ref o ho => hfaithful.reflects ho, fun ref ref' o o' ho ho' =>
    (hfaithful.reflects ho).lastSeen_lt_iff (hfaithful.reflects ho'), ?_⟩
  · rintro before c ref ⟨behind, rfl⟩ hanswer
    have hc := (consistent_start n before).1
    obtain ⟨⟨id, handle⟩, hx⟩ := hc.identity?_of_answer hanswer
    have hx' := (hc.next c).identity?_after hx behind
    obtain ⟨o, ho, -⟩ := identity?_eq_some_iff.mp hx'
    refine ⟨o, ?_⟩
    simp only [h, after_append, after_cons, after_nil]
    exact ho
  · rintro before c ref o ⟨behind, rfl⟩ ho
    have hfew' := hfew
    rw [mentions_append, mentions_concat, List.length_append, List.length_append] at hfew'
    have hbefore := faithful_after n before (by omega)
    rw [after_append, after_cons, after_nil]
    refine hbefore.object?_next (consistent_start n before).1 ?_ ho
    rw [List.length_append]
    omega

theorem objects_reflect_mentions_gone :
    let start : Heap := { maxFreed := 1 }
    let one := numberedToken 1
    let two := numberedToken 2
    let calls : List HeapCall :=
      [.attach one (.text "a"), .remove two, .resolve two, .resolve one.withData, .remove one]
    (start.mentions calls).length = 3 ∧
      ∃ o, (start.after calls).object? 0 = some o ∧ Reflects (start.mentions calls) 0 o ∧
        o.token = one.withData ∧ o.lastSeen = 3 ∧ o.info = some (.text "a") := by
  intro start one two calls
  have hlength : (start.mentions calls).length = 3 := by decide +kernel
  obtain ⟨-, hreflects, -⟩ := objects_reflect_mentions 1 calls (by rw [hlength]; decide)
  have ho : (start.after calls).object? 0 = some ⟨⟨0, 0⟩, one.objectId, one.withData, 3,
    some (.text "a")⟩ := by decide +kernel
  exact ⟨hlength, _, ho, hreflects 0 _ ho, rfl, rfl, rfl⟩

end Heap

end TraceRelay
