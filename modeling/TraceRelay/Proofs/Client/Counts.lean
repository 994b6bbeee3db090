import TraceRelay.Proofs.Client.Tracked

/-!
# How much a session sends

The messages of a session carry as many records as were accepted, announce as many methods as there
are different names that were registered, and tell the end of as many streams as have ended.

## Main definitions

* `Parcel.entries` : the records that a message carries, each with its stream.

## Main results

* `Ledger.Accounts.length_records`, `Ledger.Announces.length_announced`, `Run.Tracks.length_ended` :
  the three numbers.
-/

namespace TraceRelay

/-! ### Records -/

/-- The records that a message carries, each with its stream. -/
def Parcel.entries (p : Parcel) : List (StreamRef × Record) :=
  match p.source with
  | some ref => p.message.records.map fun r => (ref, r)
  | none => []

/-- Records with their streams are determined, up to their order, by the records of each stream. -/
private theorem count_recordsFor (ref : StreamRef) (r : Record) (xs : List (StreamRef × Record)) :
    xs.count (ref, r) = (recordsFor ref xs).count r := by
  induction xs with
  | nil => rfl
  | cons x xs ih =>
    obtain ⟨other, r'⟩ := x
    have hcons : recordsFor ref ((other, r') :: xs) =
        (if other = ref then [r'] else []) ++ recordsFor ref xs := by
      rw [← recordsFor_singleton, ← recordsFor_append, List.singleton_append]
    rw [hcons, List.count_append, ← ih, List.count_cons]
    by_cases hother : other = ref
    · by_cases hr : r' = r
      · simp [hother, hr, Nat.add_comm]
      · simp [hother, hr]
    · simp [hother]

theorem perm_of_recordsFor {xs ys : List (StreamRef × Record)}
    (h : ∀ ref, recordsFor ref xs = recordsFor ref ys) : xs.Perm ys := by
  rw [List.perm_iff_count]
  rintro ⟨ref, r⟩
  rw [count_recordsFor, count_recordsFor, h ref]

private theorem recordsFor_entries (ref : StreamRef) (p : Parcel) :
    recordsFor ref p.entries = p.recordsOn ref := by
  have hmap (other : StreamRef) (rs : List Record) :
      recordsFor ref (rs.map fun r => (other, r)) = if other = ref then rs else [] := by
    rw [recordsFor, List.filterMap_map]
    split
    · next heq => simp [heq]
    · next hne => simp [hne]
  obtain ⟨source, message⟩ := p
  cases source with
  | none => cases message <;> rfl
  | some other =>
    change recordsFor ref (message.records.map fun r => (other, r)) = _
    rw [hmap]
    cases message with
    | analyze ordering records =>
      change _ = if some other = some ref then records else []
      simp only [Option.some.injEq]
      rfl
    | _ => exact ite_self _

private theorem length_entries {p : Parcel} (h : p.Sound) :
    p.entries.length = p.message.records.length := by
  obtain ⟨source, message⟩ := p
  cases message with
  | analyze ordering records =>
    obtain ⟨-, ref, rfl, -⟩ := h
    exact List.length_map _
  | _ => cases source <;> rfl

theorem recordsFor_flatMap_entries (ref : StreamRef) (parcels : List Parcel) :
    recordsFor ref (parcels.flatMap Parcel.entries) = parcels.flatMap (Parcel.recordsOn ref) := by
  rw [recordsFor, List.filterMap_flatMap]
  exact List.flatMap_congr fun p _ => recordsFor_entries ref p

/-- Messages carry as many records as were taken. -/
theorem length_records {parcels : List Parcel} {taken : List (StreamRef × Record)}
    (hsound : ∀ p ∈ parcels, p.Sound)
    (hrecords : ∀ ref, parcels.flatMap (Parcel.recordsOn ref) = recordsFor ref taken) :
    (parcels.flatMap fun p => p.message.records).length = taken.length := by
  have hperm : (parcels.flatMap Parcel.entries).Perm taken := by
    refine perm_of_recordsFor fun ref => ?_
    rw [← hrecords ref, recordsFor_flatMap_entries]
  rw [← hperm.length_eq, List.length_flatMap, List.length_flatMap]
  exact congrArg List.sum (List.map_congr_left fun p hp => (length_entries (hsound p hp)).symm)

/-! ### Methods -/

/-- As many methods are announced as there are different names that were registered. -/
theorem Ledger.Announces.length_announced {l : Ledger} {named : List (String × MethodId)}
    (h : l.Announces named) : l.announced.length = (named.map (·.1)).dedup.length := by
  have hids : (l.announced.map (·.1)).Nodup := by
    rw [h.ids]
    exact MethodId.nodup_upTo h.few
  have hnames : (l.announced.map (·.2)).Nodup := by
    refine hids.of_map.map_on fun a ha b hb heq => Prod.ext ?_ heq
    have hfind := (h.find a.2 a.1).2 ha
    rw [heq, (h.find b.2 b.1).2 hb] at hfind
    exact (Option.some.inj hfind).symm
  have hperm : (l.announced.map (·.2)).Perm (named.map (·.1)).dedup := by
    refine (List.perm_ext_iff_of_nodup hnames (List.nodup_dedup _)).2 fun name => ?_
    rw [List.mem_dedup, List.mem_map, List.mem_map]
    constructor
    · rintro ⟨⟨id, name⟩, hmem, rfl⟩
      exact ⟨(name, id), (h.named name id).2 hmem, rfl⟩
    · rintro ⟨⟨name, id⟩, hmem, rfl⟩
      exact ⟨(id, name), (h.named name id).1 hmem, rfl⟩
  rw [← hperm.length_eq, List.length_map]

/-! ### Ends of streams -/

theorem countP_endsThread {parcels : List Parcel} (hsound : ∀ p ∈ parcels, p.Sound) :
    (parcels.countP fun p => p.message.endsThread) = (parcels.filterMap Parcel.ends?).length := by
  induction parcels with
  | nil => rfl
  | cons p parcels ih =>
    have hp := hsound p List.mem_cons_self
    rw [List.countP_cons, ih fun q hq => hsound q (List.mem_cons_of_mem p hq)]
    obtain ⟨source, message⟩ := p
    cases message with
    | threadEnd ordering =>
      obtain ⟨position, rfl, -⟩ := hp
      rfl
    | _ => rfl

/-- The end is told of as many streams as have ended. -/
theorem Run.Tracks.length_ended {r : Run} {l : Ledger} (h : r.Tracks l) :
    l.ended.length = r.client.own.toList.countP (·.closed) := by
  have hown : r.client.own.toList =
      (List.range r.client.own.size).map fun p => r.client.stream (.own p) := by
    refine List.ext_getElem (by simp) fun p hp _ => ?_
    rw [Array.length_toList] at hp
    rw [List.getElem_map, List.getElem_range, Array.getElem_toList]
    change _ = (r.client.own[p]?).getD _
    rw [Array.getElem?_eq_getElem hp, Option.getD_some]
  rw [hown, List.countP_map, List.countP_eq_length_filter]
  refine List.Perm.length_eq ?_
  refine (List.perm_ext_iff_of_nodup h.ends.nodup (List.nodup_range.filter _)).2 fun p => ?_
  have hclosed := (h.shows.streams (.own p)).closed
  rw [h.ends.mem_iff, List.mem_filter, List.mem_range, h.shows.size_own]
  constructor
  · intro hpage
    refine ⟨Nat.lt_of_not_le fun hle => ?_, hclosed.trans hpage⟩
    rw [h.sound.blank p hle] at hpage
    cases hpage
  · exact fun ⟨_, hstream⟩ => hclosed.symm.trans hstream

end TraceRelay
