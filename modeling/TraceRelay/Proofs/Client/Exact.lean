import TraceRelay.Proofs.Client.Outline

/-!
# What a session sends

The frames of a session that ended in order carry, stream by stream, the records that were accepted,
in the order in which they were accepted, and the freed tokens likewise. The last frame tells the
end of the session, and no other one does.

Streams have different ordering ids as long as these do not run out, so then the same can be said of
each ordering id.

## Main definitions

* `Message.recordsUnder`, `recordsUnder` : the records of one ordering id.

## Main results

* `StreamRef.ordering_inj` : streams have different ordering ids.
* `Run.Completed.frames_exact` : the frames of a session.
-/

namespace TraceRelay

/-- The records that a message carries under an ordering id. -/
def Message.recordsUnder (ordering : UInt64) : Message → List Record
  | analyze other records => if other = ordering then records else []
  | _ => []

/-- The records of one ordering id among those of all streams. -/
def recordsUnder (ordering : UInt64) (taken : List (StreamRef × Record)) : List Record :=
  taken.filterMap fun (ref, r) => if ref.ordering = ordering then some r else none

/-- The streams of threads have the ordering ids behind those of the shared ones. -/
theorem StreamRef.toNat_ordering_own {position : Nat}
    (h : Message.sharedOrderings + position < UInt64.size) :
    (StreamRef.own position).ordering.toNat = Message.sharedOrderings + position :=
  UInt64.toNat_ofNat_of_lt' h

theorem StreamRef.toNat_ordering_shared (i : UInt8) :
    (StreamRef.shared i).ordering.toNat = i.toNat := UInt8.toNat_toUInt64 i

theorem StreamRef.ordering_shared_lt (i : UInt8) :
    (StreamRef.shared i).ordering.toNat < Message.sharedOrderings := by
  rw [toNat_ordering_shared]
  exact i.toNat_lt

/-- Streams have different ordering ids as long as these do not run out. -/
theorem StreamRef.ordering_inj {l : Ledger}
    (hfew : l.opened + Message.sharedOrderings ≤ UInt64.size) {ref ref' : StreamRef}
    (href : l.Has ref) (href' : l.Has ref') (h : ref.ordering = ref'.ordering) : ref = ref' := by
  have hown {p : Nat} (hp : l.Has (.own p)) :
      (StreamRef.own p).ordering.toNat = Message.sharedOrderings + p := by
    have hlt : p < l.opened := hp
    exact toNat_ordering_own (by omega)
  have htoNat := congrArg UInt64.toNat h
  cases ref with
  | shared i =>
    cases ref' with
    | shared j =>
      rw [toNat_ordering_shared, toNat_ordering_shared] at htoNat
      rw [UInt8.toNat_inj.1 htoNat]
    | own q =>
      have hi := ordering_shared_lt i
      rw [htoNat, hown href'] at hi
      omega
  | own p =>
    cases ref' with
    | shared j =>
      have hj := ordering_shared_lt j
      rw [← htoNat, hown href] at hj
      omega
    | own q =>
      rw [hown href, hown href'] at htoNat
      rw [Nat.add_left_cancel htoNat]

theorem mem_recordsFor {ref : StreamRef} {taken : List (StreamRef × Record)} {r : Record} :
    r ∈ recordsFor ref taken ↔ (ref, r) ∈ taken := by
  rw [recordsFor, List.mem_filterMap]
  constructor
  · rintro ⟨⟨other, r'⟩, hmem, hsome⟩
    dsimp only at hsome
    split at hsome
    · next heq =>
      cases hsome
      rwa [← heq]
    · cases hsome
  · exact fun hmem => ⟨(ref, r), hmem, if_pos rfl⟩

/-- Records that are exact stream by stream are exact for each ordering id. -/
theorem recordsUnder_eq {l : Ledger} {parcels : List Parcel} {taken : List (StreamRef × Record)}
    (hfew : l.opened + Message.sharedOrderings ≤ UInt64.size)
    (hhas : ∀ entry ∈ taken, l.Has entry.1)
    (hsound : ∀ p ∈ parcels, p.Sound)
    (hrecords : ∀ ref, parcels.flatMap (Parcel.recordsOn ref) = recordsFor ref taken)
    (ordering : UInt64) :
    parcels.flatMap (fun p => p.message.recordsUnder ordering) = recordsUnder ordering taken := by
  -- The stream of a frame with records is one that records were accepted on.
  have hsource {p : Parcel} (hp : p ∈ parcels) {other : UInt64} {records : List Record}
      (hmessage : p.message = .analyze other records) :
      ∃ ref r, p.source = some ref ∧ other = ref.ordering ∧ (ref, r) ∈ taken := by
    have hanalyze := hsound p hp
    rw [Parcel.Sound, hmessage] at hanalyze
    obtain ⟨hne, ref, hsome, hordering⟩ := hanalyze
    obtain ⟨r, hr⟩ := List.exists_mem_of_ne_nil records hne
    refine ⟨ref, r, hsome, hordering, mem_recordsFor.1 ?_⟩
    rw [← hrecords ref]
    refine List.mem_flatMap.2 ⟨p, hp, ?_⟩
    rw [Parcel.recordsOn, hmessage]
    dsimp only
    rwa [if_pos hsome]
  by_cases hsome : ∃ entry ∈ taken, entry.1.ordering = ordering
  · obtain ⟨⟨ref, r⟩, hentry, rfl⟩ := hsome
    have href := hhas _ hentry
    have htaken : recordsUnder ref.ordering taken = recordsFor ref taken := by
      refine List.filterMap_congr fun ⟨other, r'⟩ hmem => ?_
      dsimp only
      by_cases heq : other = ref
      · rw [if_pos heq, if_pos (congrArg StreamRef.ordering heq)]
      · rw [if_neg heq, if_neg fun h => heq (StreamRef.ordering_inj hfew (hhas _ hmem) href h)]
    rw [htaken, ← hrecords ref]
    refine List.flatMap_congr fun p hp => ?_
    cases hmessage : p.message with
    | analyze other records =>
      obtain ⟨ref', r', hsource', rfl, hmem⟩ := hsource hp hmessage
      rw [Parcel.recordsOn, hmessage, Message.recordsUnder, hsource']
      dsimp only
      by_cases heq : ref' = ref
      · rw [if_pos (congrArg StreamRef.ordering heq), if_pos (congrArg some heq)]
      · rw [if_neg fun h => heq (Option.some.inj h),
          if_neg fun h => heq (StreamRef.ordering_inj hfew (hhas _ hmem) href h)]
    | _ => rw [Parcel.recordsOn, hmessage]; rfl
  · have htaken : recordsUnder ordering taken = [] :=
      List.filterMap_eq_nil_iff.2 fun entry hentry => if_neg fun h => hsome ⟨entry, hentry, h⟩
    rw [htaken]
    refine List.flatMap_eq_nil_iff.2 fun p hp => ?_
    cases hmessage : p.message with
    | analyze other records =>
      obtain ⟨ref', r', -, rfl, hmem⟩ := hsource hp hmessage
      exact if_neg fun h => hsome ⟨_, hmem, h⟩
    | _ => rfl

namespace Run

variable {settings : ClientSettings} {calls : List Call} {r : Run} {frames : List Bytes}

/-- **What a session sends.** All that was accepted is sent, in order and without repetition,
nothing else is, and it does not depend on the settings. -/
theorem Completed.frames_exact (h : Completed settings calls r frames) :
    ∃ parcels : List Parcel,
      List.Forall₂ (fun p frame => p.message.toBytes = .ok frame) (parcels ++ [⟨none, .close⟩])
        frames ∧
      (∀ p ∈ parcels, p.Sound) ∧
      (∀ ref, parcels.flatMap (Parcel.recordsOn ref) = recordsFor ref r.accepted) ∧
      (r.client.own.size + Message.sharedOrderings ≤ UInt64.size → ∀ ordering,
        parcels.flatMap (fun p => p.message.recordsUnder ordering) =
          recordsUnder ordering r.accepted) ∧
      parcels.flatMap Parcel.tokens = r.freed ∧
      (Call.Orderly calls → ∀ settings' calls' r' frames',
        Completed settings' calls' r' frames' →
        calls'.filter Call.isCall = calls.filter Call.isCall →
        r'.accepted = r.accepted ∧ r'.freed = r.freed) := by
  obtain ⟨l, hl, hframes⟩ := h.tracks
  obtain ⟨parcels, hparcels, hsound, hrecords, htokens⟩ := hl.accounts.closeAll hl.sound
  rw [hparcels] at hframes
  refine ⟨parcels, hframes, hsound, hrecords, fun hfew => ?_, htokens, ?_⟩
  · rw [hl.shows.size_own] at hfew
    exact recordsUnder_eq hfew hl.has hsound hrecords
  · intro horderly settings' calls' r' frames' h' hcalls
    exact h.accepted_eq h' horderly hcalls

/-! ### A short session -/

/-- Two threads send a record each, one of them on a stream of its own, and an object is freed. -/
def twoThreads : List Call :=
  [.register "canvas.draw", .dispatch 0 1 [.int 3], .objectFreed ⟨5⟩, .begin 0 1 (some 7),
    .send 0 (.bool true), .finish 1 0, .runSender fun _ => .sent, .threadEnd 0]

/-- The run of the short session, in which a frame holds a single record. -/
def twoThreadsRun : Run := play { client := { settings := { batchRecords := 1 } } } twoThreads

/-- What the short session hands to the transport. -/
def twoThreadsFrames : List Bytes :=
  [[3, 18, 0, 0, 0, 1, 0, 16, 11, 0, 0, 0, 99, 97, 110, 118, 97, 115, 46, 100, 114, 97, 119],
    [1, 20, 0, 0, 0, 0, 1, 0, 0, 0, 0, 0, 0, 1, 0, 0, 0, 1, 0, 1, 6, 3, 0, 0, 0],
    [1, 16, 0, 0, 0, 7, 0, 0, 0, 0, 0, 0, 0, 1, 0, 0, 0, 1, 0, 1, 1],
    [7, 8, 0, 0, 0, 0, 1, 0, 0, 0, 0, 0, 0],
    [2, 12, 0, 0, 0, 1, 0, 0, 0, 5, 0, 0, 0, 0, 0, 0, 0],
    [0, 0, 0, 0, 0]]

set_option maxRecDepth 100000 in
theorem twoThreads_run :
    (twoThreadsRun.faults = [] ∧ twoThreadsRun.named = [("canvas.draw", 1)] ∧
      twoThreadsRun.accepted = [(.own 0, ⟨1, [.int 3]⟩), (.shared 7, ⟨1, [.bool true]⟩)] ∧
      twoThreadsRun.freed = [⟨5⟩] ∧
      twoThreadsRun.client.own.toList.countP (·.closed) = 1) ∧
    (∀ s ∈ twoThreadsRun.client.shared.toList, s.isIdle = true) ∧
    (∀ s ∈ twoThreadsRun.client.own.toList, s.isIdle = true) ∧
    twoThreadsRun.client.outbox.accepting = true ∧ twoThreadsRun.client.outbox.failure = none ∧
    twoThreadsRun.client.frees.take.1 = .ok twoThreadsFrames[4]? ∧
    twoThreadsRun.sent ++ (twoThreadsRun.client.outbox.waiting.toList ++
      twoThreadsFrames[4]?.toList ++ [MessageKind.close.byteOf :: [0, 0, 0, 0]]) =
        twoThreadsFrames := by
  decide +kernel

theorem twoThreads_completed :
    Completed { batchRecords := 1 } twoThreads twoThreadsRun twoThreadsFrames := by
  obtain ⟨⟨hfaults, -⟩, hshared, hown, haccepting, hfailure, hfreed, hframes⟩ :=
    twoThreads_run
  obtain ⟨c, hend⟩ := Client.shutdown_of_idle ⟨hshared, hown⟩ haccepting hfreed
    (ending_play { client := { settings := { batchRecords := 1 } } } twoThreads) hfailure
  refine ⟨⟨_, rfl, rfl⟩, ?_, _, _, c, hend, hframes.symm⟩
  rw [hfaults]
  exact List.not_mem_nil

theorem frames_exact_twoThreads :
    Completed { batchRecords := 1 } twoThreads twoThreadsRun twoThreadsFrames ∧
    ∃ parcels : List Parcel,
      List.Forall₂ (fun p frame => p.message.toBytes = .ok frame) (parcels ++ [⟨none, .close⟩])
        twoThreadsFrames ∧
      parcels.flatMap (Parcel.recordsOn (.own 0)) = [⟨1, [.int 3]⟩] ∧
      parcels.flatMap (Parcel.recordsOn (.shared 7)) = [⟨1, [.bool true]⟩] ∧
      parcels.flatMap Parcel.tokens = [⟨5⟩] := by
  obtain ⟨⟨-, -, haccepted, hfreed, -⟩, -⟩ := twoThreads_run
  obtain ⟨parcels, hframes, -, hrecords, -, htokens, -⟩ := twoThreads_completed.frames_exact
  rw [haccepted] at hrecords
  exact ⟨twoThreads_completed, parcels, hframes, hrecords _, hrecords _, htokens.trans hfreed⟩

end Run

end TraceRelay
