import TraceRelay.Analysis.Tally
import TraceRelay.Proofs.Client.Counts
import TraceRelay.Proofs.Client.Exact
import TraceRelay.Proofs.Session.Receive

/-!
# From one end to the other

What the sending side hands to the transport, the receiving side can act on. A session that ended in
order at one end ends in order at the other one, and counts there what was accepted here: records,
names, ends of streams, and bytes. The chunks in which the bytes arrive do not matter.

## Main results

* `Session.run_of_yields` : a session that is closed ends with what it counted.
* `Run.Completed.summary_eq` : what the receiving side counts.
-/

namespace TraceRelay

/-- What is counted of frames is decided by their messages, but for the bytes. -/
private theorem Summary.count_eq (frames : List Frame) : count frames = {
    events := ((frames.map (·.message)).flatMap Message.records).length
    registrations := ((frames.map (·.message)).filterMap Message.announces?).length
    threadEnds := (frames.map (·.message)).countP Message.endsThread
    bytes := (frames.map fun frame => frame.wireSize).sum } := by
  rw [List.flatMap_map, List.filterMap_map, List.countP_map]
  rfl

namespace Session

variable {σ : Type}

/-- A session that is closed ends with what it counted. -/
theorem run_of_yields {s : Session σ} {arrivals : List (Except TransportError Bytes)}
    {summary : Summary} (h : Yields (fun _ s' => s'.summary = summary) (receive arrivals s)) :
    (∃ frees t, s.run arrivals = (.ok { summary with frees }, t)) ∨
      ∃ e, (s.run arrivals).1 = .error (.heap e) := by
  unfold run
  cases hreceive : receive arrivals s with
  | ok _ s' =>
    rw [hreceive] at h
    cases h with
    | ok hsummary =>
      subst hsummary
      exact .inl ⟨_, _, rfl⟩
  | error e s' =>
    rw [hreceive] at h
    cases h with
    | exhausted e => exact .inr ⟨e, rfl⟩

/-- A session before its first byte has acted on nothing. -/
theorem acted_start (registry : Registry σ) (state : σ) (maxFrame maxFreed : Nat) :
    Acted registry [] (start registry state maxFrame maxFreed) where
  same := ⟨rfl, rfl⟩
  bound _ _ hmem := nomatch hmem
  other _ _ := rfl
  summary := rfl

end Session

namespace Run

variable {σ : Type} {settings : ClientSettings} {calls : List Call} {r : Run} {frames : List Bytes}

/-- The frames of a ledger announce their methods in time, under different numbers. -/
private theorem expects_of_announces {l : Ledger} {named : List (String × MethodId)}
    (h : l.Announces named) {registry : Registry σ}
    (haccepts : ∀ entry ∈ named, registry.Accepts entry.2 entry.1) {parcels : List Parcel}
    (hparcels : l.parcels = parcels ++ [⟨none, .close⟩]) (hsound : ∀ p ∈ parcels, p.Sound)
    {fs : List Frame} (hfs : fs.map (·.message) = parcels.map (·.message)) :
    Session.Expects registry [] fs := by
  have hannounced : Frame.announced fs = l.announced := by
    have hmessages := congrArg (List.filterMap Message.announces?) hfs
    rw [List.filterMap_map, List.filterMap_map] at hmessages
    rw [Ledger.announced, hparcels, List.filterMap_append]
    exact hmessages.trans (List.append_nil _).symm
  refine ⟨?_, ?_, fun id name hmem => ?_, fun frame hframe hclose => ?_⟩
  · have hinOrder := h.inOrder
    rw [hparcels, List.map_append, Message.inOrder_append] at hinOrder
    rw [hfs]
    exact hinOrder.1
  · rw [List.nil_append, hannounced, h.ids]
    exact MethodId.nodup_upTo h.few
  · rw [hannounced] at hmem
    refine ⟨?_, haccepts (name, id) ((h.named name id).2 hmem)⟩
    refine MethodId.ne_zero_of_mem_upTo h.few ?_
    rw [← h.ids]
    exact List.mem_map_of_mem hmem
  · have hmem : Message.close ∈ parcels.map (·.message) := by
      rw [← hfs, ← hclose]
      exact List.mem_map_of_mem hframe
    obtain ⟨p, hp, hmessage⟩ := List.mem_map.1 hmem
    have hfalse := hsound p hp
    rwa [Parcel.Sound, hmessage] at hfalse

/-- What is counted of the frames of a session: what was accepted, named and ended. -/
private theorem Tracks.count_eq {l : Ledger} (hl : r.Tracks l) {parcels : List Parcel}
    (hparcels : l.closeAll.parcels = parcels ++ [⟨none, .close⟩])
    (hsound : ∀ p ∈ parcels, p.Sound)
    (hrecords : ∀ ref, parcels.flatMap (Parcel.recordsOn ref) = recordsFor ref r.accepted)
    {all : List Frame} (hall : all.map (·.message) = l.closeAll.parcels.map (·.message)) :
    Summary.count all = {
      events := r.accepted.length
      registrations := (r.named.map (·.1)).dedup.length
      threadEnds := r.client.own.toList.countP (·.closed)
      bytes := (all.map fun frame => frame.wireSize).sum } := by
  have hevents : ((l.closeAll.parcels.map (·.message)).flatMap Message.records).length =
      r.accepted.length := by
    rw [hparcels, List.flatMap_map, List.flatMap_append, List.length_append,
      ← length_records hsound hrecords]
    rfl
  have hregistrations : ((l.closeAll.parcels.map (·.message)).filterMap Message.announces?).length =
      (r.named.map (·.1)).dedup.length := by
    rw [List.filterMap_map]
    exact hl.announces.closeAll.length_announced
  have hends : (l.closeAll.parcels.map (·.message)).countP Message.endsThread =
      r.client.own.toList.countP (·.closed) := by
    have hended : parcels.filterMap Parcel.ends? = l.ended := by
      rw [← Ledger.Ends.ended_closeAll, Ledger.ended, hparcels, List.filterMap_append]
      exact (List.append_nil _).symm
    rw [← hl.length_ended, ← hended, ← countP_endsThread hsound, hparcels, List.countP_map,
      List.countP_append]
    rfl
  rw [← hall] at hevents hregistrations hends
  rw [Summary.count_eq, hevents, hregistrations, hends]

/-- **What the receiving side counts.** -/
theorem Completed.summary_eq (h : Completed settings calls r frames) (registry : Registry σ)
    (state : σ) (maxFrame maxFreed : Nat)
    (hframes : ∀ frame ∈ frames, frame.length ≤ Message.headSize + maxFrame)
    (haccepts : ∀ entry ∈ r.named, registry.Accepts entry.2 entry.1)
    (hnothing : registry.RefusesNothing) (chunks : List Bytes)
    (hchunks : chunks.flatten = frames.flatten) (rest : List (Except TransportError Bytes))
    (hheap : ∀ e, ((Session.start registry state maxFrame maxFreed).run
      (chunks.map .ok ++ rest)).1 ≠ .error (.heap e)) :
    ∃ frees s, (Session.start registry state maxFrame maxFreed).run (chunks.map .ok ++ rest) =
      (.ok {
        events := r.accepted.length
        frees
        registrations := (r.named.map (·.1)).dedup.length
        threadEnds := r.client.own.toList.countP (·.closed)
        bytes := frames.flatten.length
        closedCleanly := true }, s) := by
  obtain ⟨l, hl, hbytes⟩ := h.tracks
  obtain ⟨parcels, hparcels, hsound, hrecords, -⟩ := hl.accounts.closeAll hl.sound
  obtain ⟨all, hall, hmessages, hsizes⟩ :=
    Frame.all_of_toBytes (List.forall₂_map_left_iff.2 hbytes) hframes
  have hcount := hl.count_eq hparcels hsound hrecords hmessages
  rw [hsizes] at hcount
  -- The frame of the last message is the one that closes the session.
  rw [hparcels, List.map_append, List.map_singleton] at hmessages
  obtain ⟨fs, gs, rfl, hfs, hgs⟩ := List.map_eq_append_iff.1 hmessages
  obtain ⟨last, rfl, hlast⟩ := List.map_eq_singleton_iff.1 hgs
  have hexpects := expects_of_announces hl.announces.closeAll haccepts hparcels hsound hfs
  have hreceive := Session.receive_yields rest
    (Session.acted_start registry state maxFrame maxFreed) (Nat.le_refl 0) hexpects hnothing hlast
    (by rw [hchunks]; exact hall)
  rw [List.nil_append, hcount] at hreceive
  rcases Session.run_of_yields hreceive with ⟨frees, s, hrun⟩ | ⟨e, hexhausted⟩
  · exact ⟨frees, s, hrun⟩
  · exact absurd hexhausted (hheap e)

/-! ### The short session at the other end -/

/-- A registry with the analysis that counts, for the methods of the short session. -/
def canvasRegistry : Registry Tally where
  installed := #[⟨"canvas", Tally.analysis⟩]
  positions := .ofList [("canvas", 0)]

/-- The short session as it arrives: the first chunk ends within a frame. -/
def twoThreadsChunks : List Bytes :=
  [twoThreadsFrames.flatten.take 30, twoThreadsFrames.flatten.drop 30]

theorem canvasRegistry_accepts : canvasRegistry.Accepts 1 "canvas.draw" := by
  have hbinding : canvasRegistry.binding? 1 = none := by decide +kernel
  rw [Registry.Accepts, hbinding]
  exact ⟨⟨"canvas", "draw"⟩, 0, _, by decide +kernel, by decide +kernel, rfl, rfl⟩

theorem canvasRegistry_refusesNothing : canvasRegistry.RefusesNothing := by
  intro a hmem heap invocation state
  cases List.mem_singleton.1 hmem
  exact ⟨_, rfl⟩

theorem summary_eq_twoThreads :
    Completed { batchRecords := 1 } twoThreads twoThreadsRun twoThreadsFrames ∧
    ∃ frees s, (Session.start canvasRegistry {} 64 8).run (twoThreadsChunks.map .ok ++ []) =
      (.ok {
        events := 2
        frees
        registrations := 1
        threadEnds := 1
        bytes := 104
        closedCleanly := true }, s) := by
  obtain ⟨⟨-, hnamed, haccepted, -, hends⟩, -⟩ := twoThreads_run
  have haccepts : ∀ entry ∈ twoThreadsRun.named, canvasRegistry.Accepts entry.2 entry.1 := by
    rw [hnamed]
    intro entry hmem
    cases List.mem_singleton.1 hmem
    exact canvasRegistry_accepts
  have hok : ((Session.start canvasRegistry {} 64 8).run
      (twoThreadsChunks.map .ok ++ [])).1.isOk = true := by
    decide +kernel
  have h := twoThreads_completed.summary_eq canvasRegistry {} 64 8 (by decide +kernel) haccepts
    canvasRegistry_refusesNothing twoThreadsChunks (by decide +kernel) [] fun e herror => by
      rw [herror] at hok
      cases hok
  rw [hnamed, haccepted, hends] at h
  exact ⟨twoThreads_completed, h⟩

end Run

end TraceRelay
