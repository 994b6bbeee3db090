import TraceRelay.Proofs.Session.Deliveries

/-!
# Sessions that end well

A session that receives the frames of some messages, the last of which closes it, and ends well has
acted on all of them: no frame was too long, and no action failed.

## Main results

* `Host.length_le_of_replay` : no frame was too long.
* `Session.actAll_of_run` : the actions of all messages were taken.
-/

namespace TraceRelay

/-- The bytes of a message tell their own end. -/
theorem Frame.length_le_of_first {maxFrame : Nat} {m : Message} {e more : Bytes}
    (he : m.toBytes = .ok e) {found : Frame × Bytes}
    (hfirst : Frame.first maxFrame (e ++ more) = .ok (some found)) :
    e.length ≤ Message.headSize + maxFrame := by
  obtain ⟨frame, rest⟩ := found
  obtain ⟨e', he', hwire, hmax, hsplit⟩ := Frame.first_eq_some_iff.1 hfirst
  by_contra hlong
  -- With a higher limit both readings of the bytes are frames.
  have hlarge : e.length ≤ Message.headSize + e.length := Nat.le_add_left _ _
  have hthis : Frame.first e.length (e ++ more) = .ok (some (⟨m, e.length⟩, more)) :=
    Frame.first_eq_some_iff.2 ⟨e, he, rfl, hlarge, rfl⟩
  have hother : Frame.first e.length (e ++ more) = .ok (some (frame, rest)) :=
    Frame.first_eq_some_iff.2 ⟨e', he', hwire, by omega, hsplit⟩
  cases hthis.symm.trans hother
  have hsame : e'.length = e.length := hwire
  omega

/-- The frames of messages, up to the first one that is too long. -/
private theorem exists_first_long {limit : Nat} {ms : List Message} {es : List Bytes}
    (hes : List.Forall₂ (fun m e => m.toBytes = .ok e) ms es)
    (hlong : ∃ e ∈ es, limit < e.length) :
    ∃ ms₁ m ms₂ es₁ e es₂, ms = ms₁ ++ m :: ms₂ ∧ es = es₁ ++ e :: es₂ ∧
      List.Forall₂ (fun m e => m.toBytes = .ok e) ms₁ es₁ ∧ (∀ e ∈ es₁, e.length ≤ limit) ∧
      m.toBytes = .ok e ∧ limit < e.length := by
  induction hes with
  | nil =>
    obtain ⟨_, hmem, -⟩ := hlong
    cases hmem
  | @cons m e ms es he hes ih =>
    by_cases hfirst : limit < e.length
    · exact ⟨[], m, ms, [], e, es, rfl, rfl, .nil, nofun, he, hfirst⟩
    · have hrest : ∃ e ∈ es, limit < e.length := by
        obtain ⟨e', hmem, hlt⟩ := hlong
        rcases List.mem_cons.1 hmem with rfl | hmem
        · exact absurd hlt hfirst
        · exact ⟨e', hmem, hlt⟩
      obtain ⟨ms₁, m', ms₂, es₁, e', es₂, rfl, rfl, hes₁, hshort, he', hlt⟩ := ih hrest
      refine ⟨m :: ms₁, m', ms₂, e :: es₁, e', es₂, rfl, rfl, .cons he hes₁, ?_, he', hlt⟩
      exact List.forall_mem_cons.2 ⟨Nat.le_of_not_lt hfirst, hshort⟩

variable {σ : Type} {maxFrame : Nat} {ms : List Message} {es : List Bytes}

/-- **No frame was too long** if a session ended well. -/
theorem Host.length_le_of_replay {host host' : Host σ} {acted : List Frame × Bool}
    (hes : List.Forall₂ (fun m e => m.toBytes = .ok e) (ms ++ [.close]) es) (hopen : .close ∉ ms)
    (hok : Host.replay maxFrame es.flatten host = .ok acted host') :
    ∀ e ∈ es, e.length ≤ Message.headSize + maxFrame := by
  by_contra hlong
  simp only [not_forall, Nat.not_le, exists_prop] at hlong
  obtain ⟨ms₁, m, ms₂, es₁, e, es₂, hms, rfl, hes₁, hshort, he, hlt⟩ := exists_first_long hes hlong
  have hclose : .close ∉ ms₁ := by
    have hsplit := List.dropLast_append_getLast (List.cons_ne_nil m ms₂)
    rw [← hsplit, ← List.append_assoc] at hms
    obtain ⟨rfl, -⟩ := List.append_inj' hms rfl
    exact fun hmem => hopen (List.mem_append_left _ hmem)
  have hsome : e ++ es₂.flatten ≠ [] := by
    intro hnil
    have hlength := congrArg List.length hnil
    rw [List.length_append, List.length_nil] at hlength
    omega
  obtain ⟨fault, hfault⟩ := Host.replay_append_of_no_frame hes₁ hshort hclose hsome
    (fun found hfirst => absurd (Frame.length_le_of_first he hfirst) (by omega)) host
  rw [List.flatten_append, List.flatten_cons, hfault] at hok
  cases hok

/-- The frames of messages of which only the last one closes the session are all acted on. -/
private theorem untilClose_of_last {frames : List Frame}
    (hframes : frames.map (·.message) = ms ++ [.close]) (hopen : .close ∉ ms) :
    Frame.untilClose frames = frames := by
  obtain ⟨fs, gs, rfl, rfl, hgs⟩ := List.map_eq_append_iff.1 hframes
  obtain ⟨last, rfl, hlast⟩ := List.map_eq_singleton_iff.1 hgs
  have hcloses : Frame.closes fs = false := by
    rw [Frame.closes, List.any_eq_false]
    intro frame hmem
    rw [decide_eq_true_iff]
    exact fun heq => hopen (List.mem_map.2 ⟨frame, hmem, heq⟩)
  rw [Frame.untilClose_append, hcloses, if_neg Bool.false_ne_true, Frame.untilClose, if_pos hlast]

/-- **The actions of all messages were taken** if a session ended well, and the analyses were told
of them and of the end. -/
theorem Session.actAll_of_run {registry : Registry σ} {state : σ} {maxFreed : Nat}
    (hes : List.Forall₂ (fun m e => m.toBytes = .ok e) (ms ++ [.close]) es) (hopen : .close ∉ ms)
    {arrivals : List (Except TransportError Bytes)} (hbytes : arrived arrivals = es.flatten)
    {summary : Summary}
    (hok : ((start registry state maxFrame maxFreed).run arrivals).1 = .ok summary) :
    let host := Host.start registry state maxFreed
    (∃ host', Host.actAll (ms.flatMap Message.actions) host = .ok () host') ∧
      host.rounds maxFrame (arrived arrivals) =
        host.tellsAll (ms.flatMap Message.actions) ++ [.exited] := by
  intro host
  have hended := congrArg (·.1) (run_arrived registry state maxFrame maxFreed arrivals)
  dsimp only at hended
  rw [hok, hbytes] at hended
  rw [hbytes, Host.rounds, ← hended]
  have hreplay : ∃ acted host', Host.replay maxFrame es.flatten host = .ok acted host' := by
    rw [Host.outcome] at hended
    split at hended
    · cases hended
    · next heq => exact ⟨_, _, heq⟩
  obtain ⟨acted, host', hreplay⟩ := hreplay
  obtain ⟨frames, hall, hmessages, -⟩ :=
    Frame.all_of_toBytes hes (Host.length_le_of_replay hes hopen hreplay)
  have hactions : Frame.actions (Frame.untilClose (Frame.all maxFrame es.flatten).1) =
      ms.flatMap Message.actions := by
    rw [hall, untilClose_of_last hmessages hopen, Frame.actions, ← List.flatMap_map, hmessages,
      List.flatMap_append]
    exact List.append_nil _
  rcases Host.replay_cases maxFrame es.flatten host with ⟨e, hfailed⟩ | ⟨closed, host'', hacts, -⟩
  · cases hreplay.symm.trans hfailed
  · rw [hactions] at hacts ⊢
    exact ⟨⟨host'', hacts⟩, rfl⟩

end TraceRelay
