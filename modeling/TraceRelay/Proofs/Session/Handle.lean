import TraceRelay.Proofs.Maps
import TraceRelay.Proofs.Messages
import TraceRelay.Proofs.Steps
import TraceRelay.Session.Basic

/-!
# What messages do to a session

A session can do what a message asks for if the methods of its records are bound, and the number
that it announces can be bound, as long as the analyses refuse nothing and the heap has room. What a
message does then to the bound numbers and to the counts is decided by the message alone.

## Main definitions

* `Registry.Accepts`, `Registry.RefusesNothing` : registries that put nothing in the way.
* `Session.Yields` : how a step of a session ends if the heap may run out of room.
* `Summary.note` : what is counted of a message.

## Main results

* `Registry.exists_route?` : a number that is bound leads to an analysis.
* `Session.handle_yields` : one message.
-/

namespace TraceRelay

/-! ### Registries -/

namespace Registry

variable {σ : Type}

/-- The registry takes a method under a number: the number is free and there is an analysis that
takes the method, or the number is bound to the same method already. -/
def Accepts (registry : Registry σ) (id : MethodId) (name : String) : Prop :=
  match registry.binding? id with
  | some existing => existing.name = name
  | none => ∃ parts position installed, MethodName.ofText name = .ok parts ∧
    registry.positions[parts.scope]? = some position ∧
    registry.installed[position]? = some installed ∧
    installed.analysis.accepts parts.method = true

/-- No analysis refuses a record. -/
def RefusesNothing (registry : Registry σ) : Prop :=
  ∀ a ∈ registry.analyses, ∀ heap invocation state,
    ∃ state', a.handle heap invocation state = .ok () state'

/-- Two registries with the same analyses. -/
structure SameAnalyses (registry registry' : Registry σ) : Prop where
  installed : registry'.installed = registry.installed
  positions : registry'.positions = registry.positions

variable {registry registry' : Registry σ} {id : MethodId} {name : String}

theorem SameAnalyses.refusesNothing (h : registry.SameAnalyses registry')
    (hnothing : registry.RefusesNothing) : registry'.RefusesNothing := by
  unfold RefusesNothing analyses at hnothing ⊢
  rw [h.installed]
  exact hnothing

theorem SameAnalyses.accepts (h : registry.SameAnalyses registry')
    (hbinding : registry'.binding? id = registry.binding? id)
    (haccepts : registry.Accepts id name) :
    registry'.Accepts id name := by
  unfold Accepts at haccepts ⊢
  rw [hbinding, h.installed, h.positions]
  exact haccepts

theorem binding?_assign (r : Registry σ) (id other : MethodId) (b : Binding)
    (h : b.position < r.installed.size) :
    (r.assign id b h).binding? other = if other = id then some b else r.binding? other :=
  getElem?_insert r.bindings id b other

/-- A number under which the registry takes a method can be bound. -/
theorem bind_of_accepts (hid : id ≠ 0) (h : registry.Accepts id name) :
    ∃ registry', registry.bind id name = .ok registry' ∧ registry.SameAnalyses registry' ∧
      (∃ b, registry'.binding? id = some b) ∧
      ∀ other, other ≠ id → registry'.binding? other = registry.binding? other := by
  unfold Accepts at h
  rw [bind, if_neg hid]
  cases hbinding : registry.binding? id with
  | some existing =>
    rw [hbinding] at h
    refine ⟨registry, if_pos h, ⟨rfl, rfl⟩, ⟨existing, hbinding⟩, fun _ _ => rfl⟩
  | none =>
    rw [hbinding] at h
    obtain ⟨parts, position, installed, hparts, hposition, hinstalled, haccepts⟩ := h
    obtain ⟨hlt, rfl⟩ := Array.getElem?_eq_some_iff.1 hinstalled
    refine ⟨registry.assign id ⟨name, parts.method, position⟩ hlt, ?_, ⟨rfl, rfl⟩,
      ⟨_, (binding?_assign registry id id _ hlt).trans (if_pos rfl)⟩, fun other hother =>
      (binding?_assign registry id other _ hlt).trans (if_neg hother)⟩
    simp only [hparts, Bind.bind, Except.bind, hposition, dif_pos hlt, haccepts, if_true]

/-! ### Routes -/

/-- A number is bound, and the analysis is there. -/
theorem route?_eq_some_iff {b : Binding} {a : Analysis σ} :
    registry.route? id = some (b, a) ↔ registry.binding? id = some b ∧
      ∃ installed, registry.installed[b.position]? = some installed ∧ installed.analysis = a := by
  unfold route?
  split
  next hnone =>
    have hbinding : registry.binding? id = none := hnone
    simp [hbinding]
  next found hfound =>
    have hbinding : registry.binding? id = some found := hfound
    have hlt := registry.position_lt hfound
    rw [hbinding]
    constructor
    · rintro ⟨⟩
      exact ⟨rfl, _, Array.getElem?_eq_getElem hlt, rfl⟩
    · rintro ⟨⟨⟩, installed, hinstalled, rfl⟩
      rw [Array.getElem?_eq_getElem hlt] at hinstalled
      cases hinstalled
      rfl

theorem route?_eq_none_iff : registry.route? id = none ↔ registry.binding? id = none := by
  unfold route?
  split
  next hnone => exact iff_of_true rfl hnone
  next hfound => exact iff_of_false nofun (Option.ne_none_iff_exists'.2 ⟨_, hfound⟩)

/-- **A number that is bound leads to an analysis.** -/
theorem exists_route? {b : Binding} (h : registry.binding? id = some b) :
    ∃ a, registry.route? id = some (b, a) :=
  ⟨_, route?_eq_some_iff.2 ⟨h, _, Array.getElem?_eq_getElem (registry.position_lt h), rfl⟩⟩

theorem mem_analyses_of_route? {b : Binding} {a : Analysis σ}
    (h : registry.route? id = some (b, a)) : a ∈ registry.analyses := by
  obtain ⟨-, installed, hinstalled, rfl⟩ := route?_eq_some_iff.1 h
  exact List.mem_map_of_mem (Array.mem_toList_iff.2 (Array.mem_of_getElem? hinstalled))

end Registry

/-! ### Steps of a session -/

/-- What is counted of a message, its bytes left aside. -/
def Summary.note (m : Message) (n : Summary) : Summary :=
  { n with
    events := n.events + m.records.length
    registrations := n.registrations + m.announces?.toList.length
    threadEnds := n.threadEnds + m.endsThread.toNat }

namespace Session

variable {σ α β : Type}

/-- A step ends well, as `good` says, unless the heap ran out of room. -/
inductive Yields (good : α → Session σ → Prop) : EStateM.Result SessionError (Session σ) α → Prop
  | ok {a : α} {s : Session σ} (h : good a s) : Yields good (.ok a s)
  | exhausted (e : HeapError) (s : Session σ) : Yields good (.error (.heap e) s)

namespace Yields

variable {s : Session σ} {good : α → Session σ → Prop}

theorem mono {good' : α → Session σ → Prop} {x : EStateM.Result SessionError (Session σ) α}
    (h : Yields good x) (hgood : ∀ a s, good a s → good' a s) : Yields good' x := by
  cases h with
  | ok h => exact .ok (hgood _ _ h)
  | exhausted e s => exact .exhausted e s

/-- Two steps, one after the other. -/
theorem bind {good' : β → Session σ → Prop} {m : EStateM SessionError (Session σ) α}
    {f : α → EStateM SessionError (Session σ) β} (h : Yields good (m s))
    (hf : ∀ a s', good a s' → Yields good' (f a s')) : Yields good' ((m >>= f) s) := by
  cases hm : m s with
  | ok a s' =>
    rw [hm] at h
    rw [Step.bind_of_ok hm]
    cases h with
    | ok hgood => exact hf a s' hgood
  | error e s' =>
    rw [hm] at h
    rw [Step.bind_of_error hm]
    cases h with
    | exhausted e => exact .exhausted e s'

/-- What a step keeps can be added to what is known of its end. -/
theorem and_keeps {P : Session σ → Prop} {m : EStateM SessionError (Session σ) α}
    (h : Yields good (m s)) (hm : Step.Keeps P m) (hs : P s) :
    Yields (fun a s' => good a s' ∧ P s') (m s) := by
  have hfinal := hm s hs
  cases hms : m s with
  | ok a s' =>
    rw [hms] at h hfinal
    cases h with
    | ok hgood => exact .ok ⟨hgood, hfinal⟩
  | error e s' =>
    rw [hms] at h
    cases h with
    | exhausted e => exact .exhausted e s'

end Yields

/-- A step of the host leaves all else as it was. -/
private theorem onHost_of_ok {step : EStateM SessionError (Host σ) α} {s : Session σ} {a : α}
    {host : Host σ} (h : step s.host = .ok a host) :
    onHost step s = .ok a { s with host } := by
  obtain ⟨host₀, stream, summary⟩ := s
  have hstep : step host₀ = .ok a host := h
  simp only [onHost, hstep]

private theorem onHost_of_error {step : EStateM SessionError (Host σ) α} {s : Session σ}
    {e : SessionError} {host : Host σ} (h : step s.host = .error e host) :
    onHost step s = .error e { s with host } := by
  obtain ⟨host₀, stream, summary⟩ := s
  have hstep : step host₀ = .error e host := h
  simp only [onHost, hstep]

/-- A record of which the method is bound is delivered if the heap has room. -/
private theorem deliver_yields {s : Session σ} (hnothing : s.host.registry.RefusesNothing)
    (ordering : UInt64) {r : Record} (hbound : ∃ b, s.host.registry.binding? r.method = some b) :
    Yields (fun _ s' => s'.host.registry = s.host.registry ∧ s'.summary = s.summary)
      (onHost (Host.deliver ordering r) s) := by
  obtain ⟨b, hb⟩ := hbound
  have hdeliver : (∃ host, Host.deliver ordering r s.host = .ok () host ∧
      host.registry = s.host.registry) ∨
      ∃ e host, Host.deliver ordering r s.host = .error (.heap e) host := by
    obtain ⟨analysis, hroute⟩ := Registry.exists_route? hb
    simp only [Host.deliver, hroute]
    cases Argument.resolveAll r.args s.host.heap with
    | error e heap => exact .inr ⟨e, _, rfl⟩
    | ok args heap =>
      obtain ⟨state, hstate⟩ := hnothing analysis (Registry.mem_analyses_of_route? hroute) heap
        { method := b.method, methodId := r.method, ordering, args } s.host.state
      simp only [hstate]
      exact .inl ⟨_, rfl, rfl⟩
  rcases hdeliver with ⟨host, hok, hregistry⟩ | ⟨e, host, herror⟩
  · rw [onHost_of_ok hok]
    exact .ok ⟨hregistry, rfl⟩
  · rw [onHost_of_error herror]
    exact .exhausted e _

/-- Records of which the methods are bound are delivered one after the other. -/
private theorem deliverAll_yields {s : Session σ} (hnothing : s.host.registry.RefusesNothing)
    (ordering : UInt64) {rs : List Record}
    (hbound : ∀ r ∈ rs, ∃ b, s.host.registry.binding? r.method = some b) :
    Yields (fun _ s' => s'.host.registry = s.host.registry ∧
      s'.summary = { s.summary with events := s.summary.events + rs.length })
      (deliverAll ordering rs s) := by
  induction rs generalizing s with
  | nil => exact .ok ⟨rfl, rfl⟩
  | cons r rs ih =>
    refine (deliver_yields hnothing ordering (hbound r List.mem_cons_self)).bind
      fun _ s₁ ⟨hregistry, hsummary⟩ => ?_
    rw [tally, Step.modify_bind]
    have hrest := ih (s := { s₁ with summary := { s₁.summary with
        events := s₁.summary.events + 1 } }) (by rwa [hregistry]) fun r' hr' => by
      rw [hregistry]
      exact hbound r' (List.mem_cons_of_mem r hr')
    refine hrest.mono fun _ s' ⟨hregistry', hsummary'⟩ => ⟨hregistry'.trans hregistry, ?_⟩
    rw [hsummary', hsummary, List.length_cons, Nat.add_comm rs.length, ← Nat.add_assoc]

/-- Data is attached if the heap has room. -/
private theorem attach_yields (s : Session σ) (t : Token) (data : ObjectInfo) :
    Yields (fun _ s' => s'.host.registry = s.host.registry ∧ s'.summary = s.summary)
      (onHost (Host.attach t data) s) := by
  cases hattach : Heap.attach t data s.host.heap with
  | ok a heap =>
    have hok : Host.attach t data s.host = .ok () { s.host with heap } := by
      simp only [Host.attach, hattach]
    rw [onHost_of_ok hok]
    exact .ok ⟨rfl, rfl⟩
  | error e heap =>
    have herror : Host.attach t data s.host = .error (.heap e) { s.host with heap } := by
      simp only [Host.attach, hattach]
    rw [onHost_of_error herror]
    exact .exhausted e _

private theorem registry_notifyFree (tokens : List Token) (host : Host σ) :
    (tokens.foldl (fun host t => (host.notifyFree t).2) host).registry = host.registry := by
  refine List.foldlRecOn (motive := fun host' : Host σ => host'.registry = host.registry) tokens _
    rfl fun host' h t _ => ?_
  unfold Host.notifyFree
  dsimp only
  split <;> exact h

/-- What a message does to the bound numbers. -/
structure Binds (registry : Registry σ) (m : Message) (registry' : Registry σ) : Prop where
  same : registry.SameAnalyses registry'
  bound : ∀ id name, m.announces? = some (id, name) → ∃ b, registry'.binding? id = some b
  other : ∀ id, (∀ name, m.announces? ≠ some (id, name)) →
    registry'.binding? id = registry.binding? id

private theorem binds_refl {registry registry' : Registry σ} {m : Message}
    (h : registry' = registry) (hnone : m.announces? = none) : Binds registry m registry' := by
  subst h
  refine ⟨⟨rfl, rfl⟩, fun id name hsome => ?_, fun _ _ => rfl⟩
  rw [hnone] at hsome
  cases hsome

/-- **One message that does not close the session.** -/
theorem handle_yields {s : Session σ} {m : Message} (hclose : m ≠ .close)
    (hnothing : s.host.registry.RefusesNothing)
    (hrecords : ∀ r ∈ m.records, ∃ b, s.host.registry.binding? r.method = some b)
    (hannounces : ∀ id name, m.announces? = some (id, name) →
      id ≠ 0 ∧ s.host.registry.Accepts id name) :
    Yields (fun closed s' => closed = false ∧ s'.summary = s.summary.note m ∧
      Binds s.host.registry m s'.host.registry) (handle m s) := by
  cases m with
  | close => exact absurd rfl hclose
  | analyze ordering records =>
    exact (deliverAll_yields hnothing ordering hrecords).bind fun _ s' ⟨hregistry, hsummary⟩ =>
      .ok ⟨rfl, hsummary, binds_refl hregistry rfl⟩
  | objectFree tokens =>
    exact .ok ⟨rfl, rfl, binds_refl (registry_notifyFree tokens s.host) rfl⟩
  | registerMethod id name =>
    obtain ⟨hid, haccepts⟩ := hannounces id name rfl
    obtain ⟨registry, hbind, hsame, hbound, hother⟩ := Registry.bind_of_accepts hid haccepts
    have hok : Host.bind id name s.host = .ok () { s.host with registry } := by
      simp only [Host.bind, hbind]
    have hhandle : handle (.registerMethod id name) s = .ok false { s with
        host := { s.host with registry }
        summary := s.summary.note (.registerMethod id name) } :=
      Step.bind_of_ok (onHost_of_ok hok)
    rw [hhandle]
    refine .ok ⟨rfl, rfl, hsame, fun id' name' hsome => ?_, fun id' hnone => ?_⟩
    · cases hsome
      exact hbound
    · exact hother id' fun heq => hnone name (by rw [heq]; rfl)
  | classInfo info =>
    exact (attach_yields s info.subject (.ofClass info)).bind fun _ s' ⟨hregistry, hsummary⟩ =>
      .ok ⟨rfl, hsummary, binds_refl hregistry rfl⟩
  | stringInfo subject text =>
    exact (attach_yields s subject (.text text)).bind fun _ s' ⟨hregistry, hsummary⟩ =>
      .ok ⟨rfl, hsummary, binds_refl hregistry rfl⟩
  | threadInfo info =>
    exact (attach_yields s info.subject (.ofThread info)).bind fun _ s' ⟨hregistry, hsummary⟩ =>
      .ok ⟨rfl, hsummary, binds_refl hregistry rfl⟩
  | threadEnd ordering => exact .ok ⟨rfl, rfl, binds_refl rfl rfl⟩

end Session

end TraceRelay
