import TraceRelay.Proofs.Names
import TraceRelay.Proofs.Session.Exit

/-!
# Where records go

A record names its method by a number. The first message that binds the number says which analysis
gets the record, and under which method: the analysis that was installed for the scope of the name,
and the method behind the last dot. Nothing that comes later changes that. A message that binds the
number to another name ends the session.

## Main definitions

* `Registry.Installs` : registries in which analyses were installed and no number was bound.
* `Registry.Routed` : the bound numbers lead to the analyses for the scopes of their names.

## Main results

* `Host.actAll_name` : a bound number keeps the name that it was bound to first.
* `Host.exists_of_delivery`, `Host.exists_of_shown` : where a record goes.
* `Session.run_routes` : where the records of a whole session go.
-/

namespace TraceRelay

variable {σ : Type}

/-! ### Registries -/

namespace Registry

/-- Analyses were installed, and no number was bound. -/
inductive Installs : Registry σ → Prop where
  | empty : Installs {}
  | install {r r' : Registry σ} {scope : String} {a : Analysis σ} (h : Installs r)
    (hok : r.install scope a = .ok r') : Installs r'

/-- Scopes lead to the analyses that were installed for them, and the bound numbers to the analyses
for the scopes of their names. -/
structure Routed (r : Registry σ) : Prop where
  scope : ∀ {scope : String} {position : Nat}, r.positions[scope]? = some position →
    ∃ installed, r.installed[position]? = some installed ∧ installed.scope = scope
  binding : ∀ {id : MethodId} {b : Binding}, r.binding? id = some b →
    id ≠ 0 ∧ '.' ∉ b.method.toList ∧ ∃ installed, r.installed[b.position]? = some installed ∧
      b.name = installed.scope ++ "." ++ b.method

variable {r r' : Registry σ}

theorem Installs.binding? (h : r.Installs) (id : MethodId) : r.binding? id = none := by
  induction h with
  | empty => rfl
  | install _ hok ih =>
    unfold Registry.install at hok
    split at hok <;> cases hok
    exact ih

theorem Installs.routed (h : r.Installs) : r.Routed where
  scope := by
    induction h with
    | empty => simp
    | @install r r' scope a _ hok ih =>
      unfold Registry.install at hok
      split at hok <;> cases hok
      intro other position hposition
      rw [push, getElem?_insert] at hposition
      rw [push, Array.getElem?_push]
      split at hposition
      next heq =>
        cases hposition
        exact ⟨⟨scope, a⟩, if_pos rfl, heq.symm⟩
      · obtain ⟨installed, hinstalled, hscope⟩ := ih hposition
        have hlt := (Array.getElem?_eq_some_iff.1 hinstalled).1
        exact ⟨installed, (if_neg (Nat.ne_of_lt hlt)).trans hinstalled, hscope⟩
  binding := fun {id _} hb => nomatch (h.binding? id).symm.trans hb

/-- Binding a number to a name leads it to the analysis for the scope of the name. -/
theorem Routed.bind (h : r.Routed) {id : MethodId} {name : String} (hok : r.bind id name = .ok r') :
    r'.Routed := by
  obtain ⟨hid, hbound⟩ := bind_cases hok
  cases hbound with
  | already => exact h
  | @newly parts position _ hparts hposition =>
    refine ⟨h.scope, fun {other b} hb => ?_⟩
    rw [binding?_assign] at hb
    split at hb
    next heq =>
      cases hb
      obtain ⟨hname, -, -, hdot⟩ := MethodName.ofText_eq_ok_iff.1 hparts
      obtain ⟨installed', hinstalled', hscope⟩ := h.scope hposition
      exact ⟨heq ▸ hid, hdot, installed', hinstalled', by rw [hscope]; exact hname⟩
    · exact h.binding hb

end Registry

/-- The number and the name that an action binds. -/
def Action.binds? : Action → Option (MethodId × String)
  | bind id name => some (id, name)
  | _ => none

namespace Host

variable {host host' : Host σ}

/-- Numbers lead to the right analyses after any actions. -/
theorem routed_actAll (h : host.registry.Routed) (as : List Action) :
    (Step.final (actAll as host)).registry.Routed := by
  refine (?_ : Step.Keeps (fun host : Host σ => host.registry.Routed) (actAll as)) host h
  induction as with
  | nil => exact .pure _
  | cons a as ih =>
    refine .bind (fun host h => ?_) fun _ => ih
    rcases (act_keeps a host).1 with hsame | ⟨id, name, -, hbind⟩
    · rwa [hsame]
    · exact h.bind hbind

/-- The name that a number is bound to. -/
def boundName? (host : Host σ) (id : MethodId) : Option String :=
  (host.registry.binding? id).map (·.name)

/-- A number keeps its name, and one without a name may get one. -/
theorem act_name {a : Action} (hok : act a host = .ok () host') (id : MethodId) :
    host'.boundName? id = (host.boundName? id).or (a.binds?.toList.lookup id) := by
  have hkeeps := (act_keeps a host).1
  rw [hok, Step.final] at hkeeps
  cases a with
  | bind other name =>
    change Host.bind other name host = _ at hok
    unfold Host.bind at hok
    cases hbind : host.registry.bind other name with
    | error e => simp [hbind] at hok
    | ok registry =>
      rw [hbind] at hok
      cases hok
      have hlookup : [(other, name)].lookup id = if id = other then some name else none := by
        by_cases h : id = other <;> simp [List.lookup_cons, h, beq_false_of_ne]
      simp only [boundName?, Action.binds?, Option.toList_some, hlookup]
      cases (Registry.bind_cases hbind).2 with
      | already hbinding hname =>
        by_cases h : id = other
        · subst h
          simp [hbinding, hname]
        · simp [h]
      | newly hbinding =>
        rw [Registry.binding?_assign]
        by_cases h : id = other
        · subst h
          simp [hbinding]
        · simp [h]
  | deliver | free | attach =>
    obtain hsame | ⟨_, _, heq, -⟩ := hkeeps
    · rw [boundName?, hsame]
      exact (Option.or_none).symm
    · cases heq

/-- **A number keeps the name that it was bound to first.** -/
theorem actAll_name {as : List Action} (hok : actAll as host = .ok () host') (id : MethodId) :
    host'.boundName? id = (host.boundName? id).or ((as.filterMap Action.binds?).lookup id) := by
  induction as generalizing host with
  | nil =>
    cases hok
    exact (Option.or_none).symm
  | cons a as ih =>
    obtain ⟨⟨⟩, host₁, hfirst, hrest⟩ := Step.bind_eq_ok_iff.mp hok
    have hlookup : ((a :: as).filterMap Action.binds?).lookup id =
        (a.binds?.toList.lookup id).or ((as.filterMap Action.binds?).lookup id) := by
      rw [← List.lookup_append, List.filterMap_cons]
      cases a.binds? <;> rfl
    rw [ih hrest, act_name hfirst, hlookup, Option.or_assoc]

/-- A number is not bound to a second name. -/
theorem act_bind_other {id : MethodId} {name name' : String}
    (hname : host.boundName? id = some name) (hne : name' ≠ name) :
    ∃ e, act (.bind id name') host = .error e host := by
  change ∃ e, Host.bind id name' host = .error e host
  unfold Host.bind
  cases hbind : host.registry.bind id name' with
  | error e => exact ⟨_, rfl⟩
  | ok registry =>
    obtain ⟨b, hb, hb'⟩ := Option.map_eq_some_iff.1 hname
    cases (Registry.bind_cases hbind).2 with
    | already hbinding hother =>
      cases hb.symm.trans hbinding
      exact absurd (hother.symm.trans hb') hne
    | newly hnone => cases hb.symm.trans hnone

/-! ### Records -/

theorem deliveries_tells_of_none {a : Action} (ha : a.record? = none) (host : Host σ) :
    (host.tells a).filterMap Round.delivery? = [] := by
  rw [← List.map_eq_nil_iff, Round.map_delivery?, handled_tells_of_none ha]

/-- No more records reach analyses than are asked for. -/
theorem length_deliveries_le (as : List Action) (host : Host σ) :
    ((host.tellsAll as).filterMap Round.delivery?).length ≤
      (as.filterMap Action.record?).length := by
  have hone (a : Action) (host : Host σ) : ((host.tells a).filterMap Round.delivery?).length ≤
      a.record?.toList.length := by
    cases a with
    | deliver ordering r =>
      rcases tells_deliver ordering r host with h | ⟨b, heap, args, -, h⟩ <;> rw [h]
      · exact Nat.zero_le _
      · exact Nat.le_refl _
    | free | bind | attach =>
      rw [deliveries_tells_of_none rfl]
      exact Nat.zero_le _
  induction as generalizing host with
  | nil => exact Nat.le_refl _
  | cons a as ih =>
    have hfirst := hone a host
    have hcount : ((a :: as).filterMap Action.record?).length =
        a.record?.toList.length + (as.filterMap Action.record?).length := by
      rw [List.filterMap_cons]
      cases a.record? with
      | none => exact (Nat.zero_add _).symm
      | some => exact Nat.add_comm _ 1
    rw [tellsAll, hcount]
    split
    next host' _ =>
      rw [List.filterMap_append, List.length_append]
      exact Nat.add_le_add hfirst (ih host')
    · exact Nat.le_add_right_of_le hfirst

/-- **Where a record goes.** A record that reaches an analysis is one that is asked for, and until
then as many reached analyses as were asked for. It goes where its number leads. -/
theorem exists_of_delivery {as : List Action} {n position : Nat} {heap : Heap} {i : Invocation}
    (hn : ((host.tellsAll as).filterMap Round.delivery?)[n]? = some (position, heap, i)) :
    ∃ before ordering r behind host₁ b, as = before ++ .deliver ordering r :: behind ∧
      (before.filterMap Action.record?).length = n ∧ actAll before host = .ok () host₁ ∧
      host₁.registry.binding? r.method = some b ∧ position = b.position ∧ i.method = b.method ∧
      i.methodId = r.method ∧ i.ordering = ordering := by
  induction as generalizing host n with
  | nil => cases hn
  | cons a as ih =>
    cases hfirst : act a host with
    | error e host₁ =>
      simp only [tellsAll, hfirst] at hn
      cases a with
      | deliver ordering r =>
        rcases tells_deliver ordering r host with htells | ⟨b, heap', args, hbinding, htells⟩ <;>
          rw [htells] at hn
        · cases hn
        · cases n with
          | zero =>
            cases hn
            exact ⟨[], ordering, r, as, host, b, rfl, rfl, rfl, hbinding, rfl, rfl, rfl, rfl⟩
          | succ n => cases hn
      | free | bind | attach =>
        rw [deliveries_tells_of_none rfl] at hn
        cases hn
    | ok _ host₁ =>
      simp only [tellsAll, hfirst, List.filterMap_append] at hn
      -- The records of the first action come first.
      have hlater (m : Nat) (hm : ((host₁.tellsAll as).filterMap Round.delivery?)[m]? =
          some (position, heap, i)) := ih hm
      cases a with
      | deliver ordering r =>
        obtain ⟨b, args, hbinding, -, htells⟩ := tells_of_deliver hfirst
        rw [htells] at hn
        cases n with
        | zero =>
          cases hn
          exact ⟨[], ordering, r, as, host, b, rfl, rfl, rfl, hbinding, rfl, rfl, rfl, rfl⟩
        | succ n =>
          obtain ⟨before, ordering', r', behind, host₂, b', rfl, rfl, hbefore, hgoes⟩ :=
            hlater n hn
          exact ⟨_ :: before, ordering', r', behind, host₂, b', rfl, rfl,
            (Step.bind_of_ok hfirst).trans hbefore, hgoes⟩
      | free | bind | attach =>
        rw [deliveries_tells_of_none rfl] at hn
        obtain ⟨before, ordering', r', behind, host₂, b', rfl, rfl, hbefore, hgoes⟩ := hlater n hn
        exact ⟨_ :: before, ordering', r', behind, host₂, b', rfl, rfl,
          (Step.bind_of_ok hfirst).trans hbefore, hgoes⟩

/-- After a failure the analyses are told of nothing more. -/
theorem tellsAll_append_of_error {as : List Action} {e : SessionError}
    (h : actAll as host = .error e host') (bs : List Action) :
    host.tellsAll (as ++ bs) = host.tellsAll as := by
  induction as generalizing host with
  | nil => cases h
  | cons a as ih =>
    rw [List.cons_append, tellsAll, tellsAll]
    cases hfirst : act a host with
    | error e' host₁ => rfl
    | ok _ host₁ =>
      rw [actAll, Step.bind_of_ok hfirst] at h
      dsimp only
      rw [ih h]

end Host

/-! ### Messages -/

/-- A record that is asked for is one of a message. -/
theorem Message.exists_of_deliver {ms : List Message} {before behind : List Action}
    {ordering : UInt64} {r : Record}
    (h : ms.flatMap Message.actions = before ++ .deliver ordering r :: behind) :
    ∃ ms₁ rs₁ rs₂ ms₂, ms = ms₁ ++ .analyze ordering (rs₁ ++ r :: rs₂) :: ms₂ ∧
      before = ms₁.flatMap Message.actions ++ rs₁.map (.deliver ordering) := by
  obtain ⟨ms₁, m, ms₂, front, back, rfl, hm, rfl, -⟩ := exists_of_flatMap_eq h
  cases m with
  | analyze ordering' records =>
    obtain ⟨rs₁, rest, rfl, rfl, hrest⟩ := List.map_eq_append_iff.1 hm
    obtain ⟨r', rs₂, rfl, heq, -⟩ := List.map_eq_cons_iff.1 hrest
    cases heq
    exact ⟨ms₁, rs₁, rs₂, ms₂, rfl, rfl⟩
  | objectFree tokens =>
    obtain ⟨_, rest, -, -, hrest⟩ := List.map_eq_append_iff.1 hm
    obtain ⟨t, _, -, heq, -⟩ := List.map_eq_cons_iff.1 hrest
    cases heq
  | registerMethod | classInfo | stringInfo | threadInfo | close | threadEnd =>
    rcases front with _ | ⟨_, _ | _⟩ <;> cases hm

/-- Numbers are bound by the messages that announce them. -/
theorem Message.binds_actions (ms : List Message) :
    (ms.flatMap Message.actions).filterMap Action.binds? = ms.filterMap announces? := by
  rw [List.filterMap_flatMap, List.filterMap_eq_flatMap_toList]
  refine List.flatMap_congr fun m _ => ?_
  cases m with
  | analyze ordering records =>
    exact List.filterMap_eq_nil_iff.2 fun a ha => by
      obtain ⟨r, -, rfl⟩ := List.mem_map.1 ha
      rfl
  | objectFree tokens =>
    exact List.filterMap_eq_nil_iff.2 fun a ha => by
      obtain ⟨t, -, rfl⟩ := List.mem_map.1 ha
      rfl
  | _ => rfl

namespace Host

variable {host : Host σ} {ms : List Message}

/-- Where a record of a message goes, if no number was bound before the first message. -/
theorem exists_of_shown (hrouted : host.registry.Routed)
    (hunbound : ∀ id, host.boundName? id = none) {n position : Nat} {heap : Heap} {i : Invocation}
    (hn : ((host.tellsAll (ms.flatMap Message.actions)).filterMap Round.delivery?)[n]? =
      some (position, heap, i)) :
    ∃ ms₁ ordering rs₁ r rs₂ ms₂ installed,
      ms = ms₁ ++ .analyze ordering (rs₁ ++ r :: rs₂) :: ms₂ ∧
      n = (ms₁.flatMap Message.records).length + rs₁.length ∧
      i.methodId = r.method ∧ i.ordering = ordering ∧ r.method ≠ 0 ∧
      host.registry.installed[position]? = some installed ∧ '.' ∉ i.method.toList ∧
      (ms₁.filterMap Message.announces?).lookup r.method =
        some (installed.scope ++ "." ++ i.method) := by
  obtain ⟨before, ordering, r, after, host₁, b, hacts, rfl, hbefore, hb, rfl, hmethod, hid,
    hord⟩ := exists_of_delivery hn
  obtain ⟨ms₁, rs₁, rs₂, ms₂, rfl, rfl⟩ := Message.exists_of_deliver hacts
  have hrouted₁ := routed_actAll hrouted
    (ms₁.flatMap Message.actions ++ rs₁.map (.deliver ordering))
  have hsame := (actAll_keeps (ms₁.flatMap Message.actions ++ rs₁.map (.deliver ordering)) host).1
  rw [hbefore, Step.final] at hrouted₁ hsame
  obtain ⟨hzero, hdot, installed, hposition, htext⟩ := hrouted₁.binding hb
  have hname := actAll_name hbefore r.method
  have hdelivers : (rs₁.map (Action.deliver ordering)).filterMap Action.binds? = [] :=
    List.filterMap_eq_nil_iff.2 (List.forall_mem_map.2 fun _ _ => rfl)
  rw [hunbound, Option.none_or, List.filterMap_append, hdelivers, List.append_nil,
    Message.binds_actions, boundName?, hb, Option.map_some, htext] at hname
  rw [hsame] at hposition
  refine ⟨ms₁, ordering, rs₁, r, rs₂, ms₂, installed, rfl, ?_, hid, hord, hid ▸ hzero, hposition,
    hmethod ▸ hdot, by rw [hmethod, ← hname]⟩
  have hcount : ((rs₁.map (Action.deliver ordering)).filterMap Action.record?).length =
      rs₁.length := by
    simp [List.filterMap_map, Function.comp_def, Action.record?]
  rw [List.filterMap_append, List.length_append, Message.length_deliveries, hcount]

/-- Actions fail at the message that announces another name for a number, or in front of it. -/
theorem exists_error_of_rebound {id : MethodId} (hunbound : host.boundName? id = none)
    {name name' : String} (hname : (ms.filterMap Message.announces?).lookup id = some name)
    (hne : name' ≠ name) : ∃ e host₁,
      actAll (ms.flatMap Message.actions ++ [.bind id name']) host = .error e host₁ := by
  rw [actAll_append]
  cases hbefore : actAll (ms.flatMap Message.actions) host with
  | error e host₁ => exact ⟨e, host₁, Step.bind_of_error hbefore⟩
  | ok _ host₁ =>
    have hbound := actAll_name hbefore id
    rw [hunbound, Option.none_or, Message.binds_actions, hname] at hbound
    obtain ⟨e, he⟩ := act_bind_other hbound hne
    exact ⟨e, host₁, (Step.bind_of_ok hbefore).trans (Step.bind_of_error he)⟩

end Host

namespace Session

/-- **Where the records of a session go.** Whatever arrives, it is read as the frames of messages.
Each record that reaches an analysis is carried by one of them, at the place which the number of
records that were delivered before tells. Its number is not zero, and a message before it announces
the number. The name in the first such message is the scope of the analysis, a dot and the method
that the analysis is given. If a later message announces another name for the number then the
session fails, and no record behind this message reaches an analysis. -/
theorem run_routes (registry : Registry σ) (hregistry : registry.Installs) (state : σ)
    (maxFrame maxFreed : Nat) (arrivals : List (Except TransportError Bytes)) :
    let ended := (start registry state maxFrame maxFreed).run arrivals
    let written := (start registry.journaled (state, []) maxFrame maxFreed).run arrivals
    let journal := written.2.host.state.2
    written.1 = ended.1 ∧ written.2.host.state.1 = ended.2.host.state ∧
    ∃ ms es behind, Reading maxFrame (arrived arrivals) ms es behind ∧
      (∀ n position heap i, journal.handled[n]? = some (position, heap, i) →
        ∃ ms₁ ordering rs₁ r rs₂ ms₂ installed,
          ms = ms₁ ++ .analyze ordering (rs₁ ++ r :: rs₂) :: ms₂ ∧
          n = (ms₁.flatMap Message.records).length + rs₁.length ∧
          i.methodId = r.method ∧ i.ordering = ordering ∧ r.method ≠ 0 ∧
          registry.installed[position]? = some installed ∧ '.' ∉ i.method.toList ∧
          (ms₁.filterMap Message.announces?).lookup r.method =
            some (installed.scope ++ "." ++ i.method)) ∧
      ∀ ms₁ id name name' ms₂, ms = ms₁ ++ .registerMethod id name' :: ms₂ →
        (ms₁.filterMap Message.announces?).lookup id = some name → name' ≠ name →
        (∃ e, ended.1 = .error e) ∧
          journal.handled.length ≤ (ms₁.flatMap Message.records).length := by
  intro ended written journal
  obtain ⟨⟨hresult, hstate⟩, ms, es, behind, hreading, hcases, hjournal⟩ :=
    run_reads registry state maxFrame maxFreed arrivals
  change journal = _ at hjournal
  generalize hhost : Host.start registry state maxFreed = host at *
  have hrouted : host.registry.Routed := hhost ▸ hregistry.routed
  have hunbound (id : MethodId) : host.boundName? id = none := by
    rw [Host.boundName?, ← hhost]
    exact congrArg _ (hregistry.binding? id)
  have hinstalled : host.registry.installed = registry.installed := by rw [← hhost]; rfl
  have hhandled := host.handled_ended (host.tellsAll (ms.flatMap Message.actions)) ended.1.isOk
  rw [← hjournal] at hhandled
  refine ⟨hresult, hstate, ms, es, behind, hreading, fun n position heap i hn => ?_,
    fun ms₁ id name name' ms₂ hms hname hne => ?_⟩
  · rw [← hinstalled]
    exact Host.exists_of_shown hrouted hunbound (hhandled ▸ hn)
  · obtain ⟨e, host₁, hfails⟩ := Host.exists_error_of_rebound (hunbound id) hname hne
    have hacts : ms.flatMap Message.actions =
        (ms₁.flatMap Message.actions ++ [.bind id name']) ++ ms₂.flatMap Message.actions := by
      rw [hms, List.flatMap_append, List.flatMap_cons, List.append_assoc]
      rfl
    have hall : Host.actAll (ms.flatMap Message.actions) host = .error e host₁ := by
      rw [hacts, Host.actAll_append]
      exact Step.bind_of_error hfails
    constructor
    · generalize hpair : (ended.1, ended.2.host) = pair at hcases
      cases hcases with
      | @failed e' => exact ⟨e', congrArg (·.1) hpair⟩
      | @broken w => exact ⟨_, congrArg (·.1) hpair⟩
      | done hok => cases hall.symm.trans hok
    · rw [hhandled, hacts, Host.tellsAll_append_of_error hfails]
      refine Nat.le_trans (Host.length_deliveries_le _ host) ?_
      rw [List.filterMap_append, List.length_append, Message.length_deliveries]
      exact Nat.le_refl _

/-- A method gets a number, the number is used, and another method is announced under it. -/
def rebound : List Message :=
  [.registerMethod 1 "canvas.draw", .analyze 256 [⟨1, [.int 3]⟩], .registerMethod 1 "canvas.fill",
    .analyze 256 [⟨1, [.int 3]⟩], .close]

/-- What is written for these messages. -/
def reboundFrames : List Bytes :=
  Run.twoThreadsFrames.take 2 ++
    [[3, 18, 0, 0, 0, 1, 0, 16, 11, 0, 0, 0, 99, 97, 110, 118, 97, 115, 46, 102, 105, 108, 108]] ++
      (Run.twoThreadsFrames.take 2).drop 1 ++ [[0, 0, 0, 0, 0]]

theorem canvasRegistry_installs : Run.canvasRegistry.Installs :=
  have hinstall : ({} : Registry Tally).install "canvas" Tally.analysis = .ok Run.canvasRegistry :=
    rfl
  .install .empty hinstall

theorem reading_rebound : Reading 64 reboundFrames.flatten rebound reboundFrames [] where
  written := by
    refine .cons ?_ (.cons ?_ (.cons ?_ (.cons ?_ (.cons ?_ .nil)))) <;> decide +kernel
  bytes := (List.append_nil _).symm
  close_last := by decide
  no_frame hopen := absurd (by decide) hopen

/-- The second announcement ends the session. At most one record was delivered before, and it went
to the only analysis. -/
theorem run_routes_rebound :
    let ended := (start Run.canvasRegistry {} 64 8).run [.ok reboundFrames.flatten]
    let written := (start Run.canvasRegistry.journaled ({}, []) 64 8).run
      [.ok reboundFrames.flatten]
    Run.canvasRegistry.Installs ∧ (∃ e, ended.1 = .error e) ∧
      written.2.host.state.2.handled.length ≤ 1 ∧
      ∀ n position heap i, written.2.host.state.2.handled[n]? = some (position, heap, i) →
        n = 0 ∧ position = 0 ∧ i.methodId ≠ 0 := by
  obtain ⟨-, -, ms, es, behind, hreading, hroutes, hrebound⟩ := run_routes Run.canvasRegistry
    canvasRegistry_installs {} 64 8 [.ok reboundFrames.flatten]
  have hbytes : arrived [.ok reboundFrames.flatten] = reboundFrames.flatten := List.append_nil _
  rw [hbytes] at hreading
  obtain rfl := hreading.eq_acted.trans reading_rebound.eq_acted.symm
  obtain ⟨hfails, hlength⟩ := hrebound (rebound.take 2) 1 "canvas.draw" "canvas.fill"
    (rebound.drop 3) rfl (by decide) (by decide)
  refine ⟨canvasRegistry_installs, hfails, hlength, fun n position heap i hn => ?_⟩
  obtain ⟨_, _, _, r, _, _, installed, -, -, hid, -, hzero, hinstalled, -⟩ :=
    hroutes n position heap i hn
  have hn' := (List.getElem?_eq_some_iff.1 hn).1
  have hposition := (Array.getElem?_eq_some_iff.1 hinstalled).1
  exact ⟨Nat.lt_one_iff.1 (Nat.lt_of_lt_of_le hn' hlength), Nat.lt_one_iff.1 hposition,
    hid ▸ hzero⟩

end Session

end TraceRelay
