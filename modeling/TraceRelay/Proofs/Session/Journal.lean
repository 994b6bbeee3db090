import Mathlib.Data.List.Induction
import TraceRelay.Proofs.Session.Outcome

/-!
# What the analyses are told

Analyses are told of records, of objects that went and of the end of a session. To speak about these
calls, each analysis is replaced by one that also writes down every call that it gets. Nothing else
changes by that: the session ends in the same way, with the same heap and the same state of the
analyses, and the journal holds what the actions of the session say.

## Main definitions

* `Callback`, `Journal` : a call of an analysis, and all calls in order.
* `Registry.Bound` : what happens to a registry when a number is bound.
* `Registry.journaled` : the same analyses, which also write down their calls.
* `Round` : one thing that happened, of which analyses are told.
* `Host.tells`, `Host.tellsAll` : the rounds of an action, and of a list of actions.

## Main results

* `Host.act_journaled`, `Host.actAll_journaled` : the calls that analyses get during actions.
* `Session.run_journaled` : the calls that analyses get in a whole session.
-/

namespace TraceRelay

/-- A call that an analysis gets. -/
inductive Callback where
  /-- A record, with the heap as it is shown. -/
  | handled (heap : Heap) (i : Invocation)
  /-- An object that went, with the heap as it is shown. -/
  | freed (heap : Heap) (ref : ObjectRef)
  /-- The end of the session. -/
  | exited

/-- Calls in order, each with the position of the analysis that got it. -/
abbrev Journal := List (Nat × Callback)

variable {σ : Type}

/-- An analysis that also writes down the calls that it gets. -/
def Analysis.journaled (position : Nat) (a : Analysis σ) : Analysis (σ × Journal) where
  name := a.name
  accepts := a.accepts
  handle heap i := fun (s, journal) =>
    match a.handle heap i s with
    | .ok _ s => .ok () (s, journal ++ [(position, .handled heap i)])
    | .error e s => .error e (s, journal ++ [(position, .handled heap i)])
  onFree heap ref := fun (s, journal) =>
    (a.onFree heap ref s, journal ++ [(position, .freed heap ref)])
  onExit := fun (s, journal) => (a.onExit s, journal ++ [(position, .exited)])

/-- The same analyses, which also write down the calls that they get. -/
def Registry.journaled (r : Registry σ) : Registry (σ × Journal) where
  installed := r.installed.mapIdx fun position i => ⟨i.scope, i.analysis.journaled position⟩
  positions := r.positions
  bindings := r.bindings
  position_lt := fun hb => by
    rw [Array.size_mapIdx]
    exact r.position_lt hb

/-- One thing that happened, of which analyses are told. -/
inductive Round where
  /-- A record went to the analysis of its method. -/
  | handled (position : Nat) (heap : Heap) (i : Invocation)
  /-- An object went. -/
  | freed (heap : Heap) (ref : ObjectRef)
  /-- The session ended. -/
  | exited

namespace Round

/-- The calls of a round when `count` analyses are installed. A record is for one of them, and all
else for all of them, in the order in which they were installed. -/
def entries (count : Nat) : Round → Journal
  | handled position heap i => [(position, .handled heap i)]
  | freed heap ref => (List.range count).map fun position => (position, .freed heap ref)
  | exited => (List.range count).map fun position => (position, .exited)

/-- The object that went. -/
def freed? : Round → Option ObjectRef
  | freed _ ref => some ref
  | _ => none

end Round

/-! ### Registries -/

namespace Registry

theorem route?_journaled (r : Registry σ) (id : MethodId) :
    r.journaled.route? id = (r.route? id).map fun (b, a) => (b, a.journaled b.position) := by
  cases hroute : r.route? id with
  | none =>
    have hunbound : r.binding? id = none := route?_eq_none_iff.1 hroute
    exact route?_eq_none_iff.2 hunbound
  | some found =>
    obtain ⟨b, a⟩ := found
    obtain ⟨hbinding, installed, hinstalled, rfl⟩ := route?_eq_some_iff.1 hroute
    have hjournaled : r.journaled.installed[b.position]? =
        some ⟨installed.scope, installed.analysis.journaled b.position⟩ := by
      simp only [journaled, Array.getElem?_mapIdx, hinstalled, Option.map_some]
    exact route?_eq_some_iff.2 ⟨hbinding, _, hjournaled, rfl⟩

/-- Binding a number leaves the analyses as they are. -/
theorem bind_journaled (r : Registry σ) (id : MethodId) (name : String) :
    r.journaled.bind id name = (r.bind id name).map journaled := by
  unfold bind
  by_cases hid : id = 0
  · rw [if_pos hid, if_pos hid]
    rfl
  rw [if_neg hid, if_neg hid]
  have hbinding : r.journaled.binding? id = r.binding? id := rfl
  rw [hbinding]
  cases r.binding? id with
  | some existing =>
    dsimp only
    split <;> rfl
  | none =>
    dsimp only
    cases MethodName.ofText name with
    | error e => rfl
    | ok parts =>
      have hposition : r.journaled.positions[parts.scope]? = r.positions[parts.scope]? := rfl
      simp only [Bind.bind, Except.bind]
      rw [hposition]
      cases r.positions[parts.scope]? with
      | none => rfl
      | some position =>
        by_cases hlt : position < r.installed.size
        · have hlt' : position < r.journaled.installed.size := by
            rwa [journaled, Array.size_mapIdx]
          have haccepts : r.journaled.installed[position].analysis.accepts =
              r.installed[position].analysis.accepts := by
            simp only [journaled, Array.getElem_mapIdx, Analysis.journaled]
          simp only [dif_pos hlt, dif_pos hlt', haccepts]
          split <;> rfl
        · have hlt' : ¬position < r.journaled.installed.size := by
            rwa [journaled, Array.size_mapIdx]
          simp only [dif_neg hlt, dif_neg hlt']
          rfl

/-- All that can happen to a registry when a number is bound: nothing if it is bound to the same
name already, or else it is bound to an analysis that is installed for the scope of the name. -/
inductive Bound (r : Registry σ) (id : MethodId) (name : String) : Registry σ → Prop where
  | already {b : Binding} (hbinding : r.binding? id = some b) (hname : b.name = name) :
    Bound r id name r
  | newly {parts : MethodName} {position : Nat}
    (hbinding : r.binding? id = none) (hparts : MethodName.ofText name = .ok parts)
    (hposition : r.positions[parts.scope]? = some position)
    (hlt : position < r.installed.size) :
    Bound r id name (r.assign id ⟨name, parts.method, position⟩ hlt)

theorem bind_cases {r r' : Registry σ} {id : MethodId} {name : String}
    (h : r.bind id name = .ok r') : id ≠ 0 ∧ r.Bound id name r' := by
  unfold bind at h
  split at h
  · cases h
  next hid =>
    refine ⟨hid, ?_⟩
    cases hbinding : r.binding? id with
    | some existing =>
      rw [hbinding] at h
      dsimp only at h
      split at h
      next hname =>
        cases h
        exact .already hbinding hname
      · cases h
    | none =>
      rw [hbinding] at h
      obtain ⟨parts, hparts, h⟩ := except_bind_eq_ok_iff.mp h
      cases hposition : r.positions[parts.scope]? with
      | none => simp [hposition] at h
      | some position =>
        simp only [hposition] at h
        split at h
        next hlt =>
          split at h
          · cases h
            exact .newly hbinding hparts hposition hlt
          · cases h
        · cases h

theorem installed_bind {r r' : Registry σ} {id : MethodId} {name : String}
    (h : r.bind id name = .ok r') : r'.installed = r.installed := by
  cases (bind_cases h).2 <;> rfl

end Registry

/-! ### Actions -/

namespace Host

variable {α : Type}

/-- The same host with analyses that write down their calls, of which some were made already. -/
def journaled (journal : Journal) (host : Host σ) : Host (σ × Journal) where
  registry := host.registry.journaled
  heap := host.heap
  state := (host.state, journal)
  exited := host.exited
  frees := host.frees

/-- A step ends as it does, with a host whose analyses have written down their calls. -/
def journaledEnd (journal : Journal) :
    EStateM.Result SessionError (Host σ) α → EStateM.Result SessionError (Host (σ × Journal)) α
  | .ok a host => .ok a (host.journaled journal)
  | .error e host => .error e (host.journaled journal)

/-- The calls of rounds, when the analyses of the host are installed. -/
def entries (host : Host σ) (rounds : List Round) : Journal :=
  rounds.flatMap (Round.entries host.registry.installed.size)

/-- What the analyses are told during an action. -/
def tells (host : Host σ) : Action → List Round
  | .deliver ordering r =>
    match host.registry.binding? r.method with
    | none => []
    | some binding =>
      match Argument.resolveAll r.args host.heap with
      | .error _ _ => []
      | .ok args heap =>
        [.handled binding.position heap
          { method := binding.method, methodId := r.method, ordering, args }]
  | .free t =>
    match host.heap.remove t with
    | (none, _) => []
    | (some ref, heap) => [.freed heap ref]
  | .bind _ _ | .attach _ _ => []

/-- What the analyses are told during actions, until one of them fails. -/
def tellsAll (host : Host σ) : List Action → List Round
  | [] => []
  | a :: as =>
    match act a host with
    | .ok _ host' => host.tells a ++ host'.tellsAll as
    | .error _ _ => host.tells a

/-- **A record that was delivered** went to the analysis of its method. -/
theorem exists_of_deliver {host host' : Host σ} {ordering : UInt64} {r : Record}
    (hok : deliver ordering r host = .ok () host') :
    ∃ b analysis args heap state, host.registry.route? r.method = some (b, analysis) ∧
      Argument.resolveAll r.args host.heap = .ok args heap ∧
      analysis.handle heap { method := b.method, methodId := r.method, ordering, args }
        host.state = .ok () state ∧ host' = { host with heap, state } := by
  rw [deliver] at hok
  split at hok
  · cases hok
  next b analysis hroute =>
    split at hok
    · cases hok
    next args heap hargs =>
      dsimp only at hok
      split at hok
      next state hhandle =>
        cases hok
        exact ⟨b, analysis, args, heap, state, hroute, hargs, hhandle, rfl⟩
      · cases hok

/-- Only an action that binds a number changes what is bound, and none ends the session for the
analyses. -/
theorem act_keeps (a : Action) (host : Host σ) :
    ((Step.final (act a host)).registry = host.registry ∨
      ∃ id name, a = .bind id name ∧
        host.registry.bind id name = .ok (Step.final (act a host)).registry) ∧
      (Step.final (act a host)).exited = host.exited := by
  cases a with
  | deliver ordering r =>
    rw [← deliver_eq_act]
    unfold deliver
    dsimp only
    split
    · exact ⟨.inl rfl, rfl⟩
    split
    · exact ⟨.inl rfl, rfl⟩
    split <;> exact ⟨.inl rfl, rfl⟩
  | free t =>
    refine (?_ : ((host.notifyFree t).2.registry = host.registry ∨ _) ∧
      (host.notifyFree t).2.exited = host.exited)
    unfold notifyFree
    dsimp only
    split <;> exact ⟨.inl rfl, rfl⟩
  | bind id name =>
    rw [show act (.bind id name) host = Host.bind id name host from rfl]
    unfold Host.bind
    cases hbind : host.registry.bind id name with
    | ok registry => exact ⟨.inr ⟨id, name, rfl, hbind⟩, rfl⟩
    | error e => exact ⟨.inl rfl, rfl⟩
  | attach t data =>
    rw [← attach_eq_act]
    unfold attach
    dsimp only
    split <;> exact ⟨.inl rfl, rfl⟩

/-- No action installs an analysis. -/
theorem installed_act (a : Action) (host : Host σ) :
    (Step.final (act a host)).registry.installed = host.registry.installed := by
  rcases (act_keeps a host).1 with h | ⟨id, name, -, h⟩
  · rw [h]
  · exact Registry.installed_bind h

theorem actAll_keeps (as : List Action) (host : Host σ) :
    (Step.final (actAll as host)).registry.installed = host.registry.installed ∧
      (Step.final (actAll as host)).exited = host.exited := by
  refine (?_ : Step.Keeps (fun host' : Host σ =>
    host'.registry.installed = host.registry.installed ∧ host'.exited = host.exited) (actAll as))
    host ⟨rfl, rfl⟩
  induction as with
  | nil => exact .pure _
  | cons a as ih =>
    exact .bind (fun host' h => ⟨(installed_act a host').trans h.1,
      (act_keeps a host').2.trans h.2⟩) fun _ => ih

/-- All analyses are called in order, and write it down. -/
private theorem foldl_journaled (call : Analysis σ → σ → σ)
    (call' : Analysis (σ × Journal) → σ × Journal → σ × Journal) (entry : Callback)
    (hcall : ∀ position a s journal, call' (a.journaled position) (s, journal) =
      (call a s, journal ++ [(position, entry)])) (as : List (Analysis σ)) (state : σ)
    (journal : Journal) :
    (as.mapIdx fun position a => a.journaled position).foldl (fun s a => call' a s)
        (state, journal) =
      (as.foldl (fun s a => call a s) state,
        journal ++ (List.range as.length).map fun position => (position, entry)) := by
  induction as using List.reverseRecOn with
  | nil => simp
  | append_singleton as a ih =>
    simp only [List.mapIdx_concat, List.foldl_append, ih, List.foldl_cons, List.foldl_nil, hcall,
      List.length_append, List.length_singleton, List.range_succ, List.map_append, List.map_cons,
      List.map_nil, List.append_assoc]

theorem analyses_journaled (r : Registry σ) :
    r.journaled.analyses = r.analyses.mapIdx fun position a => a.journaled position := by
  refine List.ext_getElem? fun position => ?_
  simp only [Registry.analyses, Registry.journaled, Array.toList_mapIdx, List.getElem?_map,
    List.getElem?_mapIdx, Option.map_map]
  rfl

theorem length_analyses (r : Registry σ) : r.analyses.length = r.installed.size := by
  simp [Registry.analyses]

theorem notifyFree_journaled (journal : Journal) (t : Token) (host : Host σ) :
    (host.journaled journal).notifyFree t =
      ((host.notifyFree t).1,
        (host.notifyFree t).2.journaled (journal ++ host.entries (host.tells (.free t)))) := by
  rcases hremove : host.heap.remove t with ⟨_ | ref, heap⟩
  · simp [notifyFree, journaled, tells, hremove, entries]
  · simp [notifyFree, journaled, tells, hremove, entries, Round.entries, analyses_journaled,
      foldl_journaled (fun a => a.onFree heap ref) (fun a => a.onFree heap ref) (.freed heap ref)
        (fun _ _ _ _ => rfl), length_analyses]

/-- **One action** of a host whose analyses write down their calls. -/
theorem act_journaled (a : Action) (journal : Journal) (host : Host σ) :
    act a (host.journaled journal) =
      journaledEnd (journal ++ host.entries (host.tells a)) (act a host) := by
  obtain ⟨registry, heap, state, exited, frees⟩ := host
  cases a with
  | deliver ordering r =>
    rw [← deliver_eq_act, ← deliver_eq_act]
    simp only [deliver, journaled, tells, Registry.route?_journaled]
    cases hroute : registry.route? r.method with
    | none =>
      simp [Registry.route?_eq_none_iff.1 hroute, journaledEnd, entries, journaled]
    | some found =>
      obtain ⟨binding, analysis⟩ := found
      have hbinding := (Registry.route?_eq_some_iff.1 hroute).1
      simp only [Option.map_some, hbinding]
      cases Argument.resolveAll r.args heap with
      | error e heap' => simp [journaledEnd, entries, journaled]
      | ok args heap' =>
        simp only [Analysis.journaled]
        cases analysis.handle heap'
            { method := binding.method, methodId := r.method, ordering, args } state <;>
          simp [journaledEnd, entries, journaled, Round.entries]
  | free t =>
    exact congrArg (EStateM.Result.ok PUnit.unit)
      (congrArg Prod.snd (notifyFree_journaled journal t ⟨registry, heap, state, exited, frees⟩))
  | bind id name =>
    change Host.bind id name _ = journaledEnd _ (Host.bind id name _)
    simp only [Host.bind, journaled, Registry.bind_journaled]
    cases registry.bind id name <;> simp [Except.map, journaledEnd, journaled, entries, tells]
  | attach t data =>
    rw [← attach_eq_act, ← attach_eq_act]
    simp only [attach, journaled]
    cases Heap.attach t data heap <;> simp [journaledEnd, journaled, entries, tells]

/-- **Actions, one after the other,** of a host whose analyses write down their calls. -/
theorem actAll_journaled (as : List Action) (journal : Journal) (host : Host σ) :
    actAll as (host.journaled journal) =
      journaledEnd (journal ++ host.entries (host.tellsAll as)) (actAll as host) := by
  induction as generalizing journal host with
  | nil =>
    rw [tellsAll, entries, List.flatMap_nil, List.append_nil]
    rfl
  | cons a as ih =>
    have hact := act_journaled a journal host
    have hinstalled := installed_act a host
    simp only [actAll, tellsAll]
    cases h : act a host with
    | error e host' =>
      rw [h] at hact
      rw [Step.bind_of_error hact, Step.bind_of_error h]
      rfl
    | ok _ host' =>
      rw [h] at hact hinstalled
      rw [Step.bind_of_ok hact, Step.bind_of_ok h, ih]
      simp only [entries, Step.final] at hinstalled ⊢
      rw [hinstalled, List.flatMap_append, List.append_assoc]

/-! ### Sessions -/

theorem notifyExit_journaled (journal : Journal) (host : Host σ) (hexited : host.exited = false) :
    (host.journaled journal).notifyExit.2 =
      host.notifyExit.2.journaled (journal ++ host.entries [.exited]) := by
  simp [notifyExit, journaled, hexited, entries, Round.entries, analyses_journaled,
    foldl_journaled (fun a => a.onExit) (fun a => a.onExit) .exited (fun _ _ _ _ => rfl),
    length_analyses]

theorem replay_journaled (maxFrame : Nat) (bs : Bytes) (journal : Journal) (host : Host σ) :
    replay maxFrame bs (host.journaled journal) =
      journaledEnd (journal ++ host.entries (host.tellsAll
        (Frame.actions (Frame.untilClose (Frame.all maxFrame bs).1))))
        (replay maxFrame bs host) := by
  unfold replay
  rcases Frame.all maxFrame bs with ⟨frames, fault, behind⟩
  dsimp only
  have hacts := actAll_journaled (Frame.actions (Frame.untilClose frames)) journal host
  cases h : actAll (Frame.actions (Frame.untilClose frames)) host with
  | error e host' =>
    rw [h] at hacts
    rw [Step.bind_of_error hacts, Step.bind_of_error h]
    rfl
  | ok _ host' =>
    rw [h] at hacts
    rw [Step.bind_of_ok hacts, Step.bind_of_ok h]
    split
    · rfl
    split
    · rfl
    split <;> rfl

/-- What the analyses are told in a session that receives a byte string: of what its frames ask for,
and of the end unless something failed. -/
def rounds (maxFrame : Nat) (bs : Bytes) (host : Host σ) : List Round :=
  host.tellsAll (Frame.actions (Frame.untilClose (Frame.all maxFrame bs).1)) ++
    if (host.outcome maxFrame bs).1.isOk then [.exited] else []

theorem outcome_journaled (maxFrame : Nat) (bs : Bytes) (journal : Journal) (host : Host σ)
    (hexited : host.exited = false) :
    (host.journaled journal).outcome maxFrame bs =
      ((host.outcome maxFrame bs).1, (host.outcome maxFrame bs).2.journaled
        (journal ++ host.entries (host.rounds maxFrame bs))) := by
  have hreplay := replay_journaled maxFrame bs journal host
  rcases replay_cases maxFrame bs host with ⟨e, h⟩ | ⟨closed, host', hacts, h⟩
  · rw [h] at hreplay
    simp [outcome, rounds, hreplay, h, journaledEnd, Except.isOk, Except.toBool]
  · obtain ⟨hinstalled, hsame⟩ := actAll_keeps
      (Frame.actions (Frame.untilClose (Frame.all maxFrame bs).1)) host
    rw [hacts] at hinstalled hsame
    simp only [Step.final] at hinstalled hsame
    have hrounds : host.rounds maxFrame bs =
        host.tellsAll (Frame.actions (Frame.untilClose (Frame.all maxFrame bs).1)) ++
          [.exited] := by
      simp only [rounds, outcome, h, Except.isOk, Except.toBool, if_true]
    rw [hrounds]
    generalize host.tellsAll (Frame.actions (Frame.untilClose (Frame.all maxFrame bs).1)) = told
      at hreplay
    have hexit := notifyExit_journaled (journal ++ host.entries told) host' (hsame.trans hexited)
    have hentries : journal ++ host.entries told ++ host'.entries [.exited] =
        journal ++ host.entries (told ++ [.exited]) := by
      rw [entries, entries, entries, hinstalled, List.flatMap_append, List.append_assoc]
    rw [hentries] at hexit
    rw [h] at hreplay
    simp only [outcome, hreplay, h, journaledEnd, hexit]
    rfl

end Host

namespace Session

/-- **The calls that analyses get in a session.** Whatever arrives, a session whose analyses write
down their calls ends as it does without, and the journal holds the calls of the rounds that its
bytes ask for. -/
theorem run_journaled (registry : Registry σ) (state : σ) (maxFrame maxFreed : Nat)
    (arrivals : List (Except TransportError Bytes)) :
    let ended := (start registry state maxFrame maxFreed).run arrivals
    let written := (start registry.journaled (state, []) maxFrame maxFreed).run arrivals
    written.1 = ended.1 ∧ written.2.host = ended.2.host.journaled
      (((Host.start registry state maxFreed).rounds maxFrame (arrived arrivals)).flatMap
        (Round.entries registry.installed.size)) := by
  intro ended written
  have hended := run_arrived registry state maxFrame maxFreed arrivals
  have hwritten := run_arrived registry.journaled (state, []) maxFrame maxFreed arrivals
  have houtcome := Host.outcome_journaled maxFrame (arrived arrivals) []
    (Host.start registry state maxFreed) rfl
  have hboth := hwritten.trans houtcome
  rw [← hended] at hboth
  exact Prod.ext_iff.mp hboth

end Session

end TraceRelay
