import TraceRelay.Proofs.Session.Deliveries
import TraceRelay.Proofs.Session.Reading

/-!
# Why a session fails

A session fails at the first action that its host cannot take, or where something else than a frame
stands behind the last message. An action cannot be taken for one of five reasons.

## Main definitions

* `Host.Refuses` : why a host cannot take an action.

## Main results

* `Host.act_eq_error_iff` : there is no other reason.
* `Host.Concludes.eq_error_iff` : when a byte string makes a session fail.
-/

namespace TraceRelay

variable {σ : Type}

namespace Host

/-- Why a host cannot take an action. -/
inductive Refuses (host : Host σ) : Action → SessionError → Prop where
  /-- A record carries a number that is not bound. -/
  | unbound {ordering : UInt64} {r : Record} (hnone : host.registry.binding? r.method = none) :
    Refuses host (.deliver ordering r) (.unknownMethod r.method)
  /-- There is no place for an object that a record names. -/
  | arguments {ordering : UInt64} {r : Record} {b : Binding} {e : HeapError} {heap : Heap}
    (hbinding : host.registry.binding? r.method = some b)
    (hargs : Argument.resolveAll r.args host.heap = .error e heap) :
    Refuses host (.deliver ordering r) (.heap e)
  /-- The analysis of a record refuses it. -/
  | handler {ordering : UInt64} {r : Record} {b : Binding} {analysis : Analysis σ}
    {args : List Argument} {heap : Heap} {e : HandlerError} {state : σ}
    (hroute : host.registry.route? r.method = some (b, analysis))
    (hargs : Argument.resolveAll r.args host.heap = .ok args heap)
    (hhandle : analysis.handle heap { method := b.method, methodId := r.method, ordering, args }
      host.state = .error e state) :
    Refuses host (.deliver ordering r) (.analysis r.method b.name e)
  /-- A number cannot be bound to a name. -/
  | registration {id : MethodId} {name : String} {e : MethodError}
    (hbind : host.registry.bind id name = .error e) :
    Refuses host (.bind id name) (.registration id name e)
  /-- There is no place for an object that is described. -/
  | description {t : Token} {data : ObjectInfo} {e : HeapError} {heap : Heap}
    (hattach : Heap.attach t data host.heap = .error e heap) :
    Refuses host (.attach t data) (.heap e)

/-- **There is no other reason** why an action fails. -/
theorem act_eq_error_iff {a : Action} {host : Host σ} {e : SessionError} :
    (∃ host', act a host = .error e host') ↔ host.Refuses a e := by
  constructor
  · rintro ⟨host', h⟩
    cases a with
    | deliver ordering r =>
      rw [← deliver_eq_act, deliver] at h
      split at h
      next hnone =>
        cases h
        exact .unbound (Registry.route?_eq_none_iff.1 hnone)
      next b analysis hroute =>
        split at h
        next hargs =>
          cases h
          exact .arguments (Registry.route?_eq_some_iff.1 hroute).1 hargs
        next args heap hargs =>
          dsimp only at h
          split at h
          · cases h
          next hhandle =>
            cases h
            exact .handler hroute hargs hhandle
    | free t => cases h
    | bind id name =>
      change Host.bind id name host = _ at h
      unfold Host.bind at h
      split at h
      · cases h
      next hbind =>
        cases h
        exact .registration hbind
    | attach t data =>
      rw [← attach_eq_act, attach] at h
      split at h
      · cases h
      next hattach =>
        cases h
        exact .description hattach
  · intro h
    cases h with
    | unbound hnone =>
      rw [← deliver_eq_act, deliver]
      simp only [Registry.route?_eq_none_iff.2 hnone]
      exact ⟨_, rfl⟩
    | arguments hbinding hargs =>
      obtain ⟨analysis, hroute⟩ := Registry.exists_route? hbinding
      rw [← deliver_eq_act, deliver]
      simp only [hroute, hargs]
      exact ⟨_, rfl⟩
    | handler hroute hargs hhandle =>
      rw [← deliver_eq_act, deliver]
      simp only [hroute, hargs, hhandle]
      exact ⟨_, rfl⟩
    | @registration id name e hbind =>
      change ∃ host', Host.bind id name host = _
      simp only [Host.bind, hbind]
      exact ⟨_, rfl⟩
    | description hattach =>
      rw [← attach_eq_act, attach]
      simp only [hattach]
      exact ⟨_, rfl⟩

/-- Actions fail at the first one that cannot be taken. -/
theorem actAll_eq_error_iff {as : List Action} {host : Host σ} {e : SessionError} :
    (∃ host', actAll as host = .error e host') ↔
      ∃ before a behind host', as = before ++ a :: behind ∧ actAll before host = .ok () host' ∧
        host'.Refuses a e := by
  constructor
  · rintro ⟨host', h⟩
    induction as generalizing host with
    | nil => cases h
    | cons a as ih =>
      cases hfirst : act a host with
      | error e' host₁ =>
        rw [actAll, Step.bind_of_error hfirst] at h
        cases h
        exact ⟨[], a, as, host, rfl, rfl, act_eq_error_iff.1 ⟨_, hfirst⟩⟩
      | ok _ host₁ =>
        rw [actAll, Step.bind_of_ok hfirst] at h
        obtain ⟨before, b, behind, host₂, rfl, hbefore, hrefuses⟩ := ih h
        exact ⟨a :: before, b, behind, host₂, rfl, (Step.bind_of_ok hfirst).trans hbefore, hrefuses⟩
  · rintro ⟨before, a, behind, host₁, rfl, hbefore, hrefuses⟩
    obtain ⟨host₂, ha⟩ := act_eq_error_iff.2 hrefuses
    rw [actAll_append, Step.bind_of_ok hbefore]
    exact ⟨host₂, Step.bind_of_error ha⟩

/-- **When a session fails** that receives a byte string, which is read as the messages `ms` with
`behind` after them. -/
theorem Concludes.eq_error_iff {maxFrame : Nat} {ms : List Message} {es : List Bytes}
    {behind : Bytes} {host : Host σ} {ended : Except SessionError Summary × Host σ}
    (h : Concludes maxFrame ms es behind host ended) {e : SessionError} :
    ended.1 = .error e ↔
      (∃ before a after host', ms.flatMap Message.actions = before ++ a :: after ∧
        actAll before host = .ok () host' ∧ host'.Refuses a e) ∨
      (∃ host', actAll (ms.flatMap Message.actions) host = .ok () host') ∧ .close ∉ ms ∧
        ∃ w, Frame.Broken maxFrame behind w ∧ e = .wire w := by
  rw [← actAll_eq_error_iff]
  cases h with
  | @failed e' host' hacts =>
    simp only [hacts, Except.error.injEq, EStateM.Result.error.injEq, exists_and_left,
      exists_eq', and_true, reduceCtorEq, exists_false, false_and, or_false]
  | @broken w host' hacts hopen hbroken =>
    simp only [hacts, hopen, Except.error.injEq, reduceCtorEq, exists_false, false_or,
      not_false_eq_true, true_and]
    constructor
    · rintro rfl
      exact ⟨⟨host', rfl⟩, w, hbroken, rfl⟩
    · rintro ⟨-, w', hbroken', rfl⟩
      rw [hbroken.eq hbroken']
  | done hacts hend =>
    refine iff_of_false nofun ?_
    rintro (⟨host', hfailed⟩ | ⟨-, hopen, w, hbroken, -⟩)
    · cases hacts.symm.trans hfailed
    · obtain rfl := hend.resolve_left hopen
      exact Frame.not_broken_nil w hbroken

end Host

end TraceRelay
