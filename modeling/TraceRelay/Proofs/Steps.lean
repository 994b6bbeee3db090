import Mathlib.Logic.Basic

/-!
# Steps with a state and a fault

Readers, writers, and the steps of both ends of a session are functions that take a state and end
with a value or a fault, handing on the state in both cases. These are the equations by which two
steps, one after the other, are taken apart.

## Main definitions

* `Step.Keeps` : what holds before a step holds after it.
* `Step.Notes` : likewise, where a fault is taken down.
* `Step.Confines` : likewise, where what is known of the faults is told too.
* `Step.Succeeds` : a step that cannot fail as long as something holds.
* `Step.attempts` : steps that are attempted one after the other, whatever becomes of each.

## Main results

* `Step.bind_of_ok`, `Step.bind_of_error` : two steps, the end of the first one being known.
* `Step.get_bind`, `Step.modify_bind` : a step after the state was looked at or changed.
* `Step.bind_eq_ok_iff`, `Step.bind_eq_error_iff` : two steps succeed exactly when both do.
* `Step.adaptExcept_eq_ok_iff` : a step whose faults are renamed succeeds as it did before.
* `Step.Keeps.bind`, `Step.Notes.bind` : what both of two steps keep is kept by one after the other.
* `Step.attempts_induction` : what holds after any attempts.
-/

namespace TraceRelay

namespace Step

variable {ε ε' σ α β : Type}

theorem bind_of_ok {x : EStateM ε σ α} {f : α → EStateM ε σ β} {s t : σ} {a : α}
    (h : x s = .ok a t) : (x >>= f) s = f a t := by
  simp only [bind, EStateM.bind, h]

theorem bind_of_error {x : EStateM ε σ α} {f : α → EStateM ε σ β} {s t : σ} {e : ε}
    (h : x s = .error e t) : (x >>= f) s = .error e t := by
  simp only [bind, EStateM.bind, h]

theorem get_bind (f : σ → EStateM ε σ β) (s : σ) : (get >>= f) s = f s s := rfl

theorem modify_bind (g : σ → σ) (f : PUnit → EStateM ε σ β) (s : σ) :
    (modify g >>= f) s = f ⟨⟩ (g s) := rfl

theorem bind_eq_ok_iff {x : EStateM ε σ α} {f : α → EStateM ε σ β} {s t : σ} {b : β} :
    (x >>= f) s = .ok b t ↔ ∃ a r, x s = .ok a r ∧ f a r = .ok b t := by
  cases h : x s with
  | error e r => simp [bind_of_error h]
  | ok a r =>
    rw [bind_of_ok h]
    constructor
    · exact fun hb => ⟨a, r, rfl, hb⟩
    · rintro ⟨_, _, hx, hb⟩
      cases hx
      exact hb

theorem bind_eq_error_iff {x : EStateM ε σ α} {f : α → EStateM ε σ β} {s t : σ} {e : ε} :
    (x >>= f) s = .error e t ↔ x s = .error e t ∨ ∃ a r, x s = .ok a r ∧ f a r = .error e t := by
  cases h : x s with
  | error e' r => simp [bind_of_error h]
  | ok a r =>
    rw [bind_of_ok h]
    constructor
    · exact fun he => .inr ⟨a, r, rfl, he⟩
    · rintro (hx | ⟨_, _, hx, he⟩)
      · cases hx
      · cases hx
        exact he

theorem pure_eq_ok_iff {a b : α} {s t : σ} :
    (pure a : EStateM ε σ α) s = .ok b t ↔ a = b ∧ s = t := by
  simp [pure, EStateM.pure]

theorem throw_ne_ok {e : ε} {b : α} {s t : σ} : (throw e : EStateM ε σ α) s ≠ .ok b t :=
  nofun

theorem adaptExcept_eq_ok_iff {f : ε → ε'} {x : EStateM ε σ α} {s t : σ} {a : α} :
    EStateM.adaptExcept f x s = .ok a t ↔ x s = .ok a t := by
  unfold EStateM.adaptExcept
  cases x s <;> simp

theorem adaptExcept_eq_error_iff {f : ε → ε'} {x : EStateM ε σ α} {s t : σ} {e' : ε'} :
    EStateM.adaptExcept f x s = .error e' t ↔ ∃ e, x s = .error e t ∧ f e = e' := by
  unfold EStateM.adaptExcept
  cases x s with
  | ok a t => simp
  | error e t =>
    simp only [EStateM.Result.error.injEq]
    constructor
    · rintro ⟨rfl, rfl⟩
      exact ⟨e, ⟨rfl, rfl⟩, rfl⟩
    · rintro ⟨_, ⟨rfl, rfl⟩, rfl⟩
      exact ⟨rfl, rfl⟩

/-! ### What steps keep -/

/-- The state after a step, whether it succeeded or failed. -/
def final : EStateM.Result ε σ α → σ
  | .ok _ s => s
  | .error _ s => s

/-- Whether a step succeeded. -/
def succeeded : EStateM.Result ε σ α → Bool
  | .ok .. => true
  | .error .. => false

theorem final_bind_pure (m : EStateM ε σ α) (b : β) (s : σ) :
    final ((m >>= fun _ => Pure.pure b) s) = final (m s) := by
  cases h : m s with
  | ok a t => rw [bind_of_ok h]; rfl
  | error e t => rw [bind_of_error h]; rfl

theorem succeeded_bind_pure (m : EStateM ε σ α) (b : β) (s : σ) :
    succeeded ((m >>= fun _ => Pure.pure b) s) = succeeded (m s) := by
  cases h : m s with
  | ok a t => rw [bind_of_ok h]; rfl
  | error e t => rw [bind_of_error h]; rfl

/-- What holds after a step holds after two, if the second one keeps it. -/
theorem final_bind_of {P : σ → Prop} {m : EStateM ε σ α} {f : α → EStateM ε σ β} {s : σ}
    (hm : P (final (m s))) (hf : ∀ a t, m s = .ok a t → P t → P (final (f a t))) :
    P (final ((m >>= f) s)) := by
  cases hms : m s with
  | ok a t =>
    rw [hms] at hm
    rw [bind_of_ok hms]
    exact hf a t hms hm
  | error e t =>
    rw [hms] at hm
    rw [bind_of_error hms]
    exact hm

/-- What holds before a step holds after it, whether it succeeds or fails. -/
def Keeps (P : σ → Prop) (m : EStateM ε σ α) : Prop := ∀ s, P s → P (final (m s))

namespace Keeps

variable {P : σ → Prop}

theorem pure (a : α) : Keeps P (pure a : EStateM ε σ α) := fun _ h => h

theorem throw (e : ε) : Keeps P (throw e : EStateM ε σ α) := fun _ h => h

theorem get : Keeps P (get : EStateM ε σ σ) := fun _ h => h

theorem modify {g : σ → σ} (hg : ∀ s, P s → P (g s)) : Keeps P (modify g : EStateM ε σ PUnit) :=
  fun s h => hg s h

theorem bind {m : EStateM ε σ α} {f : α → EStateM ε σ β} (hm : Keeps P m)
    (hf : ∀ a, Keeps P (f a)) : Keeps P (m >>= f) :=
  fun s h => final_bind_of (hm s h) fun a t _ => hf a t

theorem forM_of_mem {f : β → EStateM ε σ PUnit} {bs : List β} (hf : ∀ b ∈ bs, Keeps P (f b)) :
    Keeps P (bs.forM f) := by
  induction bs with
  | nil => exact pure _
  | cons b bs ih =>
    exact bind (hf b List.mem_cons_self) fun _ => ih fun b hb => hf b (List.mem_cons_of_mem _ hb)

theorem forM {f : β → EStateM ε σ PUnit} (hf : ∀ b, Keeps P (f b)) (bs : List β) :
    Keeps P (bs.forM f) :=
  forM_of_mem fun b _ => hf b

end Keeps

/-- A step fails with the fault. -/
def Fails (e : ε) (result : EStateM.Result ε σ α) : Prop := ∃ s, result = .error e s

/-- What holds before a step holds after it, and it is noted if the step fails with the fault. -/
def Notes (e : ε) (P : Prop → σ → Prop) (m : EStateM ε σ α) : Prop :=
  ∀ noted s, P noted s → P (noted ∨ Fails e (m s)) (final (m s))

/-- More can be noted. -/
def Noting (P : Prop → σ → Prop) : Prop := ∀ ⦃p q : Prop⦄ ⦃s : σ⦄, (p → q) → P p s → P q s

namespace Notes

variable {e : ε} {P : Prop → σ → Prop} (hmono : Noting P)

include hmono

/-- Two steps from a state, of which the second one may depend on how the first one ended. -/
theorem bind_of {m : EStateM ε σ α} {f : α → EStateM ε σ β} {noted : Prop} {s : σ}
    (hm : P (noted ∨ Fails e (m s)) (final (m s)))
    (hf : ∀ a t, m s = .ok a t → ∀ noted, P noted t →
      P (noted ∨ Fails e (f a t)) (final (f a t))) :
    P (noted ∨ Fails e ((m >>= f) s)) (final ((m >>= f) s)) := by
  cases hms : m s with
  | ok a t =>
    rw [hms] at hm
    rw [bind_of_ok hms]
    refine hmono ?_ (hf a t hms _ hm)
    rintro ((hnoted | ⟨_, hok⟩) | hfails)
    · exact .inl hnoted
    · cases hok
    · exact .inr hfails
  | error e' t =>
    rw [hms] at hm
    rw [bind_of_error hms]
    exact hmono (Or.imp_right fun ⟨t', ht'⟩ => by cases ht'; exact ⟨t, rfl⟩) hm

theorem bind {m : EStateM ε σ α} {f : α → EStateM ε σ β} (hm : Notes e P m)
    (hf : ∀ a, Notes e P (f a)) : Notes e P (m >>= f) :=
  fun noted s h => bind_of hmono (hm noted s h) fun a t _ noted => hf a noted t

end Notes

/-- What holds before a step holds after it. If the step fails, then something is known of the fault
and of the state in which it ends. -/
def Confines (P : σ → Prop) (Q : ε → σ → Prop) (m : EStateM ε σ α) : Prop :=
  ∀ s, P s → P (final (m s)) ∧ ∀ e t, m s = .error e t → Q e t

namespace Confines

variable {P : σ → Prop} {Q : ε → σ → Prop}

theorem keeps {m : EStateM ε σ α} (hm : Confines P Q m) : Keeps P m := fun s h => (hm s h).1

theorem pure (a : α) : Confines P Q (pure a : EStateM ε σ α) := fun _ h => ⟨h, nofun⟩

theorem throw {e : ε} (he : ∀ s, P s → Q e s) : Confines P Q (throw e : EStateM ε σ α) :=
  fun s h => ⟨h, fun _ _ heq => by cases heq; exact he s h⟩

theorem get : Confines P Q (get : EStateM ε σ σ) := fun _ h => ⟨h, nofun⟩

theorem modify {g : σ → σ} (hg : ∀ s, P s → P (g s)) :
    Confines P Q (modify g : EStateM ε σ PUnit) := fun s h => ⟨hg s h, nofun⟩

theorem bind {m : EStateM ε σ α} {f : α → EStateM ε σ β} (hm : Confines P Q m)
    (hf : ∀ a, Confines P Q (f a)) : Confines P Q (m >>= f) := by
  intro s h
  obtain ⟨hs, hfaults⟩ := hm s h
  cases hms : m s with
  | ok a t =>
    rw [hms] at hs
    rw [bind_of_ok hms]
    exact hf a t hs
  | error e t =>
    rw [hms] at hs
    rw [bind_of_error hms]
    refine ⟨hs, fun e' t' heq => ?_⟩
    cases heq
    exact hfaults e t hms

theorem forM {f : β → EStateM ε σ PUnit} (hf : ∀ b, Confines P Q (f b)) (bs : List β) :
    Confines P Q (bs.forM f) := by
  induction bs with
  | nil => exact pure _
  | cons b bs ih => exact bind (hf b) fun _ => ih

end Confines

/-- From a state with a property a step succeeds, and its end has the property as well. -/
def Succeeds (P : σ → Prop) (m : EStateM ε σ α) : Prop := ∀ s, P s → ∃ a t, m s = .ok a t ∧ P t

namespace Succeeds

variable {P : σ → Prop}

theorem bind {m : EStateM ε σ α} {f : α → EStateM ε σ β} (hm : Succeeds P m)
    (hf : ∀ a, Succeeds P (f a)) : Succeeds P (m >>= f) := by
  intro s h
  obtain ⟨a, t, hms, ht⟩ := hm s h
  rw [bind_of_ok hms]
  exact hf a t ht

theorem forM {f : β → EStateM ε σ PUnit} (hf : ∀ b, Succeeds P (f b)) (bs : List β) :
    Succeeds P (bs.forM f) := by
  induction bs with
  | nil => exact fun s h => ⟨⟨⟩, s, rfl, h⟩
  | cons b bs ih => exact bind (hf b) fun _ => ih

end Succeeds

/-! ### Steps that are attempted -/

/-- The state after steps that are attempted one after the other, and those that succeed. -/
def attempts (f : β → EStateM ε σ Unit) (s : σ) : List β → σ × List β
  | [] => (s, [])
  | b :: bs =>
    let rest := attempts f (final (f b s)) bs
    (rest.1, if succeeded (f b s) then b :: rest.2 else rest.2)

/-- What holds of a state and of the steps that have succeeded holds after any attempts. -/
theorem attempts_induction {f : β → EStateM ε σ Unit} {P : σ → List β → Prop}
    (hstep : ∀ s done b, P s done →
      P (final (f b s)) (if succeeded (f b s) then done ++ [b] else done))
    {s : σ} {done : List β} (h : P s done) (bs : List β) :
    P (attempts f s bs).1 (done ++ (attempts f s bs).2) := by
  induction bs generalizing s done with
  | nil => rwa [attempts, List.append_nil]
  | cons b bs ih =>
    have hrest := ih (hstep s done b h)
    by_cases hok : succeeded (f b s) = true
    · rw [if_pos hok, List.append_assoc] at hrest
      simp only [attempts, if_pos hok]
      exact hrest
    · rw [if_neg hok] at hrest
      simp only [attempts, if_neg hok]
      exact hrest

end Step

/-- Two computations that may fail succeed exactly when both do. -/
theorem except_bind_eq_ok_iff {ε α β : Type} {x : Except ε α} {f : α → Except ε β} {b : β} :
    (x >>= f) = .ok b ↔ ∃ a, x = .ok a ∧ f a = .ok b := by
  cases x <;> simp [bind, Except.bind]

theorem except_mapError_eq_ok_iff {ε ε' α : Type} {f : ε → ε'} {x : Except ε α} {a : α} :
    x.mapError f = .ok a ↔ x = .ok a := by
  cases x with
  | ok b => exact ⟨fun h => congrArg _ (Except.ok.inj h), fun h => congrArg _ (Except.ok.inj h)⟩
  | error e => exact ⟨nofun, nofun⟩

end TraceRelay
