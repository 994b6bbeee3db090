import TraceRelay.Analysis.Invocation

/-!
# Analyses

An analysis takes the records of the methods in its scope, and is told which objects go and when
the session ends. The analyses of a session keep their state in one common value.

## Main definitions

* `Analysis` : what an analysis does, over a common state.
* `Analysis.focus` : an analysis that keeps its state in a part of a larger one.
-/

namespace TraceRelay

/-- What an analysis does, over a state that all analyses of a session share. -/
structure Analysis (σ : Type) where
  name : String
  /-- Whether the analysis takes a method. The answer is settled when the analysis is installed: it
  does not depend on the state. -/
  accepts : String → Bool := fun _ => true
  /-- Takes a call. The heap shows what is known of the objects among its arguments. -/
  handle : Heap → Invocation → EStateM HandlerError σ Unit := fun _ _ => return
  /-- An object is gone from the observed process. -/
  onFree : Heap → ObjectRef → σ → σ := fun _ _ s => s
  /-- The session has ended. -/
  onExit : σ → σ := fun s => s

/-- An analysis that keeps its state in a part of a larger one. -/
def Analysis.focus {σ τ : Type} (part : σ → τ) (replace : τ → σ → σ) (a : Analysis τ) :
    Analysis σ where
  name := a.name
  accepts := a.accepts
  handle heap i := fun s =>
    match a.handle heap i (part s) with
    | .ok _ t => .ok () (replace t s)
    | .error e t => .error e (replace t s)
  onFree heap ref s := replace (a.onFree heap ref (part s)) s
  onExit s := replace (a.onExit (part s)) s

end TraceRelay
