import Mathlib.Order.Defs.PartialOrder

/-!
# Systems of partial steps

A system is a partial `step : σ → α → Option σ`: an action is taken only where it is enabled, and
then leads to one state.  `run step s as` takes the actions `as` in order, and `Reachable step init`
holds of the states some run from `init` reaches (`Reachable.run`).

Two rules carry the proofs about such systems.  A predicate that holds of `init` and that every
step keeps holds of every reachable state (`Reachable.inv`), and of the end of every run from a
state where it holds (`inv_of_run`); and a quantity that no step lowers does not lower along a
run (`le_of_run`).
-/

namespace Virtualization.Transition

variable {σ α : Type} (step : σ → α → Option σ)

/-- The actions taken in order; `none` when one of them is not enabled. -/
def run : σ → List α → Option σ
  | s, [] => some s
  | s, a :: as => (step s a).bind fun s' ↦ run s' as

/-- The states that some run from `init` reaches. -/
inductive Reachable (init : σ) : σ → Prop
  | init : Reachable init init
  | step {s s' : σ} (a : α) : Reachable init s → step s a = some s' → Reachable init s'

variable {step}

@[simp] theorem run_nil (s : σ) : run step s [] = some s := rfl

theorem run_cons_of_step {s s' : σ} {a : α} (h : step s a = some s') (as : List α) :
    run step s (a :: as) = run step s' as := by
  rw [run, h, Option.bind_some]

theorem run_cons_eq_some {s s'' : σ} {a : α} {as : List α} :
    run step s (a :: as) = some s'' ↔ ∃ s', step s a = some s' ∧ run step s' as = some s'' :=
  Option.bind_eq_some_iff

/-- A run from a reachable state ends in a reachable state. -/
theorem Reachable.run {init s s' : σ} (hs : Reachable step init s) {as : List α}
    (h : run step s as = some s') : Reachable step init s' := by
  induction as generalizing s with
  | nil =>
    cases h
    exact hs
  | cons a as ih =>
    obtain ⟨s₁, hstep, hrun⟩ := run_cons_eq_some.1 h
    exact ih (hs.step a hstep) hrun

/-- The invariant rule: what holds initially and every step keeps holds of every reachable
state. -/
theorem Reachable.inv {init s : σ} {I : σ → Prop} (hinit : I init)
    (hstep : ∀ s a s', I s → step s a = some s' → I s') (h : Reachable step init s) : I s := by
  induction h with
  | init => exact hinit
  | step a _ hs ih => exact hstep _ a _ ih hs

/-- The invariant rule for a run from any state: what holds of the state a run starts from and
every step keeps holds where the run ends. -/
theorem inv_of_run {I : σ → Prop} (hstep : ∀ s a s', I s → step s a = some s' → I s')
    {s s' : σ} {as : List α} (h : run step s as = some s') (hs : I s) : I s' :=
  Reachable.inv hs hstep (Reachable.init.run h)

/-- A quantity that no step lowers does not lower along a run. -/
theorem le_of_run {β : Type} [Preorder β] {f : σ → β}
    (hf : ∀ s a s', step s a = some s' → f s ≤ f s') {s s' : σ} {as : List α}
    (h : run step s as = some s') : f s ≤ f s' := by
  induction as generalizing s with
  | nil =>
    cases h
    exact le_refl _
  | cons a as ih =>
    obtain ⟨s₁, hstep, hrun⟩ := run_cons_eq_some.1 h
    exact le_trans (hf s a s₁ hstep) (ih hrun)

end Virtualization.Transition
