import Mathlib.Tactic.Common

/-!
# Runs of a step function

A system is a step function on states and a guard that says which inputs may come in which state.
`Run` collects the states some sequence of admitted inputs leads to.
-/

namespace TenOs.Base

variable {σ ι : Type} {step : σ → ι → σ} {ok : σ → ι → Prop} {s₀ s : σ}

/-- The states reached from `s₀` by inputs that meet the guard in the state they come in. -/
inductive Run (step : σ → ι → σ) (ok : σ → ι → Prop) (s₀ : σ) : σ → Prop
  | start : Run step ok s₀ s₀
  | step {s : σ} {i : ι} : Run step ok s₀ s → ok s i → Run step ok s₀ (step s i)

/-- What holds at the start and is kept by every admitted step holds in every state reached. -/
theorem Run.inv (I : σ → Prop) (h₀ : I s₀) (hstep : ∀ s i, I s → ok s i → I (step s i))
    (h : Run step ok s₀ s) : I s := by
  induction h with
  | start => exact h₀
  | step _ hok ih => exact hstep _ _ ih hok

-- Without a guard every sequence of inputs is a run.
theorem Run.foldl (hok : ∀ s i, ok s i) (is : List ι) (h : Run step ok s₀ s) :
    Run step ok s₀ (is.foldl step s) := by
  induction is generalizing s with
  | nil => exact h
  | cons i is ih => exact ih (.step h (hok s i))

end TenOs.Base
