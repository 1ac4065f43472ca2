import Mathlib.Logic.Function.Iterate
import Mathlib.Tactic.Common

/-!
# While loops

The meaning of `while (guard) body` without a bound on the number of turns: a relation that holds
of the states in which the body is entered and of the state in which the loop ends, and that holds
of nothing when the loop goes on for ever.
-/

namespace TenOs.Base

variable {σ : Type}

/-- From `s` the body is entered in the states of `trace`, one after the other, and the loop ends
in `t`. -/
inductive WhileRun (guard : σ → Prop) (body : σ → σ) : σ → List σ → σ → Prop
  | stop {s : σ} : ¬ guard s → WhileRun guard body s [] s
  | turn {s t : σ} {trace : List σ} : guard s → WhileRun guard body (body s) trace t →
      WhileRun guard body s (s :: trace) t

namespace WhileRun

variable {guard : σ → Prop} {body : σ → σ} {s t t' : σ} {trace trace' : List σ}

theorem guard_of_mem (h : WhileRun guard body s trace t) {u : σ} (hu : u ∈ trace) : guard u := by
  induction h with
  | stop _ => cases hu
  | turn hg _ ih =>
    rcases List.mem_cons.mp hu with rfl | hmem
    · exact hg
    · exact ih hmem

-- What the body keeps holds in every state in which it is entered and at the end.
theorem inv (I : σ → Prop) (hstep : ∀ s, I s → guard s → I (body s)) (hs : I s)
    (h : WhileRun guard body s trace t) : (∀ u ∈ trace, I u) ∧ I t := by
  induction h with
  | stop _ => exact ⟨fun u hu ↦ absurd hu List.not_mem_nil, hs⟩
  | turn hg _ ih =>
    obtain ⟨htrace, hend⟩ := ih (hstep _ hs hg)
    refine ⟨fun u hu ↦ ?_, hend⟩
    rcases List.mem_cons.mp hu with rfl | hmem
    · exact hs
    · exact htrace u hmem

/-- The loop is deterministic. -/
theorem unique (h : WhileRun guard body s trace t) (h' : WhileRun guard body s trace' t') :
    trace = trace' ∧ t = t' := by
  induction h generalizing trace' with
  | stop hg =>
    cases h' with
    | stop _ => exact ⟨rfl, rfl⟩
    | turn hg' _ => exact absurd hg' hg
  | turn hg _ ih =>
    cases h' with
    | stop hg' => exact absurd hg hg'
    | turn _ hrest =>
      obtain ⟨htrace, hend⟩ := ih hrest
      exact ⟨by rw [htrace], hend⟩

-- A loop whose turns are known by number ends at the first state that fails the guard.
theorem of_iterate (n : Nat) (hgo : ∀ m < n, guard (body^[m] s)) (hstop : ¬ guard (body^[n] s)) :
    ∃ trace, WhileRun guard body s trace (body^[n] s) := by
  induction n generalizing s with
  | zero => exact ⟨[], stop hstop⟩
  | succ n ih =>
    obtain ⟨trace, hrun⟩ := ih (fun m hm ↦ hgo (m + 1) (Nat.succ_lt_succ hm)) hstop
    exact ⟨s :: trace, turn (hgo 0 (Nat.zero_lt_succ n)) hrun⟩

end WhileRun

end TenOs.Base
