import TenOs.Base.Loop

/-!
# Fuelled functions that return

A function with loops that need not end takes fuel, and returns when it has the same result with every
fuel from some amount on.
-/

namespace TenOs.Base

variable {α β σ : Type}

/-- With enough fuel the result is `a`. -/
def Returns (f : Nat → Option α) (a : α) : Prop := ∃ k₀, ∀ k, k₀ ≤ k → f k = some a

/-- From some fuel on there is no result. -/
def Never (f : Nat → Option α) : Prop := ∃ k₀, ∀ k, k₀ ≤ k → f k = none

namespace Returns

variable {f : Nat → Option α} {g : Nat → α → Option β} {a : α} {b : β}

theorem intro (k₀ : Nat) (h : ∀ k, k₀ ≤ k → f k = some a) : Returns f a := ⟨k₀, h⟩

theorem pure (a : α) : Returns (fun _ ↦ some a) a := ⟨0, fun _ _ ↦ rfl⟩

theorem bind (h : Returns f a) (hg : Returns (fun k ↦ g k a) b) :
    Returns (fun k ↦ (f k).bind (g k)) b := by
  obtain ⟨k₀, hk₀⟩ := h
  obtain ⟨k₁, hk₁⟩ := hg
  refine ⟨max k₀ k₁, fun k hk ↦ ?_⟩
  dsimp only
  rw [hk₀ k (by omega), Option.bind_some]
  exact hk₁ k (by omega)

theorem congr {f' : Nat → Option α} (h : Returns f a) (hf : ∀ k, f' k = f k) : Returns f' a := by
  obtain ⟨k₀, hk₀⟩ := h
  exact ⟨k₀, fun k hk ↦ (hf k).trans (hk₀ k hk)⟩

theorem unique {a' : α} (h : Returns f a) (h' : Returns f a') : a = a' := by
  obtain ⟨k₀, hk₀⟩ := h
  obtain ⟨k₁, hk₁⟩ := h'
  have hsame := (hk₀ (max k₀ k₁) (by omega)).symm.trans (hk₁ (max k₀ k₁) (by omega))
  exact Option.some.inj hsame

/-- A loop returns when all its turns do. -/
theorem forAbort (body : Nat → Nat → σ → Option σ) (I : Nat → σ → Prop) (n start : Nat) {s : σ}
    (hs : I start s)
    (hbody : ∀ i s, start ≤ i → i < start + n → I i s →
      ∃ s', Returns (fun k ↦ body k i s) s' ∧ I (i + 1) s') :
    ∃ s', Returns (fun k ↦ Base.forAbort (body k) n start s) s' ∧ I (start + n) s' := by
  induction n generalizing start s with
  | zero => exact ⟨s, pure s, hs⟩
  | succ n ih =>
    obtain ⟨s', hturn, hs'⟩ := hbody start s (Nat.le_refl _) (by omega) hs
    obtain ⟨t, hrest, ht⟩ := ih (start + 1) hs' fun i s h1 h2 ↦ hbody i s (by omega) (by omega)
    refine ⟨t, bind hturn hrest, ?_⟩
    rwa [show start + (n + 1) = start + 1 + n by omega]

end Returns

namespace Never

variable {f : Nat → Option α} {g : Nat → α → Option β} {a : α}

theorem of_none (h : ∀ k, f k = none) : Never f := ⟨0, fun k _ ↦ h k⟩

theorem not_returns (h : Never f) : ¬ ∃ a, Returns f a := by
  rintro ⟨a, k₁, hk₁⟩
  obtain ⟨k₀, hk₀⟩ := h
  have hnone := hk₀ (max k₀ k₁) (by omega)
  rw [hk₁ _ (by omega)] at hnone
  cases hnone

theorem bind (h : Never f) : Never fun k ↦ (f k).bind (g k) := by
  obtain ⟨k₀, hk₀⟩ := h
  refine ⟨k₀, fun k hk ↦ ?_⟩
  dsimp only
  rw [hk₀ k hk]
  rfl

theorem of_returns (h : Returns f a) (hg : Never fun k ↦ g k a) : Never fun k ↦ (f k).bind (g k) := by
  obtain ⟨k₀, hk₀⟩ := h
  obtain ⟨k₁, hk₁⟩ := hg
  refine ⟨max k₀ k₁, fun k hk ↦ ?_⟩
  dsimp only
  rw [hk₀ k (by omega), Option.bind_some]
  exact hk₁ k (by omega)

/-- A loop never returns when one of its turns does not. -/
theorem forAbort (body : Nat → Nat → σ → Option σ) (I : Nat → σ → Prop) (ok : Nat → Prop)
    {n start : Nat} {s : σ} (hs : I start s)
    (hgood : ∀ i s, I i s → ok i → ∃ s', Returns (fun k ↦ body k i s) s' ∧ I (i + 1) s')
    (hbad : ∀ i s, I i s → ¬ ok i → Never fun k ↦ body k i s)
    (h : ∃ i, start ≤ i ∧ i < start + n ∧ ¬ ok i) :
    Never fun k ↦ Base.forAbort (body k) n start s := by
  obtain ⟨i, hi, hlt, hnot⟩ := h
  induction n generalizing start s with
  | zero => omega
  | succ n ih =>
    by_cases hok : ok start
    · obtain ⟨s', hturn, hs'⟩ := hgood start s hs hok
      have hne : start ≠ i := fun heq ↦ hnot (heq ▸ hok)
      exact of_returns hturn (ih hs' (by omega) (by omega))
    · exact bind (hbad start s hs hok)

end Never

end TenOs.Base
