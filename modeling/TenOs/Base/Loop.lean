import Mathlib.Tactic.Ring

/-!
# Counted loops

The shapes of a C `for` loop over a counter: with a body that may return from the function
(`firstFrom`, and `forReturn` when the body also changes a state), with a body that only changes
the state (`forLoop`), and with a body that may abort (`forAbort`).  Every loop runs its counter
over `start, …, start + n - 1`.
-/

namespace TenOs.Base

variable {σ β : Type}

/-! ## Loops that return a value -/

/-- The first value that `body` returns on `start, …, start + n - 1`. -/
def firstFrom (body : Nat → Option β) : (n start : Nat) → Option β
  | 0, _ => none
  | n + 1, start =>
      match body start with
      | some b => some b
      | none => firstFrom body n (start + 1)

theorem firstFrom_eq_none_iff (body : Nat → Option β) (n start : Nat) :
    firstFrom body n start = none ↔ ∀ i, start ≤ i → i < start + n → body i = none := by
  induction n generalizing start with
  | zero => simp only [firstFrom, true_iff]; intro i h1 h2; omega
  | succ n ih =>
    rw [firstFrom]
    cases hb : body start with
    | some b =>
      simp only [reduceCtorEq, false_iff, not_forall]
      exact ⟨start, Nat.le_refl _, by omega, by rw [hb]; simp⟩
    | none =>
      simp only [ih]
      constructor
      · intro h i h1 h2
        rcases Nat.eq_or_lt_of_le h1 with rfl | h1
        · exact hb
        · exact h i h1 (by omega)
      · intro h i h1 h2
        exact h i (by omega) (by omega)

/-- A returned value comes from the first counter on which the body returns at all. -/
theorem firstFrom_eq_some_iff (body : Nat → Option β) (n start : Nat) (b : β) :
    firstFrom body n start = some b ↔
      ∃ i, start ≤ i ∧ i < start + n ∧ body i = some b ∧
        ∀ j, start ≤ j → j < i → body j = none := by
  induction n generalizing start with
  | zero =>
    simp only [firstFrom, reduceCtorEq, false_iff]
    rintro ⟨i, h1, h2, -⟩
    omega
  | succ n ih =>
    rw [firstFrom]
    cases hb : body start with
    | some c =>
      constructor
      · intro h
        exact ⟨start, Nat.le_refl _, by omega, by rw [hb]; exact h, fun j h1 h2 ↦ by omega⟩
      · rintro ⟨i, h1, h2, hi, hfirst⟩
        rcases Nat.eq_or_lt_of_le h1 with rfl | h1
        · rwa [hb] at hi
        · have hn := hfirst start (Nat.le_refl _) h1
          rw [hb] at hn; cases hn
    | none =>
      simp only [ih]
      constructor
      · rintro ⟨i, h1, h2, hi, hfirst⟩
        refine ⟨i, by omega, by omega, hi, fun j hj1 hj2 ↦ ?_⟩
        rcases Nat.eq_or_lt_of_le hj1 with rfl | hj1
        · exact hb
        · exact hfirst j hj1 hj2
      · rintro ⟨i, h1, h2, hi, hfirst⟩
        have hne : start ≠ i := by rintro rfl; rw [hb] at hi; cases hi
        exact ⟨i, by omega, by omega, hi, fun j hj1 hj2 ↦ hfirst j (by omega) hj2⟩

-- A search in two parts: the second is only made when the first finds nothing.
theorem firstFrom_add (body : Nat → Option β) (m n start : Nat) :
    firstFrom body (m + n) start =
      (firstFrom body m start).or (firstFrom body n (start + m)) := by
  induction m generalizing start with
  | zero => simp only [Nat.zero_add, firstFrom, Option.none_or, Nat.add_zero]
  | succ m ih =>
    rw [show m + 1 + n = (m + n) + 1 by omega, firstFrom, firstFrom]
    cases body start with
    | some b => rfl
    | none => simp only [ih, show start + 1 + m = start + (m + 1) by omega]

theorem firstFrom_shift (body : Nat → Option β) (n start k : Nat) :
    firstFrom (fun j ↦ body (k + j)) n start = firstFrom body n (k + start) := by
  induction n generalizing start with
  | zero => rfl
  | succ n ih => rw [firstFrom, firstFrom, ih, Nat.add_assoc]

/-- A loop over rows of `w` cells each is one loop over the cells. -/
theorem firstFrom_nested (body : Nat → Option β) (w n start : Nat) :
    firstFrom (fun i ↦ firstFrom (fun j ↦ body (w * i + j)) w 0) n start =
      firstFrom body (w * n) (w * start) := by
  induction n generalizing start with
  | zero => rfl
  | succ n ih =>
    rw [firstFrom, ih, firstFrom_shift, Nat.add_zero, show w * (n + 1) = w + w * n by ring,
      firstFrom_add, show w * (start + 1) = w * start + w by ring]
    cases firstFrom body w (w * start) <;> rfl

theorem firstFrom_congr {f g : Nat → Option β} {n start : Nat}
    (h : ∀ i, start ≤ i → i < start + n → f i = g i) :
    firstFrom f n start = firstFrom g n start := by
  induction n generalizing start with
  | zero => rfl
  | succ n ih =>
    rw [firstFrom, firstFrom, h start (Nat.le_refl _) (by omega),
      ih fun i h1 h2 ↦ h i (by omega) (by omega)]

theorem firstFrom_map {γ : Type} (f : β → γ) (body : Nat → Option β) (n start : Nat) :
    firstFrom (fun i ↦ (body i).map f) n start = (firstFrom body n start).map f := by
  induction n generalizing start with
  | zero => rfl
  | succ n ih =>
    rw [firstFrom, firstFrom, ih]
    cases body start <;> rfl

/-- A loop whose body changes a state and may return. -/
def forReturn (body : Nat → σ → σ × Option β) : (n start : Nat) → σ → σ × Option β
  | 0, _, s => (s, none)
  | n + 1, start, s =>
      match body start s with
      | (s', some b) => (s', some b)
      | (s', none) => forReturn body n (start + 1) s'

/-- When what the body returns does not depend on the state, the loop returns what the stateless
loop returns. -/
theorem forReturn_spec {body : Nat → σ → σ × Option β} {I : σ → Prop} {g : Nat → Option β}
    (hbody : ∀ i s, I s → I (body i s).1 ∧ (body i s).2 = g i) (n start : Nat) {s : σ} (hs : I s) :
    I (forReturn body n start s).1 ∧ (forReturn body n start s).2 = firstFrom g n start := by
  induction n generalizing start s with
  | zero => exact ⟨hs, rfl⟩
  | succ n ih =>
    obtain ⟨hI, hg⟩ := hbody start s hs
    rw [forReturn, firstFrom, ← hg]
    rcases hb : body start s with ⟨s', _ | b⟩
    · rw [hb] at hI
      exact ih (start + 1) hI
    · rw [hb] at hI
      exact ⟨hI, rfl⟩

/-- What one turn of the body keeps, the whole loop keeps. -/
theorem forReturn_inv {body : Nat → σ → σ × Option β} {I : σ → Prop}
    (hbody : ∀ i s, I s → I (body i s).1) (n start : Nat) {s : σ} (hs : I s) :
    I (forReturn body n start s).1 := by
  induction n generalizing start s with
  | zero => exact hs
  | succ n ih =>
    have hI := hbody start s hs
    rw [forReturn]
    rcases hb : body start s with ⟨s', _ | b⟩
    · rw [hb] at hI
      exact ih (start + 1) hI
    · rw [hb] at hI
      exact hI

-- A loop in two parts: the second is left out when the first returns.
theorem forReturn_add (body : Nat → σ → σ × Option β) (m n start : Nat) (s : σ) :
    forReturn body (m + n) start s =
      match forReturn body m start s with
      | (s', some b) => (s', some b)
      | (s', none) => forReturn body n (start + m) s' := by
  induction m generalizing start s with
  | zero => rw [Nat.zero_add]; rfl
  | succ m ih =>
    rw [show m + 1 + n = (m + n) + 1 by omega, forReturn, forReturn]
    rcases body start s with ⟨s', _ | b⟩
    · simp only [ih, show start + 1 + m = start + (m + 1) by omega]
    · rfl

theorem forReturn_shift (body : Nat → σ → σ × Option β) (n start k : Nat) (s : σ) :
    forReturn (fun j ↦ body (k + j)) n start s = forReturn body n (k + start) s := by
  induction n generalizing start s with
  | zero => rfl
  | succ n ih =>
    rw [forReturn, forReturn]
    simp only [ih, Nat.add_assoc]

/-- A loop over rows of `w` cells each is one loop over the cells. -/
theorem forReturn_nested (body : Nat → σ → σ × Option β) (w n start : Nat) (s : σ) :
    forReturn (fun i ↦ forReturn (fun j ↦ body (w * i + j)) w 0) n start s =
      forReturn body (w * n) (w * start) s := by
  induction n generalizing start s with
  | zero => rfl
  | succ n ih =>
    rw [forReturn, show w * (n + 1) = w + w * n by ring, forReturn_add, forReturn_shift,
      Nat.add_zero]
    rcases forReturn body w (w * start) s with ⟨s', _ | b⟩
    · simp only [ih, show w * (start + 1) = w * start + w by ring]
    · rfl

theorem forReturn_congr {f g : Nat → σ → σ × Option β} {n start : Nat}
    (h : ∀ i s, start ≤ i → i < start + n → f i s = g i s) (s : σ) :
    forReturn f n start s = forReturn g n start s := by
  induction n generalizing start s with
  | zero => rfl
  | succ n ih =>
    rw [forReturn, forReturn, h start s (Nat.le_refl _) (by omega)]
    rcases g start s with ⟨s', _ | b⟩
    · exact ih (fun i s h1 h2 ↦ h i s (by omega) (by omega)) s'
    · rfl

/-- A loop seen through `f` is the loop with the body seen through `f`. -/
theorem forReturn_proj {τ : Type} {body : Nat → σ → σ × Option β} {g : Nat → τ → τ × Option β}
    (f : σ → τ) {I : σ → Prop} {n start : Nat} {s : σ} (hs : I s)
    (hbody : ∀ i s, start ≤ i → i < start + n → I s →
      I (body i s).1 ∧ (f (body i s).1, (body i s).2) = g i (f s)) :
    I (forReturn body n start s).1 ∧
      (f (forReturn body n start s).1, (forReturn body n start s).2) =
        forReturn g n start (f s) := by
  induction n generalizing start s with
  | zero => exact ⟨hs, rfl⟩
  | succ n ih =>
    obtain ⟨hI, hg⟩ := hbody start s (Nat.le_refl _) (by omega) hs
    rw [forReturn, forReturn, ← hg]
    rcases hb : body start s with ⟨s', _ | b⟩
    · rw [hb] at hI
      exact ih hI fun i s h1 h2 ↦ hbody i s (by omega) (by omega)
    · rw [hb] at hI
      exact ⟨hI, rfl⟩

/-! ## Loops that only change the state -/

def forLoop (body : Nat → σ → σ) : (n start : Nat) → σ → σ
  | 0, _, s => s
  | n + 1, start, s => forLoop body n (start + 1) (body start s)

theorem forLoop_succ_last (body : Nat → σ → σ) (n start : Nat) (s : σ) :
    forLoop body (n + 1) start s = body (start + n) (forLoop body n start s) := by
  induction n generalizing start s with
  | zero => rfl
  | succ n ih =>
    rw [forLoop, ih, forLoop, show start + 1 + n = start + (n + 1) by omega]

/-- Invariant rule: `I i` holds before the turn with counter `i`. -/
theorem forLoop_inv {body : Nat → σ → σ} (I : Nat → σ → Prop) {n start : Nat} {s : σ}
    (hs : I start s)
    (hbody : ∀ i s, start ≤ i → i < start + n → I i s → I (i + 1) (body i s)) :
    I (start + n) (forLoop body n start s) := by
  induction n with
  | zero => exact hs
  | succ n ih =>
    rw [forLoop_succ_last]
    exact hbody (start + n) _ (by omega) (by omega) (ih fun i s h1 h2 ↦ hbody i s h1 (by omega))

/-! ## Loops that may abort -/

def forAbort (body : Nat → σ → Option σ) : (n start : Nat) → σ → Option σ
  | 0, _, s => some s
  | n + 1, start, s => (body start s).bind (forAbort body n (start + 1))

/-- Invariant rule for a loop that never aborts: `I i` holds before the turn with counter `i`, and
the turn goes through and gives `I (i + 1)`. -/
theorem forAbort_inv {body : Nat → σ → Option σ} (I : Nat → σ → Prop) {n start : Nat} {s : σ}
    (hs : I start s)
    (hbody : ∀ i s, start ≤ i → i < start + n → I i s → ∃ s', body i s = some s' ∧ I (i + 1) s') :
    ∃ s', forAbort body n start s = some s' ∧ I (start + n) s' := by
  induction n generalizing start s with
  | zero => exact ⟨s, rfl, hs⟩
  | succ n ih =>
    obtain ⟨s', hb, hs'⟩ := hbody start s (Nat.le_refl _) (by omega) hs
    obtain ⟨t, ht, hI⟩ := ih hs' fun i s h1 h2 ↦ hbody i s (by omega) (by omega)
    refine ⟨t, by rw [forAbort, hb]; exact ht, ?_⟩
    rwa [show start + (n + 1) = start + 1 + n by omega]

/-- Invariant rule for a loop that may abort. -/
theorem forAbort_keeps {body : Nat → σ → Option σ} (I : σ → Prop)
    (hbody : ∀ i s s', I s → body i s = some s' → I s') (n start : Nat) {s s' : σ} (hs : I s)
    (h : forAbort body n start s = some s') : I s' := by
  induction n generalizing start s with
  | zero =>
    cases h
    exact hs
  | succ n ih =>
    obtain ⟨t, hb, ht⟩ := Option.bind_eq_some_iff.mp h
    exact ih (start + 1) (hbody start s t hs hb) ht

end TenOs.Base
