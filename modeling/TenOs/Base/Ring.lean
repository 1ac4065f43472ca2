import Mathlib.Data.List.Basic
import Mathlib.Logic.Function.Basic

/-!
# Ring buffers

A ring of `n` cells with a read position and a write position.  It is empty when the positions are
equal, so it holds at most `n - 1` items.
-/

namespace TenOs.Base

variable {α : Type} {buf : Nat → α} {n r w : Nat}

/-- How many items lie between the positions. -/
def ringLength (n r w : Nat) : Nat := (w + n - r) % n

/-- The items from the read position on. -/
def ring (buf : Nat → α) (n r w : Nat) : List α :=
  (List.range (ringLength n r w)).map fun i ↦ buf ((r + i) % n)

@[simp] theorem ring_length : (ring buf n r w).length = ringLength n r w := by simp [ring]

/-! ## Positions -/

theorem ringLength_eq (hr : r < n) (hw : w < n) :
    ringLength n r w = if r ≤ w then w - r else w + n - r := by
  unfold ringLength
  split
  · rw [show w + n - r = w - r + n by omega, Nat.add_mod_right, Nat.mod_eq_of_lt (by omega)]
  · exact Nat.mod_eq_of_lt (by omega)

theorem wrap_eq {i : Nat} (hr : r < n) (hi : i ≤ n) :
    (r + i) % n = if r + i < n then r + i else r + i - n := by
  split
  · exact Nat.mod_eq_of_lt (by omega)
  · rw [Nat.mod_eq_sub_mod (by omega), Nat.mod_eq_of_lt (by omega)]

theorem ringLength_lt (hr : r < n) : ringLength n r w < n := Nat.mod_lt _ (by omega)

theorem ringLength_eq_zero_iff (hr : r < n) (hw : w < n) : ringLength n r w = 0 ↔ r = w := by
  rw [ringLength_eq hr hw]
  split <;> omega

theorem add_ringLength (hr : r < n) (hw : w < n) : (r + ringLength n r w) % n = w := by
  rw [wrap_eq hr (Nat.le_of_lt (ringLength_lt hr)), ringLength_eq hr hw]
  split <;> split <;> omega

theorem ringLength_add {i : Nat} (hr : r < n) (hi : i < n) : ringLength n r ((r + i) % n) = i := by
  have hlt : (r + i) % n < n := Nat.mod_lt _ (by omega)
  rw [ringLength_eq hr hlt, wrap_eq hr (Nat.le_of_lt hi)]
  split <;> split <;> omega

theorem ringLength_push (hr : r < n) (hw : w < n) (hroom : ringLength n r w + 1 < n) :
    ringLength n r ((w + 1) % n) = ringLength n r w + 1 := by
  have hnext : (w + 1) % n < n := Nat.mod_lt _ (by omega)
  rw [ringLength_eq hr hw] at hroom ⊢
  rw [ringLength_eq hr hnext, wrap_eq hw (by omega)]
  split at hroom <;> split <;> split <;> omega

theorem ringLength_pop (hr : r < n) (hw : w < n) (hne : r ≠ w) :
    ringLength n r w = ringLength n ((r + 1) % n) w + 1 := by
  have hnext : (r + 1) % n < n := Nat.mod_lt _ (by omega)
  rw [ringLength_eq hr hw, ringLength_eq hnext hw, wrap_eq hr (by omega)]
  split <;> split <;> split <;> omega

-- Up to the write position, positions differ as the numbers of items do.
theorem add_eq_write_iff {i : Nat} (hr : r < n) (hw : w < n) (hi : i ≤ ringLength n r w) :
    (r + i) % n = w ↔ i = ringLength n r w := by
  have hlt : ringLength n r w < n := ringLength_lt hr
  rw [wrap_eq hr (by omega)]
  rw [ringLength_eq hr hw] at hi hlt ⊢
  split at hi <;> split <;> omega

/-! ## Items -/

theorem ring_eq_nil_iff (hr : r < n) (hw : w < n) : ring buf n r w = [] ↔ r = w := by
  rw [← List.length_eq_zero_iff, ring_length, ringLength_eq_zero_iff hr hw]

theorem getElem_ring {i : Nat} (hi : i < (ring buf n r w).length) :
    (ring buf n r w)[i] = buf ((r + i) % n) := by
  simp only [ring, List.getElem_map, List.getElem_range]

/-- Writing one item and moving the write position. -/
theorem ring_push (hr : r < n) (hw : w < n) (hroom : ringLength n r w + 1 < n) (c : α) :
    ring (Function.update buf w c) n r ((w + 1) % n) = ring buf n r w ++ [c] := by
  have hlast := add_ringLength hr hw
  unfold ring
  rw [ringLength_push hr hw hroom, List.range_succ, List.map_append, List.map_singleton, hlast,
    Function.update_self]
  congr 1
  apply List.map_congr_left
  intro i hi
  have hlt := List.mem_range.mp hi
  -- the cell that is written lies behind the items
  have hne : (r + i) % n ≠ w := by
    rw [ringLength_eq hr hw] at hlt
    rw [wrap_eq hr (by split at hlt <;> omega)]
    split at hlt <;> split <;> omega
  exact Function.update_of_ne hne c buf

/-- Reading one item and moving the read position. -/
theorem ring_pop (hr : r < n) (hw : w < n) (hne : r ≠ w) :
    ring buf n r w = buf r :: ring buf n ((r + 1) % n) w := by
  unfold ring
  rw [ringLength_pop hr hw hne, List.range_succ_eq_map, List.map_cons, Nat.add_zero,
    Nat.mod_eq_of_lt hr, List.map_map]
  congr 1
  apply List.map_congr_left
  intro i _
  rw [Function.comp_apply, Nat.succ_eq_add_one, Nat.mod_add_mod, Nat.add_assoc, Nat.add_comm 1 i]

end TenOs.Base
