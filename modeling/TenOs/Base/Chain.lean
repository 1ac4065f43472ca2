import Mathlib.Data.List.Nodup
import Mathlib.Data.List.Lattice

/-!
# Linked chains

A chain is what one walks through from a cell by a `next` function until a cell that stops it:
the cells of a linked list, the blocks of a file, the slots of a free list.
-/

namespace TenOs.Base

variable {α : Type} {next next' : α → α} {stop : α → Prop} {a : α} {cs ds : List α}

/-- Following `next` from `a` visits exactly the listed cells and then stops. -/
def ChainFrom (next : α → α) (stop : α → Prop) : α → List α → Prop
  | a, [] => stop a
  | a, c :: cs => c = a ∧ ¬ stop a ∧ ChainFrom next stop (next a) cs

theorem ChainFrom.nil_iff : ChainFrom next stop a [] ↔ stop a := Iff.rfl

theorem ChainFrom.of_stop (h : ChainFrom next stop a cs) (ha : stop a) : cs = [] := by
  cases cs with
  | nil => rfl
  | cons c cs => exact absurd ha h.2.1

/-- A chain is determined by its first cell. -/
theorem ChainFrom.unique (h : ChainFrom next stop a cs) (h' : ChainFrom next stop a ds) :
    cs = ds := by
  induction cs generalizing a ds with
  | nil => exact (h'.of_stop h).symm
  | cons c cs ih =>
    cases ds with
    | nil => exact absurd h' h.2.1
    | cons d ds => rw [h.1, h'.1, ih h.2.2 h'.2.2]

theorem ChainFrom.not_stop_of_mem (h : ChainFrom next stop a cs) {c : α} (hc : c ∈ cs) :
    ¬ stop c := by
  induction cs generalizing a with
  | nil => cases hc
  | cons d cs ih =>
    rcases List.mem_cons.mp hc with rfl | hc
    · rw [h.1]; exact h.2.1
    · exact ih h.2.2 hc

/-- From any of its cells on, a chain is the rest of the list. -/
theorem ChainFrom.suffix_of_mem (h : ChainFrom next stop a cs) {c : α} (hc : c ∈ cs) :
    ∃ pre rest, cs = pre ++ c :: rest ∧ ChainFrom next stop c (c :: rest) := by
  induction cs generalizing a with
  | nil => cases hc
  | cons d cs ih =>
    rcases List.mem_cons.mp hc with rfl | hc
    · refine ⟨[], cs, rfl, rfl, ?_, ?_⟩ <;> rw [h.1]
      · exact h.2.1
      · exact h.2.2
    · obtain ⟨pre, rest, rfl, hrest⟩ := ih h.2.2 hc
      exact ⟨d :: pre, rest, rfl, hrest⟩

/-- A chain that stops never comes back to a cell: otherwise it would be its own proper part. -/
theorem ChainFrom.nodup (h : ChainFrom next stop a cs) : cs.Nodup := by
  induction cs generalizing a with
  | nil => exact List.nodup_nil
  | cons c cs ih =>
    refine List.nodup_cons.mpr ⟨fun hc ↦ ?_, ih h.2.2⟩
    obtain ⟨pre, rest, hcs, hrest⟩ := h.2.2.suffix_of_mem hc
    have hself : ChainFrom next stop c (c :: cs) := by rw [← h.1] at h; exact h
    have hlen := congrArg List.length (hself.unique hrest)
    rw [hcs] at hlen
    simp only [List.length_cons, List.length_append] at hlen
    omega

/-- A chain only depends on the cells it visits. -/
theorem ChainFrom.congr (h : ChainFrom next stop a cs) (heq : ∀ c ∈ cs, next' c = next c) :
    ChainFrom next' stop a cs := by
  induction cs generalizing a with
  | nil => exact h
  | cons c cs ih =>
    have hc := heq c List.mem_cons_self
    rw [h.1] at hc
    refine ⟨h.1, h.2.1, ?_⟩
    rw [hc]
    exact ih h.2.2 fun d hd ↦ heq d (List.mem_cons_of_mem c hd)

theorem ChainFrom.singleton_iff : ChainFrom next stop a [a] ↔ ¬ stop a ∧ stop (next a) :=
  ⟨fun h ↦ h.2, fun h ↦ ⟨rfl, h⟩⟩

theorem ChainFrom.next_eq {c : α} (h : ChainFrom next stop a (c :: cs)) :
    a = c ∧ ChainFrom next stop (next c) cs := by
  refine ⟨h.1.symm, ?_⟩
  rw [h.1]
  exact h.2.2

end TenOs.Base
