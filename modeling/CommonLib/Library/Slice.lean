import Mathlib.Data.List.Range
import Mathlib.Tactic.Common

/-! The values of a function between two free-running indices, and the places that such indices
have in a ring. -/

namespace CommonLib

variable {α : Type*} {f g : ℕ → α} {lo hi : ℕ}

/-- `f lo`, …, `f (hi - 1)` -/
def slice (f : ℕ → α) (lo hi : ℕ) : List α :=
  (List.range' lo (hi - lo)).map f

@[simp] theorem length_slice : (slice f lo hi).length = hi - lo := by
  simp [slice]

@[simp] theorem slice_self : slice f lo lo = [] := by
  simp [slice]

theorem slice_eq_nil_iff : slice f lo hi = [] ↔ hi ≤ lo := by
  rw [← List.length_eq_zero_iff, length_slice, Nat.sub_eq_zero_iff_le]

/-- The oldest entry. -/
theorem slice_cons (h : lo < hi) : slice f lo hi = f lo :: slice f (lo + 1) hi := by
  obtain ⟨n, rfl⟩ := Nat.exists_eq_add_of_lt h
  have hn : lo + n + 1 - lo = n + 1 := by omega
  have hrest : lo + n + 1 - (lo + 1) = n := by omega
  rw [slice, slice, hn, hrest, List.range'_succ, List.map_cons]

/-- The newest entry. -/
theorem slice_concat (h : lo ≤ hi) : slice f lo (hi + 1) = slice f lo hi ++ [f hi] := by
  obtain ⟨n, rfl⟩ := Nat.exists_eq_add_of_le h
  have hn : lo + n + 1 - lo = n + 1 := by omega
  rw [slice, slice, hn, Nat.add_sub_cancel_left, List.range'_1_concat, List.map_append,
    List.map_singleton]

theorem slice_congr (h : ∀ i, lo ≤ i → i < hi → f i = g i) :
    slice f lo hi = slice g lo hi := by
  refine List.map_congr_left fun i hi => ?_
  obtain ⟨hlo, hlt⟩ := List.mem_range'_1.mp hi
  exact h i hlo (by omega)

/-- Indices that are less than `n` apart have different places in a ring of `n` places. -/
theorem mod_ne_mod {i j n : ℕ} (hij : i < j) (hn : j < i + n) : i % n ≠ j % n := by
  intro h
  have hdvd : n ∣ j - i := Nat.dvd_of_mod_eq_zero (Nat.sub_mod_eq_zero_of_mod_eq h.symm)
  have hle := Nat.le_of_dvd (Nat.sub_pos_of_lt hij) hdvd
  omega

end CommonLib
