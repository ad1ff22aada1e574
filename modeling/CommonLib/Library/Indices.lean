import Mathlib.Algebra.BigOperators.Fin

/-! Sums that a loop collects index by index, and counting with one index left out. -/

namespace CommonLib

/-! ### Sums up to an index -/

/-- The sum of the first `i` entries of `f`. -/
def sumBelow {M : Type*} [AddCommMonoid M] {n : ℕ} (f : Fin n → M) (i : ℕ) : M :=
  ∑ k ∈ Finset.range i, if h : k < n then f ⟨k, h⟩ else 0

section Sums

variable {M : Type*} [AddCommMonoid M] {n : ℕ} (f : Fin n → M)

theorem sumBelow_zero : sumBelow f 0 = 0 :=
  Finset.sum_range_zero _

theorem sumBelow_succ {i : ℕ} (h : i < n) : sumBelow f (i + 1) = sumBelow f i + f ⟨i, h⟩ := by
  rw [sumBelow, Finset.sum_range_succ, dif_pos h]
  rfl

theorem sumBelow_all : sumBelow f n = ∑ k, f k := by
  rw [sumBelow, Finset.sum_range]
  apply Finset.sum_congr rfl
  intro k _
  exact dif_pos k.isLt

end Sums

/-! ### Leaving out an index -/

/-- The index with the number `i` among those other than `p`. -/
def skip (p i : ℕ) : ℕ :=
  if i < p then i else i + 1

/-- How many indices below `i` are other than `p`. -/
def rank (p i : ℕ) : ℕ :=
  if i ≤ p then i else i - 1

theorem rank_zero (p : ℕ) : rank p 0 = 0 := by
  simp [rank]

theorem rank_succ_self (p : ℕ) : rank p (p + 1) = rank p p := by
  simp [rank]

theorem rank_succ_of_ne {p i : ℕ} (h : i ≠ p) : rank p (i + 1) = rank p i + 1 := by
  unfold rank
  split_ifs <;> omega

theorem rank_lt {p i n : ℕ} (hp : p < n) (hi : i < n) (h : i ≠ p) : rank p i < n - 1 := by
  unfold rank
  split_ifs <;> omega

theorem rank_of_lt {p n : ℕ} (hp : p < n) : rank p n = n - 1 := by
  unfold rank
  split_ifs <;> omega

theorem skip_rank {p i : ℕ} (h : i ≠ p) : skip p (rank p i) = i := by
  unfold skip rank
  split_ifs <;> omega

theorem val_succAbove {n : ℕ} (p : Fin (n + 1)) (i : Fin n) :
    (p.succAbove i).val = skip p.val i.val := by
  unfold skip
  split_ifs with h
  · rw [Fin.succAbove_of_castSucc_lt p i h]
    rfl
  · rw [Fin.succAbove_of_le_castSucc p i (Nat.le_of_not_lt h)]
    rfl

end CommonLib
