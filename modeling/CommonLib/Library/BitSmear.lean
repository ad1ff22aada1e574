import Mathlib.Data.Nat.Bitwise
import Mathlib.Order.Bounds.Defs

/-! Smearing the highest bit of a number over all the bits below it. -/

namespace CommonLib

/-- Or the number with itself shifted right by 1, 2, 4, …, `2 ^ (k - 1)`. -/
def smear (n : ℕ) : ℕ → ℕ
  | 0 => n
  | k + 1 => smear n k ||| smear n k >>> 2 ^ k

/-- A bit is set when one of the `2 ^ k` bits from there on was. -/
theorem testBit_smear (n k i : ℕ) :
    (smear n k).testBit i = true ↔ ∃ j < 2 ^ k, n.testBit (i + j) = true := by
  induction k generalizing i with
  | zero => simp [smear]
  | succ k ih =>
      rw [smear, Nat.testBit_or, Nat.testBit_shiftRight, Bool.or_eq_true, ih, ih]
      constructor
      · rintro (⟨j, hj, hbit⟩ | ⟨j, hj, hbit⟩)
        · exact ⟨j, by omega, hbit⟩
        · exact ⟨2 ^ k + j, by omega, by rwa [← Nat.add_assoc, Nat.add_comm i]⟩
      · rintro ⟨j, hj, hbit⟩
        by_cases hlow : j < 2 ^ k
        · exact .inl ⟨j, hlow, hbit⟩
        · refine .inr ⟨j - 2 ^ k, by omega, ?_⟩
          have hsum : 2 ^ k + i + (j - 2 ^ k) = i + j := by omega
          rwa [hsum]

/-- With enough doublings, every bit up to the highest one is set. -/
theorem smear_eq {n k : ℕ} (hn : n ≠ 0) (hk : n.log2 < 2 ^ k) :
    smear n k = 2 ^ (n.log2 + 1) - 1 := by
  refine Nat.eq_of_testBit_eq fun i => ?_
  rw [Nat.testBit_two_pow_sub_one, Bool.eq_iff_iff, testBit_smear, decide_eq_true_iff]
  constructor
  · rintro ⟨j, -, hbit⟩
    by_contra hi
    have hlt : n < 2 ^ (i + j) :=
      Nat.lt_of_lt_of_le Nat.lt_log2_self (Nat.pow_le_pow_right Nat.two_pos (by omega))
    rw [Nat.testBit_lt_two_pow hlt] at hbit
    cases hbit
  · intro hi
    refine ⟨n.log2 - i, by omega, ?_⟩
    have hsum : i + (n.log2 - i) = n.log2 := by omega
    rw [hsum]
    exact Nat.testBit_log2 hn

/-- Smearing and adding one rounds up to a power of two. -/
theorem smear_add_one {n k : ℕ} (hn : 2 ≤ n) (hlt : n - 1 < 2 ^ 2 ^ k) :
    smear (n - 1) k + 1 = 2 ^ ((n - 1).log2 + 1) := by
  have hne : n - 1 ≠ 0 := by omega
  rw [smear_eq hne ((Nat.log2_lt hne).mpr hlt), Nat.sub_add_cancel Nat.one_le_two_pow]

/-- The powers of two from `n` on. -/
def powersFrom (n : ℕ) : Set ℕ :=
  {m | (∃ k, m = 2 ^ k) ∧ n ≤ m}

theorem isLeast_powersFrom_one : IsLeast (powersFrom 1) 1 :=
  ⟨⟨⟨0, rfl⟩, Nat.le_refl 1⟩, fun _ h => h.2⟩

/-- The least power of two from `n` on has one bit more than `n - 1`. -/
theorem isLeast_powersFrom {n : ℕ} (hn : 2 ≤ n) :
    IsLeast (powersFrom n) (2 ^ ((n - 1).log2 + 1)) := by
  constructor
  · have hlt : n - 1 < 2 ^ ((n - 1).log2 + 1) := Nat.lt_log2_self
    exact ⟨⟨_, rfl⟩, by omega⟩
  · rintro _ ⟨⟨k, rfl⟩, hk⟩
    have hlog : (n - 1).log2 < k := (Nat.log2_lt (by omega)).mpr (by omega)
    exact Nat.pow_le_pow_right Nat.two_pos hlog

end CommonLib
