import CommonLib.Model.Misc
import CommonLib.Verification.LockFreeWorkQueue.Ring
import Mathlib.Order.Bounds.Basic

/-! # Rounding up to a power of two

Below the leading bit of `n - 1` the two copies set every bit, one with five shifts for 32 bits and
one with six for 64. -/

namespace CommonLib.Utils

open LockFreeWorkQueue (nextPowerOf2 nextPowerOf2_of_two_le)

theorem nextPwrOf2_of_two_le {n : ℕ} (hn : 2 ≤ n) (hlt : n - 1 < 2 ^ 32) :
    nextPwrOf2 n = 2 ^ ((n - 1).log2 + 1) % 2 ^ 32 := by
  have hsmear : nextPwrOf2 n = (smear (n - 1) 5 + 1) % 2 ^ 32 := by
    rw [nextPwrOf2, if_neg (by omega)]
    rfl
  rw [hsmear, smear_add_one hn hlt]

/-- Up to the largest power of two of the type, the sum behind the shifts does not wrap. -/
theorem isLeast_of_mod {round : ℕ → ℕ} {w : ℕ} (hone : ∀ n ≤ 1, round n = 1)
    (htwo : ∀ n, 2 ≤ n → n ≤ 2 ^ w → round n = 2 ^ ((n - 1).log2 + 1) % 2 ^ (w + 1)) {n : ℕ}
    (hn : n ≤ 2 ^ w) : IsLeast (powersFrom (max n 1)) (round n) := by
  by_cases hle : n ≤ 1
  · rw [Nat.max_eq_right hle, hone n hle]
    exact isLeast_powersFrom_one
  · have hlt : 2 ≤ n := Nat.lt_of_not_le hle
    have hlog : (n - 1).log2 < w := (Nat.log2_lt (by omega)).mpr (by omega)
    have hfits : 2 ^ ((n - 1).log2 + 1) < 2 ^ (w + 1) :=
      Nat.pow_lt_pow_right Nat.one_lt_two (by omega)
    rw [Nat.max_eq_left (by omega), htwo n hlt hn, Nat.mod_eq_of_lt hfits]
    exact isLeast_powersFrom hlt

theorem isLeast_nextPwrOf2 {n : ℕ} (hn : n ≤ 2 ^ 31) :
    IsLeast (powersFrom (max n 1)) (nextPwrOf2 n) :=
  isLeast_of_mod (fun _ hle => if_pos hle) (fun _ hlt hn => nextPwrOf2_of_two_le hlt (by omega)) hn

theorem isLeast_nextPowerOf2 {n : ℕ} (hn : n ≤ 2 ^ 63) :
    IsLeast (powersFrom (max n 1)) (nextPowerOf2 n) :=
  isLeast_of_mod (fun _ hle => if_pos hle) (fun _ hlt hn => nextPowerOf2_of_two_le hlt (by omega))
    hn

/-- As long as the power fits into the type, each copy gives the least power of two from its
argument on, so that the copies agree where both are defined. -/
theorem next_power_least :
    (∀ n ≤ 2 ^ 31, IsLeast (powersFrom (max n 1)) (nextPwrOf2 n)) ∧
    (∀ n ≤ 2 ^ 63, IsLeast (powersFrom (max n 1)) (nextPowerOf2 n)) ∧
    ∀ n ≤ 2 ^ 31, nextPwrOf2 n = nextPowerOf2 n := by
  refine ⟨fun n hn => isLeast_nextPwrOf2 hn, fun n hn => isLeast_nextPowerOf2 hn, fun n hn => ?_⟩
  have hwide : n ≤ 2 ^ 63 := hn.trans (Nat.pow_le_pow_right Nat.two_pos (by omega))
  exact (isLeast_nextPwrOf2 hn).unique (isLeast_nextPowerOf2 hwide)

theorem next_power_least_thousand :
    nextPwrOf2 1000 = 1024 ∧ nextPwrOf2 1000 = nextPowerOf2 1000 :=
  ⟨by decide, next_power_least.2.2 1000 (by decide)⟩

end CommonLib.Utils
