import Mathlib.Algebra.Quaternion
import Mathlib.Analysis.SpecialFunctions.Trigonometric.Basic
import Mathlib.LinearAlgebra.Matrix.Notation
import Mathlib.Tactic.FinCases
import Mathlib.Tactic.LinearCombination
import Mathlib.Tactic.Linarith
import Mathlib.Tactic.NoncommRing

/-! Rotations of space. A quaternion acts on vectors by a matrix whose entries are quadratic in its
components, and a product of quaternions acts like the matrices one after the other. A quaternion of
length one is determined by its action up to the sign. -/

namespace CommonLib.Rotation

open scoped Quaternion

/-- A quaternion, as what acts on space. -/
abbrev Versor (R : Type*) [CommRing R] := ℍ[R]

section Action

variable {R : Type*} [CommRing R]

def action (q : Versor R) : Matrix (Fin 3) (Fin 3) R :=
  !![q.re ^ 2 + q.imI ^ 2 - q.imJ ^ 2 - q.imK ^ 2, 2 • (q.imI * q.imJ - q.re * q.imK),
      2 • (q.imI * q.imK + q.re * q.imJ);
    2 • (q.imI * q.imJ + q.re * q.imK), q.re ^ 2 - q.imI ^ 2 + q.imJ ^ 2 - q.imK ^ 2,
      2 • (q.imJ * q.imK - q.re * q.imI);
    2 • (q.imI * q.imK - q.re * q.imJ), 2 • (q.imJ * q.imK + q.re * q.imI),
      q.re ^ 2 - q.imI ^ 2 - q.imJ ^ 2 + q.imK ^ 2]

/-- A vector as a quaternion. -/
@[simps] def pure (v : Fin 3 → R) : Versor R :=
  ⟨0, v 0, v 1, v 2⟩

/-- The action is conjugation. -/
theorem conj_pure (q : Versor R) (v : Fin 3 → R) :
    q * pure v * star q = pure ((action q).mulVec v) := by
  ext <;> simp [action, dotProduct, Fin.sum_univ_three] <;> ring

theorem action_mul (p q : Versor R) : action (p * q) = action p * action q := by
  ext i j
  fin_cases i <;> fin_cases j <;> simp [action, Matrix.mul_apply, Fin.sum_univ_three] <;> ring

theorem action_star (q : Versor R) : action (star q) = (action q).transpose := by
  ext i j
  fin_cases i <;> fin_cases j <;> simp [action] <;> ring

end Action

/-! ## Turns about the axes

Each is given by half of its angle. -/

noncomputable section

@[simps] def turnX (half : ℝ) : Versor ℝ := ⟨Real.cos half, Real.sin half, 0, 0⟩

@[simps] def turnY (half : ℝ) : Versor ℝ := ⟨Real.cos half, 0, Real.sin half, 0⟩

@[simps] def turnZ (half : ℝ) : Versor ℝ := ⟨Real.cos half, 0, 0, Real.sin half⟩

theorem normSq_turnX (half : ℝ) : Quaternion.normSq (turnX half) = 1 := by
  rw [Quaternion.normSq_def']
  simp [turnX]

theorem normSq_turnZ (half : ℝ) : Quaternion.normSq (turnZ half) = 1 := by
  rw [Quaternion.normSq_def']
  simp [turnZ]

theorem cos_sq_sub_sin_sq_half (θ : ℝ) :
    Real.cos (θ / 2) ^ 2 - Real.sin (θ / 2) ^ 2 = Real.cos θ := by
  rw [← Real.cos_two_mul', mul_div_cancel₀ θ two_ne_zero]

theorem two_mul_cos_mul_sin_half (θ : ℝ) :
    2 * (Real.cos (θ / 2) * Real.sin (θ / 2)) = Real.sin θ := by
  rw [← mul_assoc, mul_right_comm, ← Real.sin_two_mul, mul_div_cancel₀ θ two_ne_zero]

theorem action_turnX (θ : ℝ) : action (turnX (θ / 2)) =
    !![1, 0, 0; 0, Real.cos θ, -Real.sin θ; 0, Real.sin θ, Real.cos θ] := by
  rw [← cos_sq_sub_sin_sq_half θ, ← two_mul_cos_mul_sin_half θ]
  ext i j
  fin_cases i <;> fin_cases j <;> simp [action, turnX]

theorem action_turnY (θ : ℝ) : action (turnY (θ / 2)) =
    !![Real.cos θ, 0, Real.sin θ; 0, 1, 0; -Real.sin θ, 0, Real.cos θ] := by
  rw [← cos_sq_sub_sin_sq_half θ, ← two_mul_cos_mul_sin_half θ]
  ext i j
  fin_cases i <;> fin_cases j <;> simp [action, turnY]

theorem action_turnZ (θ : ℝ) : action (turnZ (θ / 2)) =
    !![Real.cos θ, -Real.sin θ, 0; Real.sin θ, Real.cos θ, 0; 0, 0, 1] := by
  rw [← cos_sq_sub_sin_sq_half θ, ← two_mul_cos_mul_sin_half θ]
  ext i j
  fin_cases i <;> fin_cases j <;> simp [action, turnZ]

/-- First about the x-axis, then about the y-axis, then about the z-axis. -/
def turns (roll pitch yaw : ℝ) : Versor ℝ :=
  turnZ yaw * turnY pitch * turnX roll

theorem action_turns (roll pitch yaw : ℝ) : action (turns roll pitch yaw) =
    action (turnZ yaw) * action (turnY pitch) * action (turnX roll) := by
  rw [turns, action_mul, action_mul]

/-! ## What the action tells -/

/-- Where the axes go that roll and yaw leave alone: the first column and the third row. -/
structure Shows (A : Matrix (Fin 3) (Fin 3) ℝ) (roll pitch yaw : ℝ) : Prop where
  x : A 0 0 = Real.cos pitch * Real.cos yaw
  y : A 1 0 = Real.cos pitch * Real.sin yaw
  corner : A 2 0 = -Real.sin pitch
  rollSin : A 2 1 = Real.cos pitch * Real.sin roll
  rollCos : A 2 2 = Real.cos pitch * Real.cos roll

theorem shows_turns (roll pitch yaw : ℝ) :
    Shows (action (turns (roll / 2) (pitch / 2) (yaw / 2))) roll pitch yaw := by
  rw [action_turns, action_turnX, action_turnY, action_turnZ]
  constructor <;> simp [Matrix.mul_apply, Fin.sum_univ_three] <;> ring

/-- Turning back about the z-axis and, in front, about the x-axis takes yaw and roll away. -/
theorem Shows.level {q : Versor ℝ} {roll pitch yaw : ℝ} (h : Shows (action q) roll pitch yaw) :
    Shows (action (star (turnZ (yaw / 2)) * q * star (turnX (roll / 2)))) 0 pitch 0 := by
  have hyaw := Real.sin_sq_add_cos_sq yaw
  have hroll := Real.sin_sq_add_cos_sq roll
  rw [action_mul, action_mul, action_star, action_star, action_turnX, action_turnZ]
  constructor
  · simp [Matrix.mul_apply, Fin.sum_univ_three, h.x, h.y]
    linear_combination Real.cos pitch * hyaw
  · simp [Matrix.mul_apply, Fin.sum_univ_three, h.x, h.y]
    ring
  · simp [Matrix.mul_apply, Fin.sum_univ_three, h.corner]
  · simp [Matrix.mul_apply, Fin.sum_univ_three, h.rollSin, h.rollCos]
    ring
  · simp [Matrix.mul_apply, Fin.sum_univ_three, h.rollSin, h.rollCos]
    linear_combination Real.cos pitch * hroll

theorem turnX_zero : turnX 0 = 1 := by
  ext <;> simp [turnX]

theorem turnZ_zero : turnZ 0 = 1 := by
  ext <;> simp [turnZ]

theorem turns_pitch (pitch : ℝ) : turns 0 pitch 0 = turnY pitch := by
  rw [turns, turnX_zero, turnZ_zero, one_mul, mul_one]

/-- Two quaternions of length one about the y-axis with the same action. -/
theorem eq_turnY_or_neg {u : Versor ℝ} {pitch : ℝ} (hu : Quaternion.normSq u = 1)
    (hI : u.imI = 0) (hK : u.imK = 0) (hcos : u.re ^ 2 - u.imJ ^ 2 = Real.cos pitch)
    (hsin : 2 * (u.re * u.imJ) = Real.sin pitch) (hpos : 0 ≤ Real.cos pitch) :
    u = turnY (pitch / 2) ∨ u = -turnY (pitch / 2) := by
  rw [Quaternion.normSq_def', hI, hK] at hu
  have hhalf := cos_sq_sub_sin_sq_half pitch
  have hdouble := two_mul_cos_mul_sin_half pitch
  have hone := Real.sin_sq_add_cos_sq (pitch / 2)
  have hc : Real.cos (pitch / 2) ≠ 0 := by
    intro hzero
    rw [hzero] at hhalf hone
    nlinarith
  have hre : (u.re - Real.cos (pitch / 2)) * (u.re + Real.cos (pitch / 2)) = 0 := by
    linear_combination (hu + hcos - hone - hhalf) / 2
  rcases mul_eq_zero.mp hre with hsame | hopposite
  · left
    have heq : u.re = Real.cos (pitch / 2) := sub_eq_zero.mp hsame
    rw [heq] at hsin
    have hJ : u.imJ = Real.sin (pitch / 2) := mul_left_cancel₀ hc (by linarith)
    ext
    · exact heq
    · exact hI
    · exact hJ
    · exact hK
  · right
    have heq : u.re = -Real.cos (pitch / 2) := eq_neg_of_add_eq_zero_left hopposite
    rw [heq] at hsin
    have hJ : u.imJ = -Real.sin (pitch / 2) := mul_left_cancel₀ hc (by linarith)
    ext
    · exact heq
    · exact hI.trans neg_zero.symm
    · exact hJ
    · exact hK.trans neg_zero.symm

/-- Where neither roll nor yaw shows, the quaternion is one about the y-axis. -/
theorem Shows.eq_turnY_or_neg {u : Versor ℝ} {pitch : ℝ} (h : Shows (action u) 0 pitch 0)
    (hu : Quaternion.normSq u = 1) (hpos : 0 < Real.cos pitch) :
    u = turnY (pitch / 2) ∨ u = -turnY (pitch / 2) := by
  have hx : u.re ^ 2 + u.imI ^ 2 - u.imJ ^ 2 - u.imK ^ 2 = Real.cos pitch := by
    simpa [action] using h.x
  have hy : 2 * (u.imI * u.imJ + u.re * u.imK) = 0 := by
    rw [two_mul, ← two_nsmul]
    exact h.y.trans (by simp)
  have hcorner : 2 * (u.imI * u.imK - u.re * u.imJ) = -Real.sin pitch := by
    rw [two_mul, ← two_nsmul]
    exact h.corner
  have hcos : u.re ^ 2 - u.imI ^ 2 - u.imJ ^ 2 + u.imK ^ 2 = Real.cos pitch := by
    simpa [action] using h.rollCos
  have hsquares : (u.imI - u.imK) * (u.imI + u.imK) = 0 := by linear_combination (hx - hcos) / 2
  -- Were the components about x and z not zero, the pitch would be a quarter turn.
  have hI : u.imI = 0 := by
    by_contra hne
    rcases mul_eq_zero.mp hsquares with hsame | hopposite
    · have hK : u.imK = u.imI := (sub_eq_zero.mp hsame).symm
      rw [hK] at hy hx
      have hJ : u.imJ = -u.re := mul_left_cancel₀ hne (by linarith)
      rw [hJ] at hx
      linarith
    · have hK : u.imK = -u.imI := eq_neg_of_add_eq_zero_right hopposite
      rw [hK] at hy hx
      have hJ : u.imJ = u.re := mul_left_cancel₀ hne (by linarith)
      rw [hJ] at hx
      linarith
  have hK : u.imK = 0 := by
    rw [hI] at hsquares
    simpa using hsquares
  rw [hI, hK] at hx hcorner
  refine Rotation.eq_turnY_or_neg hu hI hK ?_ ?_ hpos.le
  · linarith
  · linarith

/-- A quaternion of length one whose action shows the three angles is that of the three turns, or
its negative. -/
theorem Shows.eq_turns_or_neg {q : Versor ℝ} {roll pitch yaw : ℝ}
    (h : Shows (action q) roll pitch yaw) (hq : Quaternion.normSq q = 1)
    (hpos : 0 < Real.cos pitch) :
    q = turns (roll / 2) (pitch / 2) (yaw / 2) ∨ q = -turns (roll / 2) (pitch / 2) (yaw / 2) := by
  have hback : turnZ (yaw / 2) * (star (turnZ (yaw / 2)) * q * star (turnX (roll / 2))) *
      turnX (roll / 2) = q := by
    calc turnZ (yaw / 2) * (star (turnZ (yaw / 2)) * q * star (turnX (roll / 2))) * turnX (roll / 2)
        = (turnZ (yaw / 2) * star (turnZ (yaw / 2))) * q *
            (star (turnX (roll / 2)) * turnX (roll / 2)) := by noncomm_ring
      _ = q := by
          rw [Quaternion.self_mul_star, Quaternion.star_mul_self, normSq_turnX, normSq_turnZ]
          simp
  have hunit :
      Quaternion.normSq (star (turnZ (yaw / 2)) * q * star (turnX (roll / 2))) = 1 := by
    rw [map_mul, map_mul, Quaternion.normSq_star, Quaternion.normSq_star, normSq_turnX,
      normSq_turnZ, hq, mul_one, mul_one]
  rcases h.level.eq_turnY_or_neg hunit hpos with hturn | hturn
  · left
    rw [← hback, hturn, turns]
  · right
    rw [← hback, hturn, turns, mul_neg, neg_mul]

end

end CommonLib.Rotation
