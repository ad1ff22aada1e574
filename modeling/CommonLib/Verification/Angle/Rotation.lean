import CommonLib.Library.Rotation
import CommonLib.Verification.Angle.RoundTrip

/-! # Quaternions as rotations

`to_quaternion` turns about the three axes one after the other; `to_euler` reads the three angles
off the action, and together they lose nothing but the sign, except where the pitch is a quarter
turn. -/

namespace CommonLib.Math

open Rotation

/-- What the components stand for. -/
def Quaternion.versor (q : Quaternion ℝ) : Versor ℝ :=
  ⟨q.w, q.x, q.y, q.z⟩

/-- The quaternion of the code is the product of the three turns. -/
theorem versor_toQuaternion (e : Euler ℝ) :
    (e.toQuaternion Cmath.real).versor = turns (e.roll / 2) (e.pitch / 2) (e.yaw / 2) := by
  ext <;> simp [Quaternion.versor, Euler.toQuaternion, Cmath.real, turns] <;> ring

/-- `to_quaternion` gives the rotation about the x-axis by the roll, then about the y-axis by the
pitch, then about the z-axis by the yaw, each positive to the left of its axis. -/
theorem toQuaternion_action (e : Euler ℝ) :
    action (e.toQuaternion Cmath.real).versor =
      !![Real.cos e.yaw, -Real.sin e.yaw, 0; Real.sin e.yaw, Real.cos e.yaw, 0; 0, 0, 1] *
      !![Real.cos e.pitch, 0, Real.sin e.pitch; 0, 1, 0; -Real.sin e.pitch, 0, Real.cos e.pitch] *
      !![1, 0, 0; 0, Real.cos e.roll, -Real.sin e.roll; 0, Real.sin e.roll, Real.cos e.roll] := by
  rw [versor_toQuaternion, action_turns, action_turnX, action_turnY, action_turnZ]

/-! ### What `to_euler` reads off -/

theorem norm_mul_sin_atan2 (y x : ℝ) :
    Real.sqrt (x ^ 2 + y ^ 2) * Real.sin (Cmath.real.atan2 y x) = y := by
  have harg := Complex.norm_mul_sin_arg (⟨x, y⟩ : ℂ)
  rwa [Complex.norm_eq_sqrt_sq_add_sq] at harg

theorem norm_mul_cos_atan2 (y x : ℝ) :
    Real.sqrt (x ^ 2 + y ^ 2) * Real.cos (Cmath.real.atan2 y x) = x := by
  have harg := Complex.norm_mul_cos_arg (⟨x, y⟩ : ℂ)
  rwa [Complex.norm_eq_sqrt_sq_add_sq] at harg

/-- How far the x-axis is lifted: what `to_euler` takes the arc sine of. -/
def Quaternion.tilt {T : Type*} [CommRing T] (q : Quaternion T) : T :=
  2 • (q.x * q.z - q.w * q.y)

theorem tilt_eq (q : Quaternion ℝ) : q.tilt = 2 * (q.x * q.z - q.w * q.y) := by
  rw [two_mul, ← two_nsmul]
  rfl

theorem pitch_eq_tilt (q : Quaternion ℝ) :
    (q.toEuler Cmath.real).pitch = -1 * Real.arcsin q.tilt := by
  rw [tilt_eq]
  rfl

section Unit

variable {q : Quaternion ℝ} (hq : q.w ^ 2 + q.x ^ 2 + q.y ^ 2 + q.z ^ 2 = 1)

include hq

theorem abs_tilt_le : -1 ≤ q.tilt ∧ q.tilt ≤ 1 := by
  have hplus := add_nonneg (sq_nonneg (q.x + q.z)) (sq_nonneg (q.w - q.y))
  have hminus := add_nonneg (sq_nonneg (q.x - q.z)) (sq_nonneg (q.w + q.y))
  rw [tilt_eq]
  constructor <;> linarith

theorem sin_pitch : Real.sin (q.toEuler Cmath.real).pitch = -q.tilt := by
  obtain ⟨hlow, hhigh⟩ := abs_tilt_le hq
  rw [pitch_eq_tilt, neg_one_mul, Real.sin_neg, Real.sin_arcsin hlow hhigh]

omit hq in
theorem cos_pitch : Real.cos (q.toEuler Cmath.real).pitch = Real.sqrt (1 - q.tilt ^ 2) := by
  rw [pitch_eq_tilt, neg_one_mul, Real.cos_neg, Real.cos_arcsin]

theorem cos_sq_roll : 1 - q.tilt ^ 2 =
    (1 - 2 * (q.x * q.x + q.y * q.y)) ^ 2 + (2 * (q.y * q.z + q.w * q.x)) ^ 2 := by
  rw [tilt_eq]
  linear_combination (-4 * (q.x ^ 2 + q.y ^ 2)) * hq

theorem cos_sq_yaw : 1 - q.tilt ^ 2 =
    (1 - 2 * (q.y * q.y + q.z * q.z)) ^ 2 + (2 * (q.x * q.y + q.w * q.z)) ^ 2 := by
  rw [tilt_eq]
  linear_combination (-4 * (q.y ^ 2 + q.z ^ 2)) * hq

/-- `to_euler` reads the angles off the first column and the third row of the action. -/
theorem shows_toEuler : Shows (action q.versor) (q.toEuler Cmath.real).roll
    (q.toEuler Cmath.real).pitch (q.toEuler Cmath.real).yaw := by
  constructor
  · rw [cos_pitch, cos_sq_yaw hq]
    refine Eq.trans ?_ (norm_mul_cos_atan2 _ _).symm
    simp only [action, Quaternion.versor, Matrix.of_apply, Matrix.cons_val]
    linear_combination hq
  · rw [cos_pitch, cos_sq_yaw hq]
    refine Eq.trans ?_ (norm_mul_sin_atan2 _ _).symm
    rw [two_mul, ← two_nsmul]
    rfl
  · rw [sin_pitch hq, neg_neg]
    rfl
  · rw [cos_pitch, cos_sq_roll hq]
    refine Eq.trans ?_ (norm_mul_sin_atan2 _ _).symm
    rw [two_mul, ← two_nsmul]
    rfl
  · rw [cos_pitch, cos_sq_roll hq]
    refine Eq.trans ?_ (norm_mul_cos_atan2 _ _).symm
    simp only [action, Quaternion.versor, Matrix.of_apply, Matrix.cons_val]
    linear_combination hq

end Unit

/-! ### The round trip -/

section Unit

variable {q : Quaternion ℝ} (hq : q.w ^ 2 + q.x ^ 2 + q.y ^ 2 + q.z ^ 2 = 1)

include hq

theorem normSq_versor : Quaternion.normSq q.versor = 1 := by
  rw [Quaternion.normSq_def']
  exact hq

/-- At a pitch of a quarter turn `to_euler` finds neither roll nor yaw. -/
theorem toEuler_of_lock (hlock : q.tilt ^ 2 = 1) :
    (q.toEuler Cmath.real).roll = 0 ∧ (q.toEuler Cmath.real).yaw = 0 := by
  have hzero : ∀ y x : ℝ, 1 - q.tilt ^ 2 = x ^ 2 + y ^ 2 → Cmath.real.atan2 y x = 0 := by
    intro y x hsum
    have hx : x = 0 := by nlinarith
    have hy : y = 0 := by nlinarith
    rw [hx, hy]
    exact Complex.arg_zero
  exact ⟨hzero _ _ (cos_sq_roll hq), hzero _ _ (cos_sq_yaw hq)⟩

theorem cos_pitch_pos (hlock : q.tilt ^ 2 ≠ 1) : 0 < Real.cos (q.toEuler Cmath.real).pitch := by
  obtain ⟨hlow, hhigh⟩ := abs_tilt_le hq
  have hle : q.tilt ^ 2 ≤ 1 := by nlinarith
  rw [cos_pitch]
  exact Real.sqrt_pos.mpr (sub_pos.mpr (lt_of_le_of_ne hle hlock))

/-- At a pitch of a quarter turn the components agree in pairs. -/
theorem eq_of_lock (hlock : q.tilt ^ 2 = 1) : q.z ^ 2 = q.x ^ 2 ∧ q.y ^ 2 = q.w ^ 2 := by
  have hfactor : (q.tilt - 1) * (q.tilt + 1) = 0 := by linear_combination hlock
  rcases mul_eq_zero.mp hfactor with htilt | htilt
  · rw [tilt_eq] at htilt
    have hsum : (q.x - q.z) ^ 2 + (q.w + q.y) ^ 2 = 0 := by linear_combination hq - htilt
    have hx : q.x - q.z = 0 := by nlinarith
    have hy : q.w + q.y = 0 := by nlinarith
    exact ⟨by linear_combination -(q.x + q.z) * hx, by linear_combination (q.y - q.w) * hy⟩
  · rw [tilt_eq] at htilt
    have hsum : (q.x + q.z) ^ 2 + (q.w - q.y) ^ 2 = 0 := by linear_combination hq + htilt
    have hx : q.x + q.z = 0 := by nlinarith
    have hy : q.w - q.y = 0 := by nlinarith
    exact ⟨by linear_combination (q.z - q.x) * hx, by linear_combination -(q.w + q.y) * hy⟩

/-- The quaternions at a quarter turn that are nothing but a pitch. -/
theorem eq_turnY_of_lock (hlock : q.tilt ^ 2 = 1) (hx : q.x = 0) :
    q.versor = turnY ((q.toEuler Cmath.real).pitch / 2) ∨
      q.versor = -turnY ((q.toEuler Cmath.real).pitch / 2) := by
  obtain ⟨hzx, hyw⟩ := eq_of_lock hq hlock
  have hz : q.z = 0 := by
    rw [hx] at hzx
    simpa using hzx
  have hcos : Real.cos (q.toEuler Cmath.real).pitch = 0 := by
    rw [cos_pitch, hlock, sub_self, Real.sqrt_zero]
  refine eq_turnY_or_neg (normSq_versor hq) hx hz ?_ ?_ hcos.ge
  · rw [hcos]
    exact sub_eq_zero.mpr hyw.symm
  · rw [sin_pitch hq, tilt_eq, hx]
    simp only [Quaternion.versor]
    ring

/-- A quaternion of length one survives the way over the three angles up to its sign, which does not
change the rotation: always where the pitch is not a quarter turn, and there only if the quaternion
turns about the y-axis alone. -/
theorem quaternion_round_trip :
    (((q.toEuler Cmath.real).toQuaternion Cmath.real).versor = q.versor ∨
        ((q.toEuler Cmath.real).toQuaternion Cmath.real).versor = -q.versor) ↔
      q.tilt ^ 2 ≠ 1 ∨ q.x = 0 := by
  rw [versor_toQuaternion]
  by_cases hlock : q.tilt ^ 2 = 1
  · obtain ⟨hroll, hyaw⟩ := toEuler_of_lock hq hlock
    rw [hroll, hyaw, zero_div, turns_pitch]
    constructor
    · rintro (hsame | hopposite)
      · exact .inr (congrArg QuaternionAlgebra.imI hsame).symm
      · have hneg : 0 = -q.x := congrArg QuaternionAlgebra.imI hopposite
        exact .inr (neg_eq_zero.mp hneg.symm)
    · rintro (hne | hx)
      · exact absurd hlock hne
      · rcases eq_turnY_of_lock hq hlock hx with hturn | hturn
        · exact .inl hturn.symm
        · exact .inr (by rw [hturn, neg_neg])
  · refine iff_of_true ?_ (.inl hlock)
    rcases (shows_toEuler hq).eq_turns_or_neg (normSq_versor hq) (cos_pitch_pos hq hlock) with
      hturns | hturns
    · exact .inl hturns.symm
    · exact .inr (by rw [hturns, neg_neg])

end Unit

/-- A third of a turn about the diagonal. -/
theorem quaternion_round_trip_diagonal :
    let q : Quaternion ℝ := ⟨1 / 2, 1 / 2, 1 / 2, 1 / 2⟩
    (((q.toEuler Cmath.real).toQuaternion Cmath.real).versor = q.versor ∨
      ((q.toEuler Cmath.real).toQuaternion Cmath.real).versor = -q.versor) := by
  intro q
  have hq : q.w ^ 2 + q.x ^ 2 + q.y ^ 2 + q.z ^ 2 = 1 := by norm_num [q]
  refine (quaternion_round_trip hq).mpr (.inl ?_)
  norm_num [tilt_eq, q]

end CommonLib.Math
