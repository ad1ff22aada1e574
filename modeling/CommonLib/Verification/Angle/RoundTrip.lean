import CommonLib.Model.Angle
import Mathlib.Analysis.SpecialFunctions.Complex.Arg

/-! # From angles to a quaternion and back

The arguments of the inverse functions are `cos pitch` times sine and cosine of the roll, minus the
sine of the pitch, and `cos pitch` times sine and cosine of the yaw. -/

namespace CommonLib.Math

/-- The functions of `cmath` without rounding. -/
noncomputable def Cmath.real : Cmath ℝ where
  sin := Real.sin
  cos := Real.cos
  asin := Real.arcsin
  atan2 y x := Complex.arg ⟨x, y⟩

/-! ### Half angles -/

/-- `s` and `c` are the sine and the cosine of half of `θ`. -/
structure HalfAngle (θ s c : ℝ) : Prop where
  sq : s ^ 2 + c ^ 2 = 1
  sin : Real.sin θ = 2 * s * c
  cos : Real.cos θ = c ^ 2 - s ^ 2

theorem halfAngle (θ : ℝ) : HalfAngle θ (Real.sin (θ / 2)) (Real.cos (θ / 2)) := by
  have hθ : 2 * (θ / 2) = θ := by ring
  refine ⟨Real.sin_sq_add_cos_sq _, ?_, ?_⟩
  · rw [← Real.sin_two_mul, hθ]
  · rw [← Real.cos_two_mul', hθ]

/-! ### Inverse functions -/

theorem atan2_mul {r θ : ℝ} (hr : 0 < r) (hθ : θ ∈ Set.Ioc (-Real.pi) Real.pi) :
    Cmath.real.atan2 (r * Real.sin θ) (r * Real.cos θ) = θ := by
  have hpolar : (⟨r * Real.cos θ, r * Real.sin θ⟩ : ℂ) =
      r * (Complex.cos θ + Complex.sin θ * Complex.I) := by
    apply Complex.ext
    · simp [Complex.cos_ofReal_re]
    · simp [Complex.sin_ofReal_re]
  have harg := Complex.arg_mul_cos_add_sin_mul_I hr hθ
  rw [← hpolar] at harg
  exact harg

theorem asin_neg_sin {θ : ℝ} (hθ : θ ∈ Set.Ioo (-(Real.pi / 2)) (Real.pi / 2)) :
    Cmath.real.asin (-Real.sin θ) = -θ := by
  have hasin := Real.arcsin_sin hθ.1.le hθ.2.le
  exact (Real.arcsin_neg _).trans (congrArg Neg.neg hasin)

/-! ### The quaternion of the half angles -/

/-- The quaternion of three angles, from the sines and cosines of their halves. -/
def Quaternion.ofHalves (sr cr sp cp sy cy : ℝ) : Quaternion ℝ where
  w := cr * cp * cy + sr * sp * sy
  x := sr * cp * cy - cr * sp * sy
  y := cr * sp * cy + sr * cp * sy
  z := cr * cp * sy - sr * sp * cy

section Halves

open CommonLib.Math.Quaternion

variable {roll pitch yaw sr cr sp cp sy cy : ℝ} (hr : HalfAngle roll sr cr)
  (hp : HalfAngle pitch sp cp) (hy : HalfAngle yaw sy cy)

include hr hp hy

theorem norm_ofHalves : (ofHalves sr cr sp cp sy cy).w ^ 2 + (ofHalves sr cr sp cp sy cy).x ^ 2 +
    (ofHalves sr cr sp cp sy cy).y ^ 2 + (ofHalves sr cr sp cp sy cy).z ^ 2 = 1 := by
  have hproduct : (ofHalves sr cr sp cp sy cy).w ^ 2 + (ofHalves sr cr sp cp sy cy).x ^ 2 +
      (ofHalves sr cr sp cp sy cy).y ^ 2 + (ofHalves sr cr sp cp sy cy).z ^ 2 =
        (sr ^ 2 + cr ^ 2) * (sp ^ 2 + cp ^ 2) * (sy ^ 2 + cy ^ 2) := by
    simp only [ofHalves]
    ring
  rw [hproduct, hr.sq, hp.sq, hy.sq]
  norm_num

theorem roll_toEuler (hcos : 0 < Real.cos pitch) (hroll : roll ∈ Set.Ioc (-Real.pi) Real.pi) :
    ((ofHalves sr cr sp cp sy cy).toEuler Cmath.real).roll = roll := by
  have hatan2 := atan2_mul hcos hroll
  rw [hr.sin, hr.cos, hp.cos] at hatan2
  rw [← hatan2]
  simp only [toEuler, ofHalves]
  congr 1
  · linear_combination 2 * sr * cr * (cp ^ 2 - sp ^ 2) * hy.sq
  · linear_combination -2 * (sr ^ 2 * cp ^ 2 + cr ^ 2 * sp ^ 2) * hy.sq -
      (sp ^ 2 + cp ^ 2) * hr.sq - hp.sq

theorem pitch_toEuler (hpitch : pitch ∈ Set.Ioo (-(Real.pi / 2)) (Real.pi / 2)) :
    ((ofHalves sr cr sp cp sy cy).toEuler Cmath.real).pitch = pitch := by
  have hneg : 2 * ((ofHalves sr cr sp cp sy cy).x * (ofHalves sr cr sp cp sy cy).z -
      (ofHalves sr cr sp cp sy cy).w * (ofHalves sr cr sp cp sy cy).y) = -Real.sin pitch := by
    rw [hp.sin]
    simp only [ofHalves]
    linear_combination -2 * sp * cp * (sy ^ 2 + cy ^ 2) * hr.sq - 2 * sp * cp * hy.sq
  simp only [toEuler, hneg, asin_neg_sin hpitch]
  ring

omit hr hp hy in
/-- Roll and yaw change places with `x` and `z`. -/
theorem yaw_toEuler_eq_roll (cmath : Cmath ℝ) :
    ((ofHalves sr cr sp cp sy cy).toEuler cmath).yaw =
      ((ofHalves sy cy sp cp sr cr).toEuler cmath).roll := by
  simp only [toEuler, ofHalves]
  congr 1
  · ring
  · ring

theorem yaw_toEuler (hcos : 0 < Real.cos pitch) (hyaw : yaw ∈ Set.Ioc (-Real.pi) Real.pi) :
    ((ofHalves sr cr sp cp sy cy).toEuler Cmath.real).yaw = yaw := by
  rw [yaw_toEuler_eq_roll]
  exact roll_toEuler hy hp hr hcos hyaw

end Halves

/-! ### The round trip -/

theorem toQuaternion_eq (e : Euler ℝ) : e.toQuaternion Cmath.real =
    .ofHalves (Real.sin (e.roll / 2)) (Real.cos (e.roll / 2)) (Real.sin (e.pitch / 2))
      (Real.cos (e.pitch / 2)) (Real.sin (e.yaw / 2)) (Real.cos (e.yaw / 2)) := rfl

/-- The quaternion of three angles has length one, and gives back the angles. -/
theorem euler_round_trip (e : Euler ℝ) (hroll : e.roll ∈ Set.Ioc (-Real.pi) Real.pi)
    (hpitch : e.pitch ∈ Set.Ioo (-(Real.pi / 2)) (Real.pi / 2))
    (hyaw : e.yaw ∈ Set.Ioc (-Real.pi) Real.pi) :
    let q := e.toQuaternion Cmath.real
    q.w ^ 2 + q.x ^ 2 + q.y ^ 2 + q.z ^ 2 = 1 ∧ q.toEuler Cmath.real = e := by
  have hr := halfAngle e.roll
  have hp := halfAngle e.pitch
  have hy := halfAngle e.yaw
  have hcos : 0 < Real.cos e.pitch := Real.cos_pos_of_mem_Ioo hpitch
  rw [toQuaternion_eq]
  refine ⟨norm_ofHalves hr hp hy, Euler.ext ?_ ?_ ?_⟩
  · exact roll_toEuler hr hp hy hcos hroll
  · exact pitch_toEuler hr hp hy hpitch
  · exact yaw_toEuler hr hp hy hcos hyaw

/-- Upside down, and turned by a quarter. -/
theorem euler_round_trip_turned :
    (Euler.toQuaternion Cmath.real ⟨Real.pi, 0, Real.pi / 2⟩).toEuler Cmath.real =
      ⟨Real.pi, 0, Real.pi / 2⟩ := by
  have hpi := Real.pi_pos
  apply (euler_round_trip ⟨Real.pi, 0, Real.pi / 2⟩ _ _ _).2
  · constructor <;> simp only <;> linarith
  · constructor <;> simp only <;> linarith
  · constructor <;> simp only <;> linarith

end CommonLib.Math
