import CommonLib.Verification.Angle.Rotation

/-! # The attitude that an accelerometer at rest shows

`from_acc` takes two components of gravity in the axes of the body. There is one attitude without a
yaw and not upside down in which they are read, and that is what it returns. -/

namespace CommonLib.Math

open Rotation

/-- Gravity, which points down, in the axes of a body with this attitude. -/
noncomputable def Euler.reading (e : Euler ℝ) : Versor ℝ :=
  star (e.toQuaternion Cmath.real).versor * pure ![0, 0, -9.8] *
    (e.toQuaternion Cmath.real).versor

/-- What is read is the third row of the action. -/
theorem reading_eq (e : Euler ℝ) : e.reading =
    pure ![9.8 * Real.sin e.pitch, -(9.8 * Real.cos e.pitch * Real.sin e.roll),
      -(9.8 * Real.cos e.pitch * Real.cos e.roll)] := by
  have hshows := shows_turns e.roll e.pitch e.yaw
  have hconj := conj_pure (star (turns (e.roll / 2) (e.pitch / 2) (e.yaw / 2))) ![0, 0, -9.8]
  rw [star_star, action_star] at hconj
  rw [Euler.reading, versor_toQuaternion, hconj]
  congr 1
  ext i
  fin_cases i
  · simp [Matrix.mulVec, dotProduct, Fin.sum_univ_three, hshows.corner]
    ring
  · simp [Matrix.mulVec, dotProduct, Fin.sum_univ_three, hshows.rollSin]
    ring
  · simp [Matrix.mulVec, dotProduct, Fin.sum_univ_three, hshows.rollCos]
    ring

/-! ### Legs of a right triangle -/

section Legs

variable {a r : ℝ} (hr : 0 < r) (ha : a ^ 2 ≤ r ^ 2)

include hr ha

theorem div_mem_of_sq_le : -1 ≤ a / r ∧ a / r ≤ 1 := by
  obtain ⟨hlow, hhigh⟩ := abs_le.mp (abs_le_of_sq_le_sq ha hr.le)
  exact ⟨(le_div_iff₀ hr).mpr (by linarith), (div_le_one hr).mpr hhigh⟩

theorem mul_sin_arcsin : r * Real.sin (Real.arcsin (a / r)) = a := by
  obtain ⟨hlow, hhigh⟩ := div_mem_of_sq_le hr ha
  rw [Real.sin_arcsin hlow hhigh, mul_div_cancel₀ a hr.ne']

omit ha in
theorem mul_cos_arcsin : r * Real.cos (Real.arcsin (a / r)) = Real.sqrt (r ^ 2 - a ^ 2) := by
  have hleg : r ^ 2 - a ^ 2 = r ^ 2 * (1 - (a / r) ^ 2) := by
    field_simp
  rw [Real.cos_arcsin, hleg, Real.sqrt_mul (sq_nonneg r), Real.sqrt_sq hr.le]

end Legs

section Reading

variable {x y : ℝ} (hxy : x ^ 2 + y ^ 2 ≤ 9.8 ^ 2) (hx : x ^ 2 ≠ 9.8 ^ 2) (z : ℝ)

include hxy hx

/-- What is left of gravity for the other two axes. -/
theorem rest_fromAcc : 0 < 9.8 * Real.cos (Euler.fromAcc Cmath.real x y z).pitch ∧
    (9.8 * Real.cos (Euler.fromAcc Cmath.real x y z).pitch) ^ 2 = 9.8 ^ 2 - x ^ 2 := by
  have hle : x ^ 2 ≤ 9.8 ^ 2 := by linarith [sq_nonneg y]
  have hrest : 0 < 9.8 ^ 2 - x ^ 2 := sub_pos.mpr (lt_of_le_of_ne hle hx)
  have hcos : 9.8 * Real.cos (Euler.fromAcc Cmath.real x y z).pitch =
      Real.sqrt (9.8 ^ 2 - x ^ 2) := mul_cos_arcsin (by norm_num)
  rw [hcos]
  exact ⟨Real.sqrt_pos.mpr hrest, Real.sq_sqrt hrest.le⟩

theorem reading_fromAcc : (Euler.fromAcc Cmath.real x y z).reading =
    pure ![x, y, -Real.sqrt (9.8 ^ 2 - x ^ 2 - y ^ 2)] := by
  obtain ⟨hpos, hsq⟩ := rest_fromAcc hxy hx z
  have hle : x ^ 2 ≤ 9.8 ^ 2 := by linarith [sq_nonneg y]
  have hpitch : 9.8 * Real.sin (Euler.fromAcc Cmath.real x y z).pitch = x :=
    mul_sin_arcsin (by norm_num) hle
  have hy : (-1 * y) ^ 2 ≤ (9.8 * Real.cos (Euler.fromAcc Cmath.real x y z).pitch) ^ 2 := by
    rw [hsq]
    linarith
  have hsin : 9.8 * Real.cos (Euler.fromAcc Cmath.real x y z).pitch *
      Real.sin (Euler.fromAcc Cmath.real x y z).roll = -1 * y := mul_sin_arcsin hpos hy
  have hcos : 9.8 * Real.cos (Euler.fromAcc Cmath.real x y z).pitch *
      Real.cos (Euler.fromAcc Cmath.real x y z).roll =
        Real.sqrt (9.8 ^ 2 - x ^ 2 - (-1 * y) ^ 2) := by
    rw [← hsq]
    exact mul_cos_arcsin hpos
  have hsame : (9.8 : ℝ) ^ 2 - x ^ 2 - (-1 * y) ^ 2 = 9.8 ^ 2 - x ^ 2 - y ^ 2 := by ring
  rw [reading_eq, hpitch, hsin, hcos, hsame, neg_one_mul, neg_neg]

theorem range_fromAcc :
    (Euler.fromAcc Cmath.real x y z).pitch ∈ Set.Ioo (-(Real.pi / 2)) (Real.pi / 2) ∧
      (Euler.fromAcc Cmath.real x y z).roll ∈ Set.Icc (-(Real.pi / 2)) (Real.pi / 2) := by
  obtain ⟨hpos, -⟩ := rest_fromAcc hxy hx z
  refine ⟨?_, Real.arcsin_mem_Icc _⟩
  have hmem : (Euler.fromAcc Cmath.real x y z).pitch ∈ Set.Icc (-(Real.pi / 2)) (Real.pi / 2) :=
    Real.arcsin_mem_Icc _
  refine ⟨lt_of_le_of_ne hmem.1 fun heq => ?_, lt_of_le_of_ne hmem.2 fun heq => ?_⟩
  · rw [← heq, Real.cos_neg, Real.cos_pi_div_two, mul_zero] at hpos
    exact lt_irrefl 0 hpos
  · rw [heq, Real.cos_pi_div_two, mul_zero] at hpos
    exact lt_irrefl 0 hpos

end Reading

/-- Another attitude with the same reading has another yaw, or is upside down. -/
theorem eq_fromAcc {e : Euler ℝ} {x y : ℝ} (z : ℝ) (hyaw : e.yaw = 0)
    (hpitch : e.pitch ∈ Set.Ioo (-(Real.pi / 2)) (Real.pi / 2))
    (hroll : e.roll ∈ Set.Icc (-(Real.pi / 2)) (Real.pi / 2)) (hx : e.reading.imI = x)
    (hy : e.reading.imJ = y) : e = Euler.fromAcc Cmath.real x y z := by
  have hcos : 0 < Real.cos e.pitch := Real.cos_pos_of_mem_Ioo hpitch
  rw [reading_eq] at hx hy
  change 9.8 * Real.sin e.pitch = x at hx
  change -(9.8 * Real.cos e.pitch * Real.sin e.roll) = y at hy
  have hasin : Real.arcsin (x / 9.8) = e.pitch := by
    rw [← hx, mul_div_cancel_left₀ _ (by norm_num : (9.8 : ℝ) ≠ 0),
      Real.arcsin_sin hpitch.1.le hpitch.2.le]
  have hquotient : -1 * y / (9.8 * Real.cos e.pitch) = Real.sin e.roll := by
    rw [← hy]
    field_simp
  ext
  · change e.roll = Real.arcsin (-1 * y / (9.8 * Real.cos (Real.arcsin (x / 9.8))))
    rw [hasin, hquotient, Real.arcsin_sin hroll.1 hroll.2]
  · exact hasin.symm
  · exact hyaw

/-- Let `x` and `y` be no more than gravity allows, with something left for the other axes. Then
`from_acc` returns the one attitude without a yaw, with a pitch of less and a roll of no more than a
quarter turn, in which an accelerometer at rest reads them along the first two axes. What it ignores
is the third component, which is then what gravity leaves, downwards. -/
theorem fromAcc_iff {x y : ℝ} (hxy : x ^ 2 + y ^ 2 ≤ 9.8 ^ 2) (hx : x ^ 2 ≠ 9.8 ^ 2) (z : ℝ)
    (e : Euler ℝ) :
    (e = Euler.fromAcc Cmath.real x y z ↔
      e.yaw = 0 ∧ e.pitch ∈ Set.Ioo (-(Real.pi / 2)) (Real.pi / 2) ∧
        e.roll ∈ Set.Icc (-(Real.pi / 2)) (Real.pi / 2) ∧ e.reading.imI = x ∧ e.reading.imJ = y) ∧
    (Euler.fromAcc Cmath.real x y z).reading =
      pure ![x, y, -Real.sqrt (9.8 ^ 2 - x ^ 2 - y ^ 2)] := by
  have hreading := reading_fromAcc hxy hx z
  refine ⟨⟨?_, ?_⟩, hreading⟩
  · rintro rfl
    obtain ⟨hpitch, hroll⟩ := range_fromAcc hxy hx z
    rw [hreading]
    exact ⟨rfl, hpitch, hroll, rfl, rfl⟩
  · rintro ⟨hyaw, hpitch, hroll, hfirst, hsecond⟩
    exact eq_fromAcc z hyaw hpitch hroll hfirst hsecond

/-- Thirty degrees of pitch, and as many of roll the other way. -/
theorem fromAcc_iff_tilted :
    (⟨-(Real.pi / 6), Real.pi / 6, 0⟩ : Euler ℝ) =
      Euler.fromAcc Cmath.real 4.9 (2.45 * Real.sqrt 3) 1 := by
  have hpi := Real.pi_pos
  have hthree : (2.45 * Real.sqrt 3) ^ 2 = 2.45 ^ 2 * 3 := by
    rw [mul_pow, Real.sq_sqrt (by norm_num)]
  refine (fromAcc_iff (by rw [hthree]; norm_num) (by norm_num) 1 _).1.mpr
    ⟨rfl, ⟨?_, ?_⟩, ⟨?_, ?_⟩, ?_, ?_⟩
  · change -(Real.pi / 2) < Real.pi / 6
    linarith
  · change Real.pi / 6 < Real.pi / 2
    linarith
  · change -(Real.pi / 2) ≤ -(Real.pi / 6)
    linarith
  · change -(Real.pi / 6) ≤ Real.pi / 2
    linarith
  · rw [reading_eq]
    change 9.8 * Real.sin (Real.pi / 6) = 4.9
    rw [Real.sin_pi_div_six]
    norm_num
  · rw [reading_eq]
    change -(9.8 * Real.cos (Real.pi / 6) * Real.sin (-(Real.pi / 6))) = 2.45 * Real.sqrt 3
    rw [Real.sin_neg, Real.sin_pi_div_six, Real.cos_pi_div_six]
    ring

end CommonLib.Math
