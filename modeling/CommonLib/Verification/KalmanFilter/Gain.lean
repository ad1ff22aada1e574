import CommonLib.Verification.KalmanFilter.Covariance

/-! # What a call computes

The textbook equations with whatever `inverse` makes of the innovation. With several measured
components the gain is optimal; with a single one it is zero, and the measurement is lost. -/

namespace CommonLib.Math.KalmanFilter

open Program Member LinearEstimate

universe u

variable {T : Type u} {m n : ℕ}

/-- A filter whose matrices fit together. -/
def sized (H : Entries m n T) (Q : Entries n n T) (R : Entries m m T) (x : Entries n 1 T)
    (P : Entries n n T) : KalmanFilter T :=
  ⟨⟨m, n, H⟩, ⟨n, n, Q⟩, ⟨m, m, R⟩, ⟨n, 1, x⟩, ⟨n, n, P⟩, false⟩

variable [Field T]

/-- The predicted covariance. -/
def predicted (A P Q : Entries n n T) : Entries n n T :=
  A * P * A.transpose + Q

/-! ### Expressions -/

theorem returns_predict (hn : 0 < n) (A P Q : Entries n n T) :
    Returns (predict ⟨n, n, A⟩ ⟨n, n, P⟩ ⟨n, n, Q⟩) ⟨n, n, predicted A P Q⟩ := by
  refine Meets.then (Matrix.returns_mul A P hn) ?_
  refine Meets.then (Matrix.returns_transpose _) ?_
  refine Meets.then (Matrix.returns_mul (A * P) A.transpose hn) ?_
  exact Matrix.returns_elementwise (· + ·) (A * P * A.transpose) Q

theorem returns_gain [DecidableEq T] (hm : 0 < m) (hn : 0 < n) (Pp : Entries n n T)
    (H : Entries m n T) (R : Entries m m T) {V : Entries m m T}
    (hV : Returns (inverse ⟨m, m, innovation H Pp R⟩) ⟨m, m, V⟩) :
    Returns (gain ⟨n, n, Pp⟩ ⟨m, n, H⟩ ⟨m, m, R⟩) ⟨n, m, Pp * H.transpose * V⟩ := by
  refine Meets.then (Matrix.returns_transpose _) ?_
  refine Meets.then (Matrix.returns_mul Pp H.transpose hn) ?_
  refine Meets.then (Matrix.returns_mul H Pp hn) ?_
  refine Meets.then (Matrix.returns_transpose _) ?_
  refine Meets.then (Matrix.returns_mul (H * Pp) H.transpose hn) ?_
  refine Meets.then (Matrix.returns_elementwise (· + ·) (H * Pp * H.transpose) R) ?_
  refine Meets.then hV ?_
  exact Matrix.returns_mul (Pp * H.transpose) V hm

theorem returns_estimate (hm : 0 < m) (hn : 0 < n) (xp : Entries n 1 T) (K : Entries n m T)
    (z : Entries m 1 T) (H : Entries m n T) :
    Returns (estimate ⟨n, 1, xp⟩ ⟨n, m, K⟩ ⟨m, 1, z⟩ ⟨m, n, H⟩)
      ⟨n, 1, xp + K * (z - H * xp)⟩ := by
  refine Meets.then (Matrix.returns_mul H xp hn) ?_
  refine Meets.then (Matrix.returns_elementwise (· - ·) z (H * xp)) ?_
  refine Meets.then (Matrix.returns_mul K (z - H * xp) hm) ?_
  exact Matrix.returns_elementwise (· + ·) xp (K * (z - H * xp))

theorem returns_update (hm : 0 < m) (hn : 0 < n) (Pp : Entries n n T) (K : Entries n m T)
    (H : Entries m n T) :
    Returns (update ⟨n, n, Pp⟩ ⟨n, m, K⟩ ⟨m, n, H⟩) ⟨n, n, Pp - K * H * Pp⟩ := by
  refine Meets.then (Matrix.returns_mul K H hm) ?_
  refine Meets.then (Matrix.returns_mul (K * H) Pp hn) ?_
  exact Matrix.returns_elementwise (· - ·) Pp (K * H * Pp)

/-! ### One call -/

omit [Field T] in
theorem completes_assignX {value : Calc T (Matrix T)} {filter : KalmanFilter T} {x : Entries n 1 T}
    (hx : Returns value ⟨n, 1, x⟩) (hsize : filter.x.Shape n 1) :
    Completes (assignX value) filter fun _ filter' => filter' = { filter with x := ⟨n, 1, x⟩ } := by
  refine (Completes.eval hx).bind ?_
  rintro _ _ ⟨rfl, rfl⟩
  refine Completes.this.bind ?_
  rintro _ filter ⟨rfl, rfl⟩
  refine (Completes.eval (Matrix.returns_assign hsize.row hsize.col)).bind ?_
  rintro _ filter ⟨rfl, rfl⟩
  exact Completes.modify _

omit [Field T] in
theorem completes_assignP_eq {value : Calc T (Matrix T)} {filter : KalmanFilter T}
    {P : Entries n n T} (hP : Returns value ⟨n, n, P⟩) (hsize : filter.P.Shape n n) :
    Completes (assignP value) filter fun _ filter' => filter' = { filter with P := ⟨n, n, P⟩ } := by
  refine (Completes.eval hP).bind ?_
  rintro _ _ ⟨rfl, rfl⟩
  refine Completes.this.bind ?_
  rintro _ filter ⟨rfl, rfl⟩
  refine (Completes.eval (Matrix.returns_assign hsize.row hsize.col)).bind ?_
  rintro _ filter ⟨rfl, rfl⟩
  exact Completes.modify _

/-- The state and the covariance that a call leaves behind, where `V` is what `inverse` returns. -/
theorem completes_run [DecidableEq T] (hm : 0 < m) (hn : 0 < n) (H : Entries m n T)
    (Q : Entries n n T) (R : Entries m m T) (x : Entries n 1 T) (P : Entries n n T)
    (A : Entries n n T) (z : Entries m 1 T) {V : Entries m m T}
    (hV : Returns (inverse ⟨m, m, innovation H (predicted A P Q) R⟩) ⟨m, m, V⟩) :
    Completes (run ⟨n, n, A⟩ ⟨m, 1, z⟩) (sized H Q R x P) fun result filter' =>
      let K := predicted A P Q * H.transpose * V
      let x' := A * x + K * (z - H * (A * x))
      filter' = sized H Q R x' (predicted A P Q - K * H * predicted A P Q) ∧
        result = ⟨n, 1, x'⟩ := by
  refine Completes.this.bind ?_
  rintro _ _ ⟨rfl, rfl⟩
  simp only [sized, Bool.not_false, if_true]
  refine (Completes.eval (Matrix.returns_mul A x hn)).bind ?_
  rintro _ _ ⟨rfl, rfl⟩
  refine (Completes.eval (returns_predict hn A P Q)).bind ?_
  rintro _ _ ⟨rfl, rfl⟩
  refine (Completes.eval (returns_gain hm hn _ H R hV)).bind ?_
  rintro _ _ ⟨rfl, rfl⟩
  refine (completes_assignX (returns_estimate hm hn _ _ z H) ⟨rfl, rfl⟩).bind ?_
  rintro _ _ rfl
  refine (completes_assignP_eq (returns_update hm hn _ _ H) ⟨rfl, rfl⟩).bind ?_
  rintro _ _ rfl
  refine (completes_copy _).imp ?_
  rintro _ _ ⟨rfl, rfl⟩
  exact ⟨rfl, rfl⟩

/-- What a call leaves behind. -/
theorem filter_of_run [DecidableEq T] (hm : 0 < m) (hn : 0 < n) (H : Entries m n T)
    (Q : Entries n n T) (R : Entries m m T) (x : Entries n 1 T) (P : Entries n n T)
    (A : Entries n n T) (z : Entries m 1 T) {V : Entries m m T}
    (hV : Returns (inverse ⟨m, m, innovation H (predicted A P Q) R⟩) ⟨m, m, V⟩)
    (memory : Memory T) :
    (run ⟨n, n, A⟩ ⟨m, 1, z⟩ (sized H Q R x P) memory).2 =
      sized H Q R (A * x + predicted A P Q * H.transpose * V * (z - H * (A * x)))
        (predicted A P Q - predicted A P Q * H.transpose * V * H * predicted A P Q) := by
  obtain ⟨result, store', filter', hrun, hfilter, -⟩ :=
    completes_run hm hn H Q R x P A z hV memory
  rw [hrun, hfilter]

/-! ### Several measured components -/

section

variable [PartialOrder T] [StarRing T] [TrivialStar T] [AddLeftMono T] [DecidableEq T]

/-- The new state is a linear correction of the predicted one, the new covariance is the covariance
of this correction, and no other gain has a smaller one. It is not larger than the predicted one
either. -/
theorem run_optimal (hm : 2 ≤ m) (hn : 0 < n) (H : Entries m n T) {Q : Entries n n T}
    {R : Entries m m T} (x : Entries n 1 T) {P : Entries n n T} (A : Entries n n T)
    (z : Entries m 1 T) (hQ : Q.PosSemidef) (hR : R.PosSemidef) (hP : P.PosSemidef)
    (hzero : (innovation H (predicted A P Q) R).det ≠ 0)
    (hone : (innovation H (predicted A P Q) R).det ≠ 1) (memory : Memory T) :
    ∃ (K : Entries n m T) (P' : Entries n n T),
      (run ⟨n, n, A⟩ ⟨m, 1, z⟩ (sized H Q R x P) memory).2 =
        sized H Q R (A * x + K * (z - H * (A * x))) P' ∧
      P' = corrected H (predicted A P Q) R K ∧
      (∀ L, (corrected H (predicted A P Q) R L - P').PosSemidef) ∧
      (predicted A P Q - P').PosSemidef := by
  have hPp : (predicted A P Q).PosSemidef := (posSemidef_conj hP A).add hQ
  have hV := returns_inverse hm hzero hone
  have hK : predicted A P Q * H.transpose * (innovation H (predicted A P Q) R)⁻¹ *
      innovation H (predicted A P Q) R = predicted A P Q * H.transpose := by
    rw [Matrix.mul_assoc, Matrix.nonsing_inv_mul _ (isUnit_iff_ne_zero.mpr hzero), Matrix.mul_one]
  have hP' := corrected_of_gain (isSymm_of_posSemidef hPp) (isSymm_of_posSemidef hR) hK
  refine ⟨_, _, filter_of_run (by omega) hn H Q R x P A z hV memory, hP'.symm, ?_, ?_⟩
  · intro L
    rw [← hP']
    exact corrected_minimal hPp hR hK L
  · rw [← hP']
    exact corrected_le hPp hR hK

end

/-- The innovation has determinant 11. -/
theorem run_optimal_shear :
    ∃ (K P' : Entries 2 2 ℚ),
      (run ⟨2, 2, !![1, 1; 0, 1]⟩ ⟨2, 1, !![1; 2]⟩ (sized (m := 2) (n := 2) 1 1 1 0 1)
          fun _ _ _ => 0).2 =
        sized (m := 2) (n := 2) 1 1 1 (K * (!![1; 2] : Entries 2 1 ℚ)) P' ∧
      ∀ L : Entries 2 2 ℚ,
        (corrected 1 (predicted (n := 2) !![1, 1; 0, 1] 1 1) 1 L - P').PosSemidef := by
  have hdet : (innovation (1 : Entries 2 2 ℚ) (predicted !![1, 1; 0, 1] 1 1) 1).det = 11 := by
    rw [Matrix.det_fin_two]
    decide +kernel
  obtain ⟨K, P', hrun, -, hminimal, -⟩ := run_optimal (m := 2) le_rfl Nat.two_pos 1 0
    !![1, 1; 0, 1] !![1; 2] Matrix.PosSemidef.one Matrix.PosSemidef.one Matrix.PosSemidef.one
    (by rw [hdet]; decide +kernel) (by rw [hdet]; decide +kernel) fun _ _ _ => (0 : ℚ)
  refine ⟨K, P', ?_, hminimal⟩
  rw [hrun]
  simp only [Matrix.mul_zero, sub_zero, zero_add]

/-! ### A single measured component -/

section

variable [DecidableEq T]

/-- A call without a measurement. -/
def coast (Q : Entries n n T) (s : Entries n 1 T × Entries n n T) (A : Entries n n T) :
    Entries n 1 T × Entries n n T :=
  (A * s.1, predicted A s.2 Q)

/-- The variance of the measured component is neither 0 nor 1 in any of the calls. -/
def Blind (H : Entries 1 n T) (Q : Entries n n T) (R : Entries 1 1 T) :
    Entries n 1 T × Entries n n T → List (Entries n n T) → Prop
  | _, [] => True
  | s, A :: motions =>
      (innovation H (predicted A s.2 Q) R 0 0 ≠ 0 ∧ innovation H (predicted A s.2 Q) R 0 0 ≠ 1) ∧
        Blind H Q R (coast Q s A) motions

/-- A call with matrices that fit. -/
structure Sample (n : ℕ) (T : Type u) where
  A : Entries n n T
  z : Entries 1 1 T
  memory : Memory T

def Sample.step (sample : Sample n T) : Step T :=
  ⟨⟨n, n, sample.A⟩, ⟨1, 1, sample.z⟩, sample.memory⟩

theorem filter_of_blind (hn : 0 < n) {H : Entries 1 n T} {Q : Entries n n T} {R : Entries 1 1 T}
    {x : Entries n 1 T} {P A : Entries n n T}
    (hzero : innovation H (predicted A P Q) R 0 0 ≠ 0)
    (hone : innovation H (predicted A P Q) R 0 0 ≠ 1) (z : Entries 1 1 T) (memory : Memory T) :
    (run ⟨n, n, A⟩ ⟨1, 1, z⟩ (sized H Q R x P) memory).2 =
      sized H Q R (A * x) (predicted A P Q) := by
  rw [← Matrix.det_fin_one (innovation H (predicted A P Q) R)] at hzero hone
  rw [filter_of_run Nat.one_pos hn H Q R x P A z (returns_inverse_single hzero hone) memory]
  simp only [Matrix.mul_zero, Matrix.zero_mul, add_zero, sub_zero]

/-- A filter with one measured component only follows its motions: whatever was measured, its state
and its covariance are the predicted ones. -/
theorem measurements_ignored (hn : 0 < n) (H : Entries 1 n T) (Q : Entries n n T)
    (R : Entries 1 1 T) (x : Entries n 1 T) (P : Entries n n T) (samples : List (Sample n T))
    (hblind : Blind H Q R (x, P) (samples.map Sample.A)) :
    (sized H Q R x P).afterSteps (samples.map Sample.step) =
      sized H Q R ((samples.map Sample.A).foldl (coast Q) (x, P)).1
        ((samples.map Sample.A).foldl (coast Q) (x, P)).2 := by
  induction samples generalizing x P with
  | nil => rfl
  | cons sample samples ih =>
      obtain ⟨⟨hzero, hone⟩, hrest⟩ := hblind
      have hfirst := filter_of_blind hn (x := x) hzero hone sample.z sample.memory
      have hall := ih (sample.A * x) (predicted sample.A P Q) hrest
      rw [← hfirst] at hall
      exact hall

end

/-- A position is measured twice; the filter goes on with the speed that it was made with. -/
theorem measurements_ignored_position :
    (sized !![1, 0] 1 1 !![0; 1] 1).afterSteps
        ([⟨!![1, 1; 0, 1], !![5], fun _ _ _ => 0⟩,
          ⟨!![1, 1; 0, 1], !![9], fun _ _ _ => 0⟩].map (Sample.step (n := 2))) =
      (sized !![1, 0] 1 1 !![2; 1] !![8, 3; 3, 3] : KalmanFilter ℚ) := by
  rw [measurements_ignored Nat.two_pos]
  · have hstate : ([!![1, 1; 0, 1], !![1, 1; 0, 1]].foldl (coast 1) (!![0; 1], 1) :
        Entries 2 1 ℚ × Entries 2 2 ℚ) = (!![2; 1], !![8, 3; 3, 3]) := by
      decide +kernel
    simp only [List.map_cons, List.map_nil, hstate]
  · exact ⟨by decide +kernel, by decide +kernel, trivial⟩

end CommonLib.Math.KalmanFilter
