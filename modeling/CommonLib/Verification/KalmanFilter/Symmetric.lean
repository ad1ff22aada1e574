import CommonLib.Model.KalmanFilter
import CommonLib.Verification.Matrix.Symmetric
import Mathlib.Algebra.Field.Rat

/-! # The covariance stays symmetric

The new covariance is `Pp - K * H * Pp`, and the gain `K` is `Pp * Hᵀ` times what `inverse` makes of a
symmetric matrix, right or wrong. So what is subtracted is `B * V * Bᵀ` with `B = Pp * Hᵀ`. -/

namespace CommonLib.Math.KalmanFilter

open Program Member

universe u

variable {T : Type u}

/-! ### Expressions -/

section

variable [Field T]

theorem ensures_predict_symmetric (A : Matrix T) {P Q : Matrix T} (hP : P.Symmetric)
    (hQ : Q.Symmetric) : Ensures (predict A P Q) Matrix.Symmetric := by
  obtain ⟨m, n, A⟩ := A
  obtain ⟨p, P, rfl, hP⟩ := hP
  refine (Matrix.ensures_mul_entries A _).bind ?_
  rintro _ ⟨_, _, hPeq, rfl⟩
  cases hPeq
  refine (Matrix.returns_transpose _).ensures.bind ?_
  rintro _ rfl
  refine (Matrix.ensures_mul_entries (A * P) _).bind ?_
  rintro _ ⟨_, _, hAt, rfl⟩
  cases hAt
  refine (Matrix.ensures_elementwise_entries (· + ·) _ Q).imp ?_
  rintro _ ⟨Q, rfl, rfl⟩
  obtain ⟨_, _, hQeq, hQ⟩ := hQ
  cases hQeq
  exact ⟨m, _, rfl, (isSymm_mul_mul_transpose A hP).add hQ⟩

theorem ensures_gain_symmetric [DecidableEq T] {n : ℕ} {Pp : Entries n n T} (hPp : Pp.IsSymm)
    (H : Matrix T) {R : Matrix T} (hR : R.Symmetric) :
    Ensures (gain ⟨n, n, Pp⟩ H R) fun K =>
      ∃ (m : ℕ) (H' : Entries m n T) (V : Entries m m T), H = ⟨m, n, H'⟩ ∧ V.IsSymm ∧
        K = ⟨n, m, Pp * H'.transpose * V⟩ := by
  obtain ⟨m, k, H⟩ := H
  refine (Matrix.returns_transpose _).ensures.bind ?_
  rintro _ rfl
  refine (Matrix.ensures_mul_entries Pp _).bind ?_
  rintro _ ⟨_, _, hHt, rfl⟩
  cases hHt
  refine (Matrix.ensures_mul_eq H Pp).bind ?_
  rintro _ rfl
  refine (Matrix.returns_transpose _).ensures.bind ?_
  rintro _ rfl
  refine (Matrix.ensures_mul_eq (H * Pp) H.transpose).bind ?_
  rintro _ rfl
  refine (Matrix.ensures_elementwise_entries (· + ·) _ R).bind ?_
  rintro _ ⟨R, rfl, rfl⟩
  obtain ⟨_, _, hReq, hR⟩ := hR
  cases hReq
  refine (ensures_inverse_isSymm ((isSymm_mul_mul_transpose H hPp).add hR)).bind ?_
  rintro _ ⟨V, rfl, hV⟩
  refine (Matrix.ensures_mul_eq (Pp * H.transpose) V).imp ?_
  rintro _ rfl
  exact ⟨m, H, V, rfl, hV, rfl⟩

theorem ensures_update_symmetric {m n : ℕ} {Pp : Entries n n T} (hPp : Pp.IsSymm)
    (H : Entries m n T) {V : Entries m m T} (hV : V.IsSymm) :
    Ensures (update ⟨n, n, Pp⟩ ⟨n, m, Pp * H.transpose * V⟩ ⟨m, n, H⟩) Matrix.Symmetric := by
  have hsquare : Pp * H.transpose * V * H * Pp =
      Pp * H.transpose * V * (Pp * H.transpose).transpose := by
    rw [Matrix.transpose_mul, Matrix.transpose_transpose, hPp.eq, Matrix.mul_assoc _ H]
  refine (Matrix.ensures_mul_eq (Pp * H.transpose * V) H).bind ?_
  rintro _ rfl
  refine (Matrix.ensures_mul_eq (Pp * H.transpose * V * H) Pp).bind ?_
  rintro _ rfl
  refine (Matrix.ensures_elementwise_entries (· - ·) Pp _).imp ?_
  rintro _ ⟨_, hKHPp, rfl⟩
  cases hKHPp
  refine ⟨n, _, rfl, hPp.sub ?_⟩
  rw [hsquare]
  exact isSymm_mul_mul_transpose (Pp * H.transpose) hV

end

/-! ### The filter -/

/-- The covariances of a filter are symmetric: of the motion, of the measurement, of the state. -/
structure Symmetric (filter : KalmanFilter T) : Prop where
  Q : filter.Q.Symmetric
  R : filter.R.Symmetric
  P : filter.P.Symmetric

theorem leaves_assignX {value : Calc T (Matrix T)} {filter : KalmanFilter T}
    (h : filter.Symmetric) :
    Leaves (assignX value) filter Symmetric fun _ filter' =>
      filter'.Symmetric ∧ filter'.H = filter.H := by
  refine (Leaves.eval (Ensures.trivial value) h).bind ?_
  rintro x _ ⟨rfl, -⟩
  refine Completes.this.leaves.bind ?_
  rintro _ _ ⟨rfl, rfl⟩
  refine (Leaves.eval (Ensures.trivial _) h).bind ?_
  rintro x' _ ⟨rfl, -⟩
  refine ((Completes.modify _).imp ?_).leaves
  rintro _ _ rfl
  exact ⟨⟨h.Q, h.R, h.P⟩, rfl⟩

theorem leaves_assignP {value : Calc T (Matrix T)} {filter : KalmanFilter T}
    (h : filter.Symmetric) (hvalue : Ensures value Matrix.Symmetric) :
    Leaves (assignP value) filter Symmetric fun _ => Symmetric := by
  refine (Leaves.eval hvalue h).bind ?_
  rintro P _ ⟨rfl, hP⟩
  refine Completes.this.leaves.bind ?_
  rintro _ _ ⟨rfl, rfl⟩
  refine (Leaves.eval (Matrix.ensures_assign _ P) h).bind ?_
  rintro _ _ ⟨rfl, -, rfl⟩
  refine ((Completes.modify _).imp ?_).leaves
  rintro _ _ rfl
  exact ⟨h.Q, h.R, hP⟩

theorem leaves_result {filter : KalmanFilter T} (h : filter.Symmetric) :
    Leaves (do
      let filter ← this
      eval filter.x.copy : Call T (Matrix T)) filter Symmetric fun _ => Symmetric := by
  refine Completes.this.leaves.bind ?_
  rintro _ _ ⟨rfl, rfl⟩
  refine ((Completes.eval (Matrix.returns_copy _)).imp ?_).leaves
  rintro _ _ ⟨rfl, -⟩
  exact h

variable [Field T] [DecidableEq T]

/-- One call, whether it returns or throws. -/
theorem leaves_run {filter : KalmanFilter T} (h : filter.Symmetric) (A z : Matrix T) :
    Leaves (run A z) filter Symmetric fun _ => Symmetric := by
  refine Completes.this.leaves.bind ?_
  rintro filter _ ⟨rfl, rfl⟩
  cases hfirst : filter.first with
  | true =>
      simp only [Bool.not_true, Bool.false_eq_true, if_false]
      refine (Completes.modify _).leaves.bind ?_
      rintro _ _ rfl
      exact leaves_result ⟨h.Q, h.R, h.P⟩
  | false =>
      simp only [Bool.not_false, if_true]
      refine (Leaves.eval (Ensures.trivial _) h).bind ?_
      rintro xp _ ⟨rfl, -⟩
      refine (Leaves.eval (ensures_predict_symmetric A h.P h.Q) h).bind ?_
      rintro _ _ ⟨rfl, n, Pp, rfl, hPp⟩
      refine (Leaves.eval (ensures_gain_symmetric hPp _ h.R) h).bind ?_
      rintro _ filter ⟨rfl, m, H, V, hH, hV, rfl⟩
      refine (leaves_assignX h).bind ?_
      rintro _ filter' ⟨h', hH'⟩
      have hupdate := ensures_update_symmetric hPp H hV
      rw [← hH] at hupdate
      refine (leaves_assignP h' hupdate).bind ?_
      rintro _ filter'' h''
      exact leaves_result h''

/-! ### Runs -/

/-- The arguments of a call of `run`, and what the matrices made during it contain at first. -/
structure Step (T : Type u) where
  A : Matrix T
  z : Matrix T
  memory : Memory T

/-- The filter behind some calls of `run`, whether they return or throw. -/
def afterSteps (filter : KalmanFilter T) (steps : List (Step T)) : KalmanFilter T :=
  steps.foldl (fun filter step => (run step.A step.z filter step.memory).2) filter

theorem Symmetric.afterSteps {filter : KalmanFilter T} (h : filter.Symmetric)
    (steps : List (Step T)) : (filter.afterSteps steps).Symmetric := by
  induction steps generalizing filter with
  | nil => exact h
  | cons step steps ih => exact ih ((leaves_run h step.A step.z).snd step.memory)

/-- The covariance of a filter that was made with symmetric matrices is symmetric behind every call. -/
theorem covariance_symmetric (filter : KalmanFilter T) (hQ : filter.Q.Symmetric)
    (hR : filter.R.Symmetric) (hP : filter.P.Symmetric) (steps : List (Step T)) :
    (filter.afterSteps steps).P.Symmetric :=
  (Symmetric.afterSteps ⟨hQ, hR, hP⟩ steps).P

/-- Both components are measured, each behind the other. -/
def turning : KalmanFilter ℚ where
  H := ⟨2, 2, !![0, 1; 1, 0]⟩
  Q := ⟨2, 2, 1⟩
  R := ⟨2, 2, !![2, 1; 1, 2]⟩
  x := ⟨2, 1, 0⟩
  P := ⟨2, 2, !![1, 2; 2, 1]⟩

theorem covariance_symmetric_turning : (turning.afterSteps
    [⟨⟨2, 2, !![1, 1; 0, 1]⟩, ⟨2, 1, 0⟩, fun _ _ _ => 0⟩,
      ⟨⟨2, 2, !![1, 1; 0, 1]⟩, ⟨2, 1, !![1; 2]⟩, fun _ _ _ => 0⟩]).P.Symmetric := by
  apply covariance_symmetric
  · exact ⟨2, _, rfl, by decide +kernel⟩
  · exact ⟨2, _, rfl, by decide +kernel⟩
  · exact ⟨2, _, rfl, by decide +kernel⟩

end CommonLib.Math.KalmanFilter
