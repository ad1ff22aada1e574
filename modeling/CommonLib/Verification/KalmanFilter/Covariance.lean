import CommonLib.Library.LinearEstimate
import CommonLib.Verification.KalmanFilter.Symmetric
import CommonLib.Verification.KalmanFilter.Unchanged
import Mathlib.Data.Rat.Star

/-! # The covariance stays positive semidefinite

The gain solves the equation of the optimal gain, or it is zero: the latter where `inverse` is given
a matrix of size 1. Only an innovation of several components with determinant 1 is inverted
wrongly. -/

namespace CommonLib.Math

open Program Member LinearEstimate

universe u

variable {T : Type u} [Field T]

/-- What `inverse` returns is a left inverse or zero, unless the determinant of a larger matrix
is 1. -/
theorem ensures_inverse_or_zero [DecidableEq T] {n : ℕ} {A : Entries n n T}
    (hA : 2 ≤ n → A.det ≠ 1) :
    Ensures (inverse ⟨n, n, A⟩) fun R =>
      ∃ V : Entries n n T, R = ⟨n, n, V⟩ ∧ (V = 0 ∨ V * A = 1) := by
  rcases Nat.eq_zero_or_pos n with rfl | hn
  · refine (Matrix.ensures_inverse (Matrix.shape_self _)).imp fun R hR => ?_
    obtain ⟨V, rfl⟩ := hR.exists_entries
    exact ⟨V, rfl, .inl (Subsingleton.elim _ _)⟩
  by_cases hzero : A.det = 0
  · exact (inverse_fails hn hzero).ensures
  by_cases hone : A.det = 1
  · obtain rfl : n = 1 := by
      by_contra hsize
      exact hA (by omega) hone
    have hfirst : A 0 0 = 1 := by
      rw [Matrix.det_fin_one] at hone
      exact hone
    have hA1 : A = 1 := by
      ext i j
      rw [Subsingleton.elim i 0, Subsingleton.elim j 0, hfirst, Matrix.one_apply_eq]
    refine (returns_inverse_of_one hn hone).ensures.imp fun R hR => ⟨_, hR, .inr ?_⟩
    rw [corner_of_first hfirst, hA1, Matrix.one_mul]
  by_cases hsize : n = 1
  · subst hsize
    exact (returns_inverse_single hzero hone).ensures.imp fun R hR => ⟨0, hR, .inl rfl⟩
  · refine (returns_inverse (by omega) hzero hone).ensures.imp fun R hR => ⟨_, hR, .inr ?_⟩
    exact Matrix.nonsing_inv_mul A (isUnit_iff_ne_zero.mpr hzero)

namespace KalmanFilter

/-! ### Expressions -/

/-- A gain is zero or solves the equation of the optimal gain. -/
theorem ensures_gain_or_zero [DecidableEq T] {n : ℕ} {P : Entries n n T} (H R : Matrix T)
    (hregular : ∀ (m : ℕ) (H' : Entries m n T) (R' : Entries m m T), H = ⟨m, n, H'⟩ →
      R = ⟨m, m, R'⟩ → 2 ≤ m → (innovation H' P R').det ≠ 1) :
    Ensures (gain ⟨n, n, P⟩ H R) fun K =>
      ∃ (m : ℕ) (H' : Entries m n T) (R' : Entries m m T) (K' : Entries n m T),
        H = ⟨m, n, H'⟩ ∧ R = ⟨m, m, R'⟩ ∧ K = ⟨n, m, K'⟩ ∧
        (K' = 0 ∨ K' * innovation H' P R' = P * H'.transpose) := by
  obtain ⟨m, k, H⟩ := H
  refine (Matrix.returns_transpose _).ensures.bind ?_
  rintro _ rfl
  refine (Matrix.ensures_mul_entries P _).bind ?_
  rintro _ ⟨_, _, hHt, rfl⟩
  cases hHt
  refine (Matrix.ensures_mul_eq H P).bind ?_
  rintro _ rfl
  refine (Matrix.returns_transpose _).ensures.bind ?_
  rintro _ rfl
  refine (Matrix.ensures_mul_eq (H * P) H.transpose).bind ?_
  rintro _ rfl
  refine (Matrix.ensures_elementwise_entries (· + ·) _ R).bind ?_
  rintro _ ⟨R, rfl, rfl⟩
  refine (ensures_inverse_or_zero (A := innovation H P R) (hregular m H R rfl rfl)).bind ?_
  rintro _ ⟨V, rfl, hV⟩
  refine (Matrix.ensures_mul_eq (P * H.transpose) V).imp ?_
  rintro _ rfl
  refine ⟨m, H, R, _, rfl, rfl, rfl, ?_⟩
  rcases hV with rfl | hV
  · exact .inl (Matrix.mul_zero _)
  · exact .inr (by rw [Matrix.mul_assoc, hV, Matrix.mul_one])

theorem ensures_update_eq {m n : ℕ} (Pp : Entries n n T) (K : Entries n m T) (H : Entries m n T) :
    Ensures (update ⟨n, n, Pp⟩ ⟨n, m, K⟩ ⟨m, n, H⟩) (· = ⟨n, n, Pp - K * H * Pp⟩) := by
  refine (Matrix.ensures_mul_eq K H).bind ?_
  rintro _ rfl
  refine (Matrix.ensures_mul_eq (K * H) Pp).bind ?_
  rintro _ rfl
  refine (Matrix.ensures_elementwise_entries (· - ·) Pp _).imp ?_
  rintro _ ⟨_, hKHPp, rfl⟩
  cases hKHPp
  rfl

theorem ensures_predict_eq (A : Matrix T) {P Q : Matrix T} {k : ℕ} {P' : Entries k k T}
    (hP : P = ⟨k, k, P'⟩) :
    Ensures (predict A P Q) fun Pp =>
      ∃ (n : ℕ) (A' : Entries n k T) (Q' : Entries n n T), A = ⟨n, k, A'⟩ ∧ Q = ⟨n, n, Q'⟩ ∧
        Pp = ⟨n, n, A' * P' * A'.transpose + Q'⟩ := by
  obtain ⟨n, l, A⟩ := A
  subst hP
  refine (Matrix.ensures_mul_entries A _).bind ?_
  rintro _ ⟨_, _, hPeq, rfl⟩
  cases hPeq
  refine (Matrix.returns_transpose _).ensures.bind ?_
  rintro _ rfl
  refine (Matrix.ensures_mul_entries (A * P') _).bind ?_
  rintro _ ⟨_, _, hAt, rfl⟩
  cases hAt
  refine (Matrix.ensures_elementwise_entries (· + ·) _ Q).imp ?_
  rintro _ ⟨Q, rfl, rfl⟩
  exact ⟨n, A, Q, rfl, rfl, rfl⟩

/-! ### The filter -/

section

variable [PartialOrder T] [StarRing T]

/-- The matrix is square and positive semidefinite. -/
def Covariance (A : Matrix T) : Prop :=
  ∃ (n : ℕ) (B : Entries n n T), A = ⟨n, n, B⟩ ∧ B.PosSemidef

structure WellPosed (filter : KalmanFilter T) : Prop where
  Q : Covariance filter.Q
  R : Covariance filter.R
  P : Covariance filter.P

/-- Several measured components do not have an innovation with determinant 1. -/
def Regular (filter : KalmanFilter T) (A : Matrix T) : Prop :=
  ∀ (m n k : ℕ) (A' : Entries n k T) (P : Entries k k T) (Q : Entries n n T) (H : Entries m n T)
    (R : Entries m m T), A = ⟨n, k, A'⟩ → filter.P = ⟨k, k, P⟩ → filter.Q = ⟨n, n, Q⟩ →
    filter.H = ⟨m, n, H⟩ → filter.R = ⟨m, m, R⟩ → 2 ≤ m →
    (innovation H (A' * P * A'.transpose + Q) R).det ≠ 1

variable [TrivialStar T] [AddLeftMono T]

theorem covariance_update {m n : ℕ} {Pp : Entries n n T} {H : Entries m n T} {R : Entries m m T}
    {K : Entries n m T} (hPp : Pp.PosSemidef) (hR : R.PosSemidef)
    (hK : K = 0 ∨ K * innovation H Pp R = Pp * H.transpose) :
    (Pp - K * H * Pp).PosSemidef := by
  rcases hK with rfl | hK
  · rw [Matrix.zero_mul, Matrix.zero_mul, sub_zero]
    exact hPp
  · rw [← corrected_of_gain (isSymm_of_posSemidef hPp) (isSymm_of_posSemidef hR) hK]
    exact posSemidef_corrected hPp hR H K

end

omit [Field T] in
theorem atomic_assignP {value : Calc T (Matrix T)} {filter : KalmanFilter T}
    {C : Matrix T → Prop} (hvalue : Ensures value C) :
    Atomic (assignP value) filter fun _ filter' => ∃ P, filter' = { filter with P := P } ∧ C P := by
  refine (Atomic.eval hvalue).read fun P hP => ?_
  refine Completes.this.atomic.read ?_
  rintro _ rfl
  refine (Atomic.eval (Matrix.ensures_assign _ P)).read ?_
  rintro P ⟨-, rfl⟩
  refine (Completes.modify _).atomic.imp ?_
  rintro _ _ rfl
  exact ⟨P, rfl, hP⟩

omit [Field T] in
theorem completes_copy (filter : KalmanFilter T) :
    Completes (do
      let filter ← this
      eval filter.x.copy : Call T (Matrix T)) filter fun result filter' =>
        filter' = filter ∧ result = filter.x := by
  refine Completes.this.bind ?_
  rintro _ _ ⟨rfl, rfl⟩
  exact Completes.eval (Matrix.returns_copy _)

section

variable [PartialOrder T] [StarRing T] [TrivialStar T] [AddLeftMono T] [DecidableEq T]

/-- One call, whether it returns or throws. -/
theorem WellPosed.leaves_run {filter : KalmanFilter T} (h : filter.WellPosed) {A : Matrix T}
    (hregular : filter.first = false → filter.Regular A) (z : Matrix T) :
    Leaves (run A z) filter WellPosed fun _ => WellPosed := by
  refine Completes.this.leaves.bind ?_
  rintro filter _ ⟨rfl, rfl⟩
  cases hfirst : filter.first with
  | true =>
      simp only [Bool.not_true, Bool.false_eq_true, if_false]
      refine (Completes.modify _).leaves.bind ?_
      rintro _ _ rfl
      refine ((completes_copy _).imp ?_).leaves
      rintro _ _ ⟨rfl, -⟩
      exact ⟨h.Q, h.R, h.P⟩
  | false =>
      simp only [Bool.not_false, if_true]
      obtain ⟨k, P, hP, hPsemi⟩ := h.P
      refine (Leaves.eval (Ensures.trivial _) h).bind ?_
      rintro xp filter ⟨rfl, -⟩
      refine (Leaves.eval (ensures_predict_eq A hP) h).bind ?_
      rintro _ filter ⟨rfl, n, A', Q, rfl, hQ, rfl⟩
      have hPp : (A' * P * A'.transpose + Q).PosSemidef := by
        obtain ⟨_, Q', hQ', hQsemi⟩ := h.Q
        cases hQ.symm.trans hQ'
        exact (posSemidef_conj hPsemi A').add hQsemi
      have hgain := ensures_gain_or_zero (P := A' * P * A'.transpose + Q) filter.H filter.R
        fun m H R hH hR => hregular hfirst m n k A' P Q H R rfl hP hQ hH hR
      refine (Leaves.eval hgain h).bind ?_
      rintro _ filter ⟨rfl, m, H, R, K, hH, hR, rfl, hK⟩
      have hRsemi : R.PosSemidef := by
        obtain ⟨_, R', hR', hRsemi⟩ := h.R
        cases hR.symm.trans hR'
        exact hRsemi
      refine ((atomic_assignX (Ensures.trivial _)).leaves h).bind ?_
      rintro _ _ ⟨x, rfl, -, -⟩
      have hupdate := ensures_update_eq (A' * P * A'.transpose + Q) K H
      rw [← hH] at hupdate
      refine ((atomic_assignP hupdate).leaves ⟨h.Q, h.R, h.P⟩).bind ?_
      rintro _ _ ⟨_, rfl, rfl⟩
      refine ((completes_copy _).imp ?_).leaves
      rintro _ _ ⟨rfl, -⟩
      exact ⟨h.Q, h.R, n, _, rfl, covariance_update hPp hRsemi hK⟩

/-! ### Runs -/

/-- No call of the run is given an innovation of several components with determinant 1. -/
def RegularSteps (filter : KalmanFilter T) : List (Step T) → Prop
  | [] => True
  | step :: steps => (filter.first = false → filter.Regular step.A) ∧
      RegularSteps (run step.A step.z filter step.memory).2 steps

theorem WellPosed.afterSteps {filter : KalmanFilter T} (h : filter.WellPosed)
    {steps : List (Step T)} (hsteps : filter.RegularSteps steps) :
    (filter.afterSteps steps).WellPosed := by
  induction steps generalizing filter with
  | nil => exact h
  | cons step steps ih =>
      exact ih ((h.leaves_run hsteps.1 step.z).snd step.memory) hsteps.2

/-- A filter that was made with positive semidefinite covariances keeps one, in every run whose
innovations of several components do not have determinant 1. -/
theorem covariance_posSemidef {filter : KalmanFilter T} (hQ : Covariance filter.Q)
    (hR : Covariance filter.R) (hP : Covariance filter.P) {steps : List (Step T)}
    (hsteps : filter.RegularSteps steps) : Covariance (filter.afterSteps steps).P :=
  (WellPosed.afterSteps ⟨hQ, hR, hP⟩ hsteps).P

end

/-- Both components are measured; the innovation of the second call has determinant 11. -/
def drifting : KalmanFilter ℚ where
  H := ⟨2, 2, 1⟩
  Q := ⟨2, 2, 1⟩
  R := ⟨2, 2, 1⟩
  x := ⟨2, 1, 0⟩
  P := ⟨2, 2, 1⟩

theorem covariance_posSemidef_drifting : Covariance (drifting.afterSteps
    [⟨⟨2, 2, !![1, 1; 0, 1]⟩, ⟨2, 1, 0⟩, fun _ _ _ => 0⟩,
      ⟨⟨2, 2, !![1, 1; 0, 1]⟩, ⟨2, 1, !![1; 2]⟩, fun _ _ _ => 0⟩]).P := by
  have hone : Covariance (⟨2, 2, 1⟩ : Matrix ℚ) := ⟨2, 1, rfl, Matrix.PosSemidef.one⟩
  refine covariance_posSemidef hone hone hone ⟨fun hfirst => (by cases hfirst), fun _ => ?_, trivial⟩
  intro m n k A' P Q H R hA hP hQ hH hR _
  change (⟨2, 2, 1⟩ : Matrix ℚ) = _ at hP hQ hH hR
  cases hA
  cases hP
  cases hQ
  cases hH
  cases hR
  rw [Matrix.det_fin_two]
  decide +kernel

end KalmanFilter

end CommonLib.Math
