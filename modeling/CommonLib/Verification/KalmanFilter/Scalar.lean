import CommonLib.Model.ScalarKalmanFilter
import Mathlib.Algebra.Field.Rat
import Mathlib.Algebra.Order.Ring.Rat
import Mathlib.Order.Interval.Set.UnorderedInterval
import Mathlib.Tactic.FieldSimp
import Mathlib.Tactic.Linarith
import Mathlib.Tactic.Positivity
import Mathlib.Tactic.Ring

/-! # The filter of numbers over whole runs

The gain of a variance `P` is the share of `P` in `P + R`. It grows with `P` and stays below one, and
the updated variance is `R` times the gain. -/

namespace CommonLib.Math.ScalarKalmanFilter

variable {T : Type*} [Field T] [LinearOrder T]

/-- Process noise and variance are not negative, and the measurement noise is positive. -/
structure WellPosed (filter : ScalarKalmanFilter T) : Prop where
  Q : 0 ≤ filter.Q
  R : 0 < filter.R
  P : 0 ≤ filter.P

/-- The filters differ in their variances only, and the second one's is not smaller. -/
structure Below (filter other : ScalarKalmanFilter T) : Prop where
  wellPosed : filter.WellPosed
  Q : filter.Q = other.Q
  R : filter.R = other.R
  P : filter.P ≤ other.P

variable {filter other : ScalarKalmanFilter T}

theorem Below.wellPosed_right (h : filter.Below other) : other.WellPosed :=
  ⟨h.Q ▸ h.wellPosed.Q, h.R ▸ h.wellPosed.R, h.wellPosed.P.trans h.P⟩

variable [IsStrictOrderedRing T]

/-! ### One filter -/

theorem WellPosed.predict (h : filter.WellPosed) : filter.predict.WellPosed :=
  ⟨h.Q, h.R, add_nonneg h.P h.Q⟩

theorem WellPosed.divisor_pos (h : filter.WellPosed) : 0 < filter.P + filter.R :=
  add_pos_of_nonneg_of_pos h.P h.R

theorem WellPosed.gain_nonneg (h : filter.WellPosed) : 0 ≤ filter.gain :=
  div_nonneg h.P h.divisor_pos.le

theorem WellPosed.gain_lt_one (h : filter.WellPosed) : filter.gain < 1 := by
  rw [gain, div_lt_one h.divisor_pos]
  exact lt_add_of_pos_right filter.P h.R

/-- What is left of a variance is the measurement noise times the gain. -/
theorem WellPosed.update_gain (h : filter.WellPosed) :
    (filter.update filter.gain).P = filter.R * filter.gain := by
  have hdivisor := h.divisor_pos.ne'
  rw [update, gain]
  field_simp
  ring

theorem WellPosed.update (h : filter.WellPosed) :
    (filter.update filter.gain).WellPosed ∧ (filter.update filter.gain).P ≤ filter.R := by
  have hP : 0 ≤ (filter.update filter.gain).P := by
    rw [h.update_gain]
    exact mul_nonneg h.R.le h.gain_nonneg
  refine ⟨⟨h.Q, h.R, hP⟩, ?_⟩
  rw [h.update_gain]
  exact mul_le_of_le_one_right h.R.le h.gain_lt_one.le

/-- A gain between 0 and 1 gives a value between the two that it weighs. -/
theorem estimate_mem_uIcc {K : T} (hK : 0 ≤ K) (hK' : K ≤ 1) (measurement prediction : T) :
    estimate K measurement prediction ∈ Set.uIcc prediction measurement := by
  unfold estimate
  rcases le_total prediction measurement with hle | hle
  · rw [Set.uIcc_of_le hle]
    constructor <;> nlinarith
  · rw [Set.uIcc_of_ge hle]
    constructor <;> nlinarith

/-! ### Two filters -/

theorem Below.predict (h : filter.Below other) : filter.predict.Below other.predict :=
  ⟨h.wellPosed.predict, h.Q, h.R, add_le_add h.P h.Q.le⟩

theorem Below.gain_le (h : filter.Below other) : filter.gain ≤ other.gain := by
  rw [gain, gain, div_le_div_iff₀ h.wellPosed.divisor_pos h.wellPosed_right.divisor_pos, ← h.R]
  have hmul : filter.P * filter.R ≤ other.P * filter.R :=
    mul_le_mul_of_nonneg_right h.P h.wellPosed.R.le
  linarith [mul_comm filter.P other.P]

theorem Below.update (h : filter.Below other) :
    (filter.update filter.gain).Below (other.update other.gain) := by
  refine ⟨h.wellPosed.update.1, h.Q, h.R, ?_⟩
  rw [h.wellPosed.update_gain, h.wellPosed_right.update_gain, ← h.R]
  exact mul_le_mul_of_nonneg_left h.gain_le h.wellPosed.R.le

/-! ### Runs -/

theorem WellPosed.run (h : filter.WellPosed) (measurement prediction : T) :
    (run measurement prediction filter).2.WellPosed :=
  h.predict.update.1

theorem WellPosed.afterRuns (h : filter.WellPosed) (calls : List (T × T)) :
    (filter.afterRuns calls).WellPosed ∧ (filter.afterRuns calls).R = filter.R := by
  induction calls generalizing filter with
  | nil => exact ⟨h, rfl⟩
  | cons call calls ih => exact ih (h.run call.1 call.2)

theorem Below.afterRuns (h : filter.Below other) {calls calls' : List (T × T)}
    (hlen : calls.length = calls'.length) :
    (filter.afterRuns calls).Below (other.afterRuns calls') := by
  induction calls generalizing filter other calls' with
  | nil =>
      obtain rfl := List.eq_nil_of_length_eq_zero hlen.symm
      exact h
  | cons call calls ih =>
      cases calls' with
      | nil => cases hlen
      | cons call' calls' => exact ih h.predict.update (Nat.succ.inj hlen)

/-- In every call the divisor is positive, the gain in `[0, 1)`, the new variance in `[0, R]` and the
estimate between the prediction and the measurement. A greater initial variance gives greater
variances and gains throughout. -/
theorem well_behaved (filter : ScalarKalmanFilter T) (hQ : 0 ≤ filter.Q) (hR : 0 < filter.R)
    (hP : 0 ≤ filter.P) :
    (∀ (calls : List (T × T)) (measurement prediction : T),
      let before := filter.afterRuns calls
      let call := run measurement prediction before
      before.predict.P + before.predict.R ≠ 0 ∧ before.predict.gain ∈ Set.Ico 0 1 ∧
        call.2.P ∈ Set.Icc 0 filter.R ∧ call.1 ∈ Set.uIcc prediction measurement) ∧
    ∀ P, filter.P ≤ P → ∀ calls calls' : List (T × T), calls.length = calls'.length →
      let smaller := filter.afterRuns calls
      let greater := { filter with P := P }.afterRuns calls'
      smaller.P ≤ greater.P ∧ smaller.predict.P ≤ greater.predict.P ∧
        smaller.predict.gain ≤ greater.predict.gain := by
  have hposed : filter.WellPosed := ⟨hQ, hR, hP⟩
  constructor
  · intro calls measurement prediction before call
    obtain ⟨hbefore, hR'⟩ := hposed.afterRuns calls
    have hpredict := hbefore.predict
    have hupdate := hpredict.update
    refine ⟨hpredict.divisor_pos.ne', ⟨hpredict.gain_nonneg, hpredict.gain_lt_one⟩,
      ⟨hupdate.1.P, hupdate.2.trans hR'.le⟩, ?_⟩
    exact estimate_mem_uIcc hpredict.gain_nonneg hpredict.gain_lt_one.le measurement prediction
  · intro P hle calls calls' hlen smaller greater
    have hbelow : filter.Below { filter with P := P } := ⟨hposed, rfl, rfl, hle⟩
    have hafter := hbelow.afterRuns hlen
    exact ⟨hafter.P, hafter.predict.P, hafter.predict.gain_le⟩

theorem well_behaved_unit :
    (run (1 : ℚ) 0 ⟨1, 2, 0⟩).1 ∈ Set.uIcc (0 : ℚ) 1 ∧
      (afterRuns (⟨1, 2, 0⟩ : ScalarKalmanFilter ℚ) [(1, 0)]).P ≤
        (afterRuns (⟨1, 2, 3⟩ : ScalarKalmanFilter ℚ) [(5, 4)]).P := by
  have h := well_behaved (⟨1, 2, 0⟩ : ScalarKalmanFilter ℚ) (by decide) (by decide) (by decide)
  exact ⟨(h.1 [] 1 0).2.2.2, (h.2 3 (by decide) [(1, 0)] [(5, 4)] rfl).1⟩

end CommonLib.Math.ScalarKalmanFilter
