import CommonLib.Model.LowPassFilter
import Mathlib.Algebra.Order.Ring.Abs
import Mathlib.Algebra.Order.Ring.Rat
import Mathlib.Order.Interval.Set.Basic
import Mathlib.Tactic.Linarith
import Mathlib.Tactic.NormNum
import Mathlib.Tactic.Ring

/-! # The means of the low-pass filter

Each value is a mean of the measurements so far: the first one and what comes behind it, where a
later measurement takes its share from all earlier ones alike. -/

namespace CommonLib.Math.LowPassFilter

variable {T : Type*}

/-! ## Running means -/

section Mean

variable [CommRing T]

/-- A measurement and the mean before it, as `_alpha` weighs them. -/
def mix (alpha mean x : T) : T :=
  alpha * mean + (1 - alpha) * x

theorem mix_sub (alpha mean mean' x : T) :
    mix alpha mean x - mix alpha mean' x = alpha * (mean - mean') := by
  rw [mix, mix]
  ring

/-- The measurements in common take over, one factor each. -/
theorem foldl_mix_sub (alpha mean mean' : T) (xs : List T) :
    xs.foldl (mix alpha) mean - xs.foldl (mix alpha) mean' =
      alpha ^ xs.length * (mean - mean') := by
  induction xs generalizing mean mean' with
  | nil => simp
  | cons x xs ih =>
      rw [List.foldl_cons, List.foldl_cons, ih, mix_sub, List.length_cons, pow_succ, mul_assoc]

theorem afterRuns_of_started (alpha mean : T) (xs : List T) :
    afterRuns ⟨mean, alpha, false⟩ xs = ⟨xs.foldl (mix alpha) mean, alpha, false⟩ := by
  induction xs generalizing mean with
  | nil => rfl
  | cons x xs ih => exact ih (mix alpha mean x)

/-- The first measurement replaces the initial value. -/
theorem run_new (init alpha x : T) : (new init alpha).run x = (x, ⟨x, alpha, false⟩) := by
  have hsame : alpha * x + (1 - alpha) * x = x := by ring
  simp [run, start, smooth, new, hsame]

theorem afterRuns_new (init alpha x : T) (xs : List T) :
    (new init alpha).afterRuns (x :: xs) = ⟨xs.foldl (mix alpha) x, alpha, false⟩ := by
  rw [← afterRuns_of_started, afterRuns, List.foldl_cons, run_new]
  rfl

/-- What a call of `run` returns. -/
theorem run_afterRuns (init alpha x y : T) (xs : List T) :
    (((new init alpha).afterRuns (x :: xs)).run y).1 = (xs ++ [y]).foldl (mix alpha) x := by
  rw [afterRuns_new, List.foldl_append]
  rfl

end Mean

/-! ## Ranges -/

section Range

variable [CommRing T] [LinearOrder T] [IsStrictOrderedRing T] {alpha lo hi : T}

theorem mix_mem_Icc (halpha : 0 ≤ alpha) (halpha' : alpha ≤ 1) {mean x : T}
    (hmean : mean ∈ Set.Icc lo hi) (hx : x ∈ Set.Icc lo hi) : mix alpha mean x ∈ Set.Icc lo hi := by
  obtain ⟨hmeanlo, hmeanhi⟩ := hmean
  obtain ⟨hxlo, hxhi⟩ := hx
  have hrest : 0 ≤ 1 - alpha := sub_nonneg.mpr halpha'
  constructor
  · calc lo = alpha * lo + (1 - alpha) * lo := by ring
      _ ≤ mix alpha mean x :=
          add_le_add (mul_le_mul_of_nonneg_left hmeanlo halpha) (mul_le_mul_of_nonneg_left hxlo hrest)
  · calc mix alpha mean x
        ≤ alpha * hi + (1 - alpha) * hi :=
          add_le_add (mul_le_mul_of_nonneg_left hmeanhi halpha) (mul_le_mul_of_nonneg_left hxhi hrest)
      _ = hi := by ring

theorem foldl_mix_mem_Icc (halpha : 0 ≤ alpha) (halpha' : alpha ≤ 1) {mean : T} {xs : List T}
    (hmean : mean ∈ Set.Icc lo hi) (hxs : ∀ x ∈ xs, x ∈ Set.Icc lo hi) :
    xs.foldl (mix alpha) mean ∈ Set.Icc lo hi := by
  induction xs generalizing mean with
  | nil => exact hmean
  | cons x xs ih =>
      have hnext := mix_mem_Icc halpha halpha' hmean (hxs x List.mem_cons_self)
      exact ih hnext fun y hy => hxs y (List.mem_cons_of_mem x hy)

/-- The values stay in every range of the measurements, whatever these are, exactly for a weight from
zero to one. -/
theorem run_mem_range_iff (init alpha : T) :
    (∀ (lo hi : T) (xs : List T) (x : T), (∀ y ∈ xs ++ [x], y ∈ Set.Icc lo hi) →
      (((new init alpha).afterRuns xs).run x).1 ∈ Set.Icc lo hi) ↔ 0 ≤ alpha ∧ alpha ≤ 1 := by
  constructor
  · intro h
    have hstep := h 0 1 [0] 1 (by simp)
    rw [run_afterRuns] at hstep
    obtain ⟨hlow, hhigh⟩ := hstep
    simp only [List.nil_append, List.foldl_cons, List.foldl_nil, mix, mul_zero, zero_add, mul_one]
      at hlow hhigh
    exact ⟨by linarith, by linarith⟩
  · rintro ⟨halpha, halpha'⟩ lo hi xs x hall
    cases xs with
    | nil =>
        change ((new init alpha).run x).1 ∈ Set.Icc lo hi
        rw [run_new]
        exact hall x (by simp)
    | cons y ys =>
        rw [run_afterRuns]
        exact foldl_mix_mem_Icc halpha halpha' (hall y (by simp))
          fun z hz => hall z (List.mem_cons_of_mem y hz)

/-- A weight of two overshoots. -/
theorem run_mem_range_iff_two :
    ¬ ∀ (lo hi : ℚ) (xs : List ℚ) (x : ℚ), (∀ y ∈ xs ++ [x], y ∈ Set.Icc lo hi) →
      (((new 5 2).afterRuns xs).run x).1 ∈ Set.Icc lo hi :=
  (run_mem_range_iff 5 2).not.mpr (by norm_num)

/-- What two filters have seen before is forgotten: measurements that they have in common bring
their values together, by the weight each time. -/
theorem run_forgets (init init' : T) (halpha : 0 ≤ alpha) (halpha' : alpha ≤ 1)
    {us vs : List T} (hus : us ≠ []) (hvs : vs ≠ []) (hu : ∀ u ∈ us, u ∈ Set.Icc lo hi)
    (hv : ∀ v ∈ vs, v ∈ Set.Icc lo hi) (xs : List T) (x : T) :
    |(((new init alpha).afterRuns (us ++ xs)).run x).1 -
        (((new init' alpha).afterRuns (vs ++ xs)).run x).1| ≤
      alpha ^ (xs.length + 1) * (hi - lo) := by
  obtain ⟨u, us, rfl⟩ := List.exists_cons_of_ne_nil hus
  obtain ⟨v, vs, rfl⟩ := List.exists_cons_of_ne_nil hvs
  have hsplit : ∀ y ys, (ys ++ xs ++ [x]).foldl (mix alpha) y =
      (xs ++ [x]).foldl (mix alpha) (ys.foldl (mix alpha) y) := by
    intro y ys
    rw [List.append_assoc, List.foldl_append]
  rw [List.cons_append, List.cons_append, run_afterRuns, run_afterRuns, hsplit, hsplit,
    foldl_mix_sub, abs_mul, abs_pow, abs_of_nonneg halpha, List.length_append, List.length_singleton]
  refine mul_le_mul_of_nonneg_left ?_ (pow_nonneg halpha _)
  obtain ⟨hlow, hhigh⟩ := foldl_mix_mem_Icc halpha halpha' (hu u List.mem_cons_self)
    fun z hz => hu z (List.mem_cons_of_mem u hz)
  obtain ⟨hlow', hhigh'⟩ := foldl_mix_mem_Icc halpha halpha' (hv v List.mem_cons_self)
    fun z hz => hv z (List.mem_cons_of_mem v hz)
  exact abs_sub_le_of_le_of_le hlow hhigh hlow' hhigh'

end Range

/-- A step from 0 to 8 with the weight 1/2, and a filter that has seen nothing but 8. -/
theorem run_forgets_step :
    |(((new 5 (1 / 2)).afterRuns ([0] ++ [8, 8])).run 8).1 -
        (((new 7 (1 / 2)).afterRuns ([8] ++ [8, 8])).run 8).1| ≤ (1 / 2 : ℚ) ^ (2 + 1) * (8 - 0) :=
  run_forgets 5 7 (by norm_num) (by norm_num) (by simp) (by simp) (by simp) (by simp) [8, 8] 8

end CommonLib.Math.LowPassFilter
