import CommonLib.Verification.Matrix.Adjugate
import Mathlib.Algebra.Field.Rat
import Mathlib.LinearAlgebra.Matrix.NonsingularInverse
import Mathlib.Tactic.LinearCombination
import Mathlib.Tactic.NormNum

/-! # The inverse

`inverse` divides the adjugate by the determinant, except where the determinant is 1: there it
returns the matrix itself with its first entry set to 1. What `cofactor` finds for a matrix of
size 1 is 0. -/

namespace CommonLib.Math

open Program

universe u

variable {T : Type u} [Field T] {n : ℕ}

/-! ### Setting the first entry -/

/-- The matrix with its first entry set to 1. -/
def corner (A : Entries n n T) : Entries n n T :=
  fun i j => if i.val = 0 ∧ j.val = 0 then 1 else A i j

theorem corner_first (A : Entries (n + 1) (n + 1) T) : corner A 0 0 = 1 :=
  if_pos ⟨rfl, rfl⟩

theorem corner_of_first {A : Entries (n + 1) (n + 1) T} (h : A 0 0 = 1) : corner A = A := by
  ext i j
  unfold corner
  split
  · rename_i hij
    have hi : i = 0 := Fin.ext hij.1
    have hj : j = 0 := Fin.ext hij.2
    rw [hi, hj, h]
  · rfl

theorem corner_eq_updateRow (A : Entries (n + 1) (n + 1) T) :
    corner A = Matrix.updateRow A 0 (A 0 + (1 - A 0 0) • Pi.single 0 1) := by
  ext i j
  by_cases hi : i = 0
  · subst hi
    rw [Matrix.updateRow_self]
    by_cases hj : j = 0
    · subst hj
      rw [corner_first]
      simp
    · have hval : j.val ≠ 0 := fun h => hj (Fin.ext h)
      simp [corner, hj, hval]
  · have hval : i.val ≠ 0 := fun h => hi (Fin.ext h)
    rw [Matrix.updateRow_ne hi]
    simp [corner, hval]

/-- Setting the first entry changes the determinant by a multiple of its cofactor. -/
theorem det_corner (A : Entries (n + 1) (n + 1) T) :
    (corner A).det = A.det + (1 - A 0 0) * A.adjugate 0 0 := by
  rw [corner_eq_updateRow, Matrix.det_updateRow_add, Matrix.updateRow_eq_self,
    Matrix.det_updateRow_smul, Matrix.adjugate_apply]

/-- With determinant 1, setting the first entry inverts a matrix only if that entry is 1. -/
theorem corner_inverts {A : Entries (n + 1) (n + 1) T} (hdet : A.det = 1)
    (h : A * corner A = 1) : A 0 0 = 1 ∧ A * A = 1 := by
  have hadj : A.adjugate = corner A := by
    have hleft := Matrix.adjugate_mul A
    rw [hdet, one_smul] at hleft
    calc
      A.adjugate = A.adjugate * (A * corner A) := by rw [h, Matrix.mul_one]
      _ = corner A := by rw [← Matrix.mul_assoc, hleft, Matrix.one_mul]
  have hcorner : (corner A).det = 1 := by
    have hprod := congrArg Matrix.det h
    rw [Matrix.det_mul, hdet, one_mul, Matrix.det_one] at hprod
    exact hprod
  have hfirst : A 0 0 = 1 := by
    rw [det_corner, hdet, hadj, corner_first, mul_one] at hcorner
    linear_combination -hcorner
  rw [corner_of_first hfirst] at h
  exact ⟨hfirst, h⟩

/-! ### The three cases -/

theorem cofactor_single (A : Entries 1 1 T) : Returns (cofactor ⟨1, 1, A⟩) ⟨1, 1, 0⟩ := by
  refine (Matrix.meets_alloc 1 1).bind fun new hnew => ?_
  refine (Matrix.meets_alloc 1 1).bind fun target htarget => ?_
  refine Meets.bind (Matrix.meets_fill_in (B := 0) Cofactors.cofactor_mat (fun _ => True)
    htarget.1 htarget.2 trivial ?_) ?_
  · intro r c t hr hc htrow htcol _ _
    obtain rfl : r = 0 := Nat.lt_one_iff.mp hr
    obtain rfl : c = 0 := Nat.lt_one_iff.mp hc
    -- nothing is left of the matrix, and the determinant of nothing is 0 here
    have hpack : Returns (pack ⟨1, 1, A⟩ 0 0 t.new_minor_mat) t.new_minor_mat :=
      fun memory => ⟨_, memory, rfl, rfl⟩
    have hdet : Returns (determine t.new_minor_mat 0) 0 :=
      (Matrix.meets_alloc _ _).bind fun _ _ => Meets.pure rfl
    refine Meets.then hpack ?_
    refine Meets.then hdet ?_
    refine Meets.then (Matrix.returns_set t.cofactor_mat _ (htrow ▸ hr) (htcol ▸ hc)) ?_
    rw [mul_zero]
    exact Meets.pure ⟨trivial, rfl⟩
  · intro s hs
    rw [hs]
    exact Matrix.returns_transpose ⟨1, 1, 0⟩

theorem adjugate_div (A : Entries n n T) : (fun i j => A.adjugate i j / A.det) = A⁻¹ := by
  rw [Matrix.inv_def, Ring.inverse_eq_inv]
  funext i j
  rw [Matrix.smul_apply, smul_eq_mul, div_eq_inv_mul]

section

variable [DecidableEq T]

theorem inverse_fails {A : Entries n n T} (hn : 0 < n) (hdet : A.det = 0) :
    Fails (inverse ⟨n, n, A⟩) (.outOfRange "Has no inverse") := by
  refine Meets.bind_fails (determine_all A hn) ?_
  rintro _ rfl
  rw [if_pos hdet]
  exact Fails.throw _

theorem returns_inverse_of_one {A : Entries n n T} (hn : 0 < n) (hdet : A.det = 1) :
    Returns (inverse ⟨n, n, A⟩) ⟨n, n, corner A⟩ := by
  refine Meets.then (determine_all A hn) ?_
  rw [if_neg (by rw [hdet]; exact one_ne_zero), if_pos hdet]
  refine Meets.then (Matrix.returns_copy ⟨n, n, A⟩) ?_
  exact Matrix.returns_set ⟨n, n, A⟩ 1 hn hn

/-- The general case divides what `cofactor` returns. -/
theorem returns_inverse_of_cofactor {A C : Entries n n T} (hn : 0 < n) (hzero : A.det ≠ 0)
    (hone : A.det ≠ 1) (hC : Returns (cofactor ⟨n, n, A⟩) ⟨n, n, C⟩) :
    Returns (inverse ⟨n, n, A⟩) ⟨n, n, fun i j => C i j / A.det⟩ := by
  refine Meets.then (determine_all A hn) ?_
  rw [if_neg hzero, if_neg hone]
  exact Meets.then hC (Matrix.returns_div A.det C)

theorem returns_inverse {A : Entries n n T} (hn : 2 ≤ n) (hzero : A.det ≠ 0) (hone : A.det ≠ 1) :
    Returns (inverse ⟨n, n, A⟩) ⟨n, n, A⁻¹⟩ := by
  rw [← adjugate_div]
  exact returns_inverse_of_cofactor (by omega) hzero hone (returns_cofactor A hn)

theorem returns_inverse_single {A : Entries 1 1 T} (hzero : A.det ≠ 0) (hone : A.det ≠ 1) :
    Returns (inverse ⟨1, 1, A⟩) ⟨1, 1, 0⟩ := by
  have hreturns := returns_inverse_of_cofactor Nat.one_pos hzero hone (cofactor_single A)
  simp only [Matrix.zero_apply, zero_div] at hreturns
  exact hreturns

/-! ### Where it is an inverse -/

/-- `inverse` throws exactly on singular matrices, and returns a two-sided inverse of the others. -/
structure Inverts (A : Entries n n T) : Prop where
  throws : ∀ memory,
    (∃ message, inverse ⟨n, n, A⟩ memory = .error (.outOfRange message)) ↔ A.det = 0
  inverts : A.det ≠ 0 → ∃ C, Returns (inverse ⟨n, n, A⟩) ⟨n, n, C⟩ ∧ A * C = 1 ∧ C * A = 1

theorem inverts_of_singular {A : Entries n n T} (hn : 0 < n) (hdet : A.det = 0) : Inverts A where
  throws memory := ⟨fun _ => hdet, fun _ => ⟨_, inverse_fails hn hdet memory⟩⟩
  inverts hne := absurd hdet hne

/-- What is returned for a regular matrix decides. -/
theorem inverts_iff_of_returns {A C : Entries n n T} (hdet : A.det ≠ 0)
    (hreturns : Returns (inverse ⟨n, n, A⟩) ⟨n, n, C⟩) : Inverts A ↔ A * C = 1 := by
  constructor
  · intro h
    obtain ⟨D, hD, hright, -⟩ := h.inverts hdet
    cases hreturns.unique hD
    exact hright
  · intro hright
    refine ⟨fun memory => ⟨?_, fun hzero => absurd hzero hdet⟩, fun _ => ?_⟩
    · rintro ⟨message, hthrown⟩
      exact absurd hthrown (hreturns.ne_error memory)
    · exact ⟨C, hreturns, hright, mul_eq_one_comm.mp hright⟩

/-- `inverse` is right except for matrices with determinant 1 that are not their own inverse or do
not begin with 1, and for matrices of size 1 with an entry other than 0 and 1. -/
theorem inverts_iff (A : Entries n n T) (hn : 0 < n) :
    Inverts A ↔ (A.det = 1 → A ⟨0, hn⟩ ⟨0, hn⟩ = 1 ∧ A * A = 1) ∧
      (n = 1 → A.det = 0 ∨ A.det = 1) := by
  obtain ⟨m, rfl⟩ : ∃ m, n = m + 1 := ⟨n - 1, by omega⟩
  by_cases hzero : A.det = 0
  · have hone : A.det ≠ 1 := by
      rw [hzero]
      exact zero_ne_one
    exact ⟨fun _ => ⟨fun h => absurd h hone, fun _ => .inl hzero⟩,
      fun _ => inverts_of_singular hn hzero⟩
  by_cases hone : A.det = 1
  · rw [inverts_iff_of_returns hzero (returns_inverse_of_one hn hone)]
    constructor
    · intro h
      exact ⟨fun _ => corner_inverts hone h, fun _ => .inr hone⟩
    · rintro ⟨hself, -⟩
      obtain ⟨hfirst, hsquare⟩ := hself hone
      rw [corner_of_first hfirst]
      exact hsquare
  cases m with
  | zero =>
      rw [inverts_iff_of_returns hzero (returns_inverse_single hzero hone), Matrix.mul_zero]
      constructor
      · intro h
        exact absurd h zero_ne_one
      · rintro ⟨-, hsize⟩
        exact ((hsize rfl).elim hzero hone).elim
  | succ m =>
      rw [inverts_iff_of_returns hzero (returns_inverse (by omega) hzero hone)]
      constructor
      · intro _
        exact ⟨fun h => absurd h hone, fun h => by omega⟩
      · intro _
        exact Matrix.mul_nonsing_inv A (isUnit_iff_ne_zero.mpr hzero)

end

theorem inverts_swap : Inverts (!![0, 1; 1, 0] : Entries 2 2 ℚ) := by
  have hdet : (!![0, 1; 1, 0] : Entries 2 2 ℚ).det = -1 := by
    rw [Matrix.det_fin_two_of]
    norm_num
  refine (inverts_iff _ Nat.two_pos).mpr ⟨fun h => ?_, fun h => by omega⟩
  rw [hdet] at h
  norm_num at h

/-- A shear has determinant 1, and is returned as it is. -/
theorem inverse_shear : ¬ Inverts (!![1, 1; 0, 1] : Entries 2 2 ℚ) := by
  have hdet : (!![1, 1; 0, 1] : Entries 2 2 ℚ).det = 1 := by
    rw [Matrix.det_fin_two_of]
    norm_num
  have hreturns := returns_inverse_of_one Nat.two_pos hdet
  rw [inverts_iff_of_returns (by rw [hdet]; exact one_ne_zero) hreturns, corner_of_first rfl]
  intro h
  have hentry := congrFun (congrFun h 0) 1
  simp [Matrix.mul_apply, Fin.sum_univ_two] at hentry

end CommonLib.Math
