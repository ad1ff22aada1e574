import CommonLib.Verification.Matrix.Inverse
import CommonLib.Verification.Matrix.Shapes
import Mathlib.LinearAlgebra.Matrix.Symmetric

/-! # Symmetric matrices

What the operations return for matrices of any size, where they return, and that `inverse` keeps a
matrix symmetric in all of its cases. -/

namespace CommonLib.Math

open Program

universe u

variable {T : Type u}

namespace Matrix

/-- The matrix is square, and equal to its mirror image. -/
def Symmetric (A : Matrix T) : Prop :=
  ∃ (n : ℕ) (B : Entries n n T), A = ⟨n, n, B⟩ ∧ B.IsSymm

/-! ### Results -/

theorem ensures_get_never (A : Matrix T) {r c : ℕ} (hc : A.col ≤ c) :
    Ensures (A.get r c) fun _ => False := by
  have hat : A.at? r c = none := dif_neg fun h => Nat.not_lt.mpr hc h.2
  simp only [get, hat]
  exact Ensures.throw _

/-- Without a summand the product is not computed, unless it has no entry. -/
theorem ensures_mul_eq [NonUnitalNonAssocSemiring T] {l m n : ℕ} (A : Entries l m T)
    (B : Entries m n T) : Ensures (mul ⟨l, m, A⟩ ⟨m, n, B⟩) (· = ⟨l, n, A * B⟩) := by
  by_cases hm : 0 < m
  · exact (returns_mul A B hm).ensures
  obtain rfl : m = 0 := Nat.eq_zero_of_not_pos hm
  by_cases hentry : 0 < l ∧ 0 < n
  · rw [mul, if_neg (by simp)]
    refine (Ensures.trivial _).bind fun rtn _ => ?_
    refine Ensures.range_never hentry.1 ?_
    dsimp only
    refine Ensures.range_never hentry.2 ?_
    refine Ensures.bind (P := fun _ => False) ?_ fun _ hnever => hnever.elim
    exact (ensures_get_never ⟨l, 0, A⟩ (Nat.le_refl 0)).bind fun _ hnever => hnever.elim
  · refine (ensures_mul ⟨l, 0, A⟩ ⟨0, n, B⟩).imp fun R hR => ?_
    obtain ⟨C, rfl⟩ := Shape.exists_entries ⟨hR.2.1, hR.2.2⟩
    congr
    ext i j
    exact absurd ⟨i.pos, j.pos⟩ hentry

theorem ensures_mul_entries [NonUnitalNonAssocSemiring T] {l m : ℕ} (A : Entries l m T)
    (B : Matrix T) : Ensures (mul ⟨l, m, A⟩ B) fun R =>
      ∃ (n : ℕ) (B' : Entries m n T), B = ⟨m, n, B'⟩ ∧ R = ⟨l, n, A * B'⟩ := by
  obtain ⟨k, n, B⟩ := B
  by_cases hrow : k = m
  · subst hrow
    exact (ensures_mul_eq A B).imp fun R hR => ⟨n, B, rfl, hR⟩
  · exact (mul_fails hrow).ensures

theorem ensures_elementwise_entries (op : T → T → T) {m n : ℕ} (A : Entries m n T) (B : Matrix T) :
    Ensures (elementwise op ⟨m, n, A⟩ B) fun R =>
      ∃ B' : Entries m n T, B = ⟨m, n, B'⟩ ∧ R = ⟨m, n, fun i j => op (A i j) (B' i j)⟩ := by
  by_cases hsame : B.row = m ∧ B.col = n
  · obtain ⟨B', rfl⟩ := Shape.exists_entries ⟨hsame.1, hsame.2⟩
    exact (returns_elementwise op A B').ensures.imp fun R hR => ⟨B', rfl, hR⟩
  · exact (elementwise_fails op hsame).ensures

end Matrix

/-! ### The inverse -/

theorem isSymm_of_empty (A : Entries 0 0 T) : A.IsSymm :=
  Matrix.IsSymm.ext fun i => i.elim0

section

variable [Field T] {n : ℕ}

theorem isSymm_corner {A : Entries n n T} (hA : A.IsSymm) : (corner A).IsSymm := by
  apply Matrix.IsSymm.ext
  intro i j
  by_cases h : i.val = 0 ∧ j.val = 0
  · rw [corner, corner, if_pos h, if_pos h.symm]
  · rw [corner, corner, if_neg h, if_neg fun h' => h h'.symm, hA.apply]

theorem ensures_inverse_isSymm [DecidableEq T] {A : Entries n n T} (hA : A.IsSymm) :
    Ensures (inverse ⟨n, n, A⟩) fun R => ∃ V : Entries n n T, R = ⟨n, n, V⟩ ∧ V.IsSymm := by
  rcases Nat.eq_zero_or_pos n with rfl | hn
  · refine (Matrix.ensures_inverse (Matrix.shape_self _)).imp fun R hR => ?_
    obtain ⟨V, rfl⟩ := hR.exists_entries
    exact ⟨V, rfl, isSymm_of_empty V⟩
  by_cases hzero : A.det = 0
  · exact (inverse_fails hn hzero).ensures
  by_cases hone : A.det = 1
  · exact (returns_inverse_of_one hn hone).ensures.imp fun R hR => ⟨_, hR, isSymm_corner hA⟩
  by_cases hsize : n = 1
  · subst hsize
    exact (returns_inverse_single hzero hone).ensures.imp
      fun R hR => ⟨_, hR, Matrix.isSymm_zero⟩
  · exact (returns_inverse (by omega) hzero hone).ensures.imp fun R hR => ⟨_, hR, hA.inv⟩

theorem isSymm_mul_mul_transpose {m : ℕ} (A : Entries m n T) {B : Entries n n T} (hB : B.IsSymm) :
    (A * B * A.transpose).IsSymm := by
  rw [Matrix.IsSymm, Matrix.transpose_mul, Matrix.transpose_mul, Matrix.transpose_transpose, hB.eq,
    Matrix.mul_assoc]

end

end CommonLib.Math
