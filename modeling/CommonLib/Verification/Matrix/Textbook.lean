import CommonLib.Verification.Matrix.Operators
import Mathlib.Algebra.Field.Rat

/-! # Operators against the textbook

Sums, differences, products, transposes and quotients have the right size and entries for all
matrices. A scalar multiple is made with rows and columns exchanged, so it is right for square
matrices only. -/

namespace CommonLib.Math

open Program

universe u

variable {T : Type u}

namespace Matrix

/-- The entries of a matrix whose size is known. -/
def entries (A : Matrix T) {m n : ℕ} (hrow : A.row = m) (hcol : A.col = n) : Entries m n T :=
  fun i j => A.mat (Fin.cast hrow.symm i) (Fin.cast hcol.symm j)

/-- The operators throw exactly where the sizes do not fit, return the textbook result otherwise,
and obey two textbook laws. -/
structure Textbook [Field T] (A B : Matrix T) (scalar : T) : Prop where
  add : ∀ (hrow : B.row = A.row) (hcol : B.col = A.col),
    Returns (add A B) ⟨A.row, A.col, A.mat + B.entries hrow hcol⟩
  add_throws : ¬ (B.row = A.row ∧ B.col = A.col) →
    Fails (Matrix.add A B) (.outOfRange "Size not matched.")
  sub : ∀ (hrow : B.row = A.row) (hcol : B.col = A.col),
    Returns (sub A B) ⟨A.row, A.col, A.mat - B.entries hrow hcol⟩
  sub_throws : ¬ (B.row = A.row ∧ B.col = A.col) →
    Fails (Matrix.sub A B) (.outOfRange "Size not matched.")
  mul : ∀ hrow : B.row = A.col, Returns (mul A B) ⟨A.row, B.col, A.mat * B.entries hrow rfl⟩
  mul_throws : B.row ≠ A.col → Fails (Matrix.mul A B) (.outOfRange "Size not matched.")
  transpose : Returns (transpose A) ⟨A.col, A.row, A.mat.transpose⟩
  smul : Returns (smul scalar A) ⟨A.row, A.col, scalar • A.mat⟩
  div : Returns (div A scalar) ⟨A.row, A.col, fun i j => A.mat i j / scalar⟩
  transpose_mul : B.row = A.col → ∃ R,
    Returns (do
      let product ← Matrix.mul A B
      product.transpose) R ∧
    Returns (do
      let b ← B.transpose
      let a ← A.transpose
      Matrix.mul b a) R
  smul_mul : B.row = A.col → ∃ R,
    Returns (do
      let product ← Matrix.mul A B
      Matrix.smul scalar product) R ∧
    Returns (do
      let a ← Matrix.smul scalar A
      Matrix.mul a B) R

variable [Field T]

theorem transpose_mul_returns {l m n : ℕ} (A : Entries l m T) (B : Entries m n T) (hm : 0 < m) :
    Returns (do
      let product ← mul ⟨l, m, A⟩ ⟨m, n, B⟩
      product.transpose) ⟨n, l, (A * B).transpose⟩ ∧
    Returns (do
      let b ← transpose ⟨m, n, B⟩
      let a ← transpose ⟨l, m, A⟩
      mul b a) ⟨n, l, (A * B).transpose⟩ := by
  constructor
  · exact Meets.then (returns_mul A B hm) (returns_transpose ⟨l, n, A * B⟩)
  · rw [Matrix.transpose_mul]
    refine Meets.then (returns_transpose ⟨m, n, B⟩) ?_
    refine Meets.then (returns_transpose ⟨l, m, A⟩) ?_
    exact returns_mul B.transpose A.transpose hm

theorem smul_mul_returns (scalar : T) {n : ℕ} (A B : Entries n n T) (hn : 0 < n) :
    Returns (do
      let product ← mul ⟨n, n, A⟩ ⟨n, n, B⟩
      smul scalar product) ⟨n, n, scalar • (A * B)⟩ ∧
    Returns (do
      let a ← smul scalar ⟨n, n, A⟩
      mul a ⟨n, n, B⟩) ⟨n, n, scalar • (A * B)⟩ := by
  constructor
  · exact Meets.then (returns_mul A B hn) (returns_smul scalar (A * B))
  · rw [← Matrix.smul_mul]
    exact Meets.then (returns_smul scalar A) (returns_mul (scalar • A) B hn)

/-- The sizes of the two sides of `s * (A * B) = (s * A) * B`. -/
theorem row_eq_col_of_smul_mul {scalar : T} {A B R : Matrix T}
    (hleft : Returns (do
      let product ← mul A B
      smul scalar product) R)
    (hright : Returns (do
      let a ← smul scalar A
      mul a B) R) : A.col = B.col := by
  have hrow : R.row = B.col := by
    refine Ensures.of_returns (P := fun R : Matrix T => R.row = B.col)
      ((ensures_mul A B).bind fun product hproduct => ?_) hleft
    exact (ensures_smul scalar product).imp fun S hS => hS.1.trans hproduct.2.2
  have hrow' : R.row = A.col := by
    refine Ensures.of_returns (P := fun R : Matrix T => R.row = A.col)
      ((ensures_smul scalar A).bind fun a ha => ?_) hright
    exact (ensures_mul a B).imp fun S hS => hS.2.1.trans ha.1
  exact hrow'.symm.trans hrow

/-- The operators agree with the textbook exactly on a square matrix, times a square matrix. -/
theorem textbook_iff (A B : Matrix T) (scalar : T) (hcol : 0 < A.col) :
    Textbook A B scalar ↔ A.row = A.col ∧ (B.row = A.col → B.row = B.col) := by
  constructor
  · intro h
    have hsquare : A.row = A.col := (ensures_smul scalar A).of_returns h.smul |>.1
    refine ⟨hsquare, fun hrow => ?_⟩
    obtain ⟨R, hleft, hright⟩ := h.smul_mul hrow
    exact hrow.trans (row_eq_col_of_smul_mul hleft hright)
  · obtain ⟨m, n, A⟩ := A
    obtain ⟨k, l, B⟩ := B
    rintro ⟨hsquare, hproduct⟩
    simp only at hsquare hproduct hcol
    subst hsquare
    refine ⟨?_, elementwise_fails _, ?_, elementwise_fails _, ?_, mul_fails,
      returns_transpose ⟨m, m, A⟩, returns_smul scalar A, returns_div scalar A, ?_, ?_⟩
    · rintro hrow hcol
      simp only at hrow hcol
      subst hrow hcol
      exact returns_elementwise _ A B
    · rintro hrow hcol
      simp only at hrow hcol
      subst hrow hcol
      exact returns_elementwise _ A B
    · intro hrow
      simp only at hrow
      subst hrow
      exact returns_mul A B hcol
    · intro hrow
      simp only at hrow
      subst hrow
      exact ⟨_, transpose_mul_returns A B hcol⟩
    · intro hrow
      simp only at hrow
      subst hrow
      cases hproduct rfl
      exact ⟨_, smul_mul_returns scalar A B hcol⟩

theorem textbook_squares : Textbook (⟨2, 2, 1⟩ : Matrix ℚ) ⟨2, 2, 1⟩ 3 :=
  (textbook_iff ⟨2, 2, 1⟩ ⟨2, 2, 1⟩ 3 Nat.two_pos).mpr ⟨rfl, fun _ => rfl⟩

/-- A multiple of a row is written into a column. -/
theorem smul_row_outOfBounds :
    Fails (smul 2 (⟨1, 2, 0⟩ : Matrix ℚ)) .outOfBounds ∧
      ¬ Textbook (⟨1, 2, 0⟩ : Matrix ℚ) ⟨1, 2, 0⟩ 2 := by
  have hfails : Fails (smul 2 (⟨1, 2, 0⟩ : Matrix ℚ)) .outOfBounds := fun _ => rfl
  exact ⟨hfails, fun h => h.smul.not_fails hfails⟩

end Matrix

end CommonLib.Math
