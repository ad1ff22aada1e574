import CommonLib.Verification.Matrix.Determinant
import CommonLib.Verification.Matrix.Operators
import Mathlib.LinearAlgebra.Matrix.Adjugate

/-! # The adjugate

`cofactor` takes the determinant of every minor with its sign, and transposes. -/

namespace CommonLib.Math

open Program

universe u

variable {T : Type u} [CommRing T]

/-- The entries that are written before the transposition. -/
def cofactors {n : ℕ} (A : Entries (n + 1) (n + 1) T) : Entries (n + 1) (n + 1) T :=
  fun i j => (-1) ^ (i.val + j.val) * (A.submatrix i.succAbove j.succAbove).det

theorem cofactors_transpose {n : ℕ} (A : Entries (n + 1) (n + 1) T) :
    (cofactors A).transpose = A.adjugate := by
  ext i j
  rw [Matrix.adjugate_fin_succ_eq_det_submatrix]
  rfl

/-- The scratch matrix keeps its size, and is good for one entry after the other. -/
theorem returns_cofactor_succ {n : ℕ} (A : Entries (n + 1) (n + 1) T) (hn : 0 < n) :
    Returns (cofactor ⟨n + 1, n + 1, A⟩) ⟨n + 1, n + 1, A.adjugate⟩ := by
  refine (Matrix.meets_alloc (n + 1) (n + 1)).bind fun new hnew => ?_
  refine (Matrix.meets_alloc (n + 1) (n + 1)).bind fun target htarget => ?_
  refine Meets.bind (Matrix.meets_fill_in (B := cofactors A) Cofactors.cofactor_mat
    (fun s => s.new_minor_mat.row = n + 1 ∧ s.new_minor_mat.col = n + 1) htarget.1 htarget.2 hnew
    ?_) ?_
  · intro r c t hr hc htrow htcol hscratch _
    have hblock : HasBlock ⟨n + 1, n + 1, A⟩ (n + 1) A := hasBlock_entries A (Nat.le_refl _)
    have hpack := meets_pack (A := ⟨n + 1, n + 1, A⟩) (n := n + 1) rfl rfl (by omega) hr hc
      hscratch.1 hscratch.2
    refine hpack.bind fun R hR => ?_
    have hminor := hR.hasBlock (p := ⟨r, hr⟩) (q := ⟨c, hc⟩) hblock (Nat.le_refl _)
    refine Meets.then (returns_determine hR.row hR.col hn (Nat.le_succ n) hminor) ?_
    refine Meets.then (Matrix.returns_set t.cofactor_mat _ (htrow ▸ hr) (htcol ▸ hc)) ?_
    exact Meets.pure ⟨⟨hR.row, hR.col⟩, rfl⟩
  · intro s hs
    rw [hs, ← cofactors_transpose]
    exact Matrix.returns_transpose ⟨n + 1, n + 1, cofactors A⟩

theorem returns_cofactor {n : ℕ} (A : Entries n n T) (hn : 2 ≤ n) :
    Returns (cofactor ⟨n, n, A⟩) ⟨n, n, A.adjugate⟩ := by
  cases n with
  | zero => omega
  | succ n => exact returns_cofactor_succ A (by omega)

/-- `cofactor` computes the adjugate: its products with the matrix are the determinant times the
identity. -/
theorem cofactor_adjugate {n : ℕ} (A : Entries n n T) (hn : 2 ≤ n) :
    ∃ C : Entries n n T, Returns (cofactor ⟨n, n, A⟩) ⟨n, n, C⟩ ∧
      C * A = A.det • (1 : Entries n n T) ∧ A * C = A.det • (1 : Entries n n T) ∧
      Returns (do
        let c ← cofactor ⟨n, n, A⟩
        c.mul ⟨n, n, A⟩) ⟨n, n, A.det • 1⟩ ∧
      Returns (do
        let c ← cofactor ⟨n, n, A⟩
        Matrix.mul ⟨n, n, A⟩ c) ⟨n, n, A.det • 1⟩ := by
  have hreturns := returns_cofactor A hn
  have hleft := Matrix.adjugate_mul A
  have hright := Matrix.mul_adjugate A
  refine ⟨A.adjugate, hreturns, hleft, hright, ?_, ?_⟩
  · rw [← hleft]
    exact Meets.then hreturns (Matrix.returns_mul A.adjugate A (by omega))
  · rw [← hright]
    exact Meets.then hreturns (Matrix.returns_mul A A.adjugate (by omega))

theorem cofactor_adjugate_two :
    ∃ C : Entries 2 2 ℤ, Returns (cofactor ⟨2, 2, !![2, 1; 5, 4]⟩) ⟨2, 2, C⟩ ∧
      C * !![2, 1; 5, 4] = !![3, 0; 0, 3] := by
  obtain ⟨C, hreturns, hleft, -⟩ := cofactor_adjugate (!![2, 1; 5, 4] : Entries 2 2 ℤ) (by decide)
  refine ⟨C, hreturns, ?_⟩
  rw [hleft, Matrix.det_fin_two_of]
  decide

end CommonLib.Math
