import CommonLib.Verification.Matrix.Packing
import Mathlib.LinearAlgebra.Matrix.Determinant.Basic

/-! # The determinant

`determine` expands along the first row. Its recursion works on matrices of full size of which only
the top left block means something; the rest is what was in memory. -/

namespace CommonLib.Math

open Program

universe u

variable {T : Type u}

/-- The top left block of the matrix. -/
def HasBlock (A : Matrix T) (s : ℕ) (B : Entries s s T) : Prop :=
  ∀ i j : Fin s, A.at? i j = some (B i j)

theorem HasBlock.returns_get {A : Matrix T} {s : ℕ} {B : Entries s s T} (h : HasBlock A s B)
    (i j : Fin s) : Returns (A.get i j) (B i j) := by
  simp only [Matrix.get, h i j]
  exact Meets.pure rfl

theorem hasBlock_entries {n s : ℕ} (A : Entries n n T) (hs : s ≤ n) :
    HasBlock ⟨n, n, A⟩ s (A.submatrix (Fin.castLE hs) (Fin.castLE hs)) :=
  fun i j => Matrix.at?_eq _ (Nat.lt_of_lt_of_le i.isLt hs) (Nat.lt_of_lt_of_le j.isLt hs)

/-- The block of a minor is the minor of the block. -/
theorem IsMinor.hasBlock {A R : Matrix T} {n s : ℕ} {B : Entries (s + 1) (s + 1) T}
    {p q : Fin (s + 1)} (h : IsMinor A n p q R) (hB : HasBlock A (s + 1) B) (hs : s + 1 ≤ n) :
    HasBlock R s (B.submatrix p.succAbove q.succAbove) := by
  intro i j
  rw [h.entries i j (by omega) (by omega), ← val_succAbove, ← val_succAbove]
  exact hB (p.succAbove i) (q.succAbove j)

section

variable [CommRing T]

/-- One summand of the expansion along the first row. -/
def cofactorTerm {s : ℕ} (B : Entries (s + 1) (s + 1) T) (j : Fin (s + 1)) : T :=
  B 0 j * (-1) ^ j.val * (B.submatrix (Fin.succAbove 0) j.succAbove).det

theorem sum_cofactorTerm {s : ℕ} (B : Entries (s + 1) (s + 1) T) :
    ∑ j, cofactorTerm B j = B.det := by
  rw [Matrix.det_succ_row_zero]
  apply Finset.sum_congr rfl
  intro j _
  rw [cofactorTerm, mul_comm (B 0 j), Fin.succAbove_zero]

theorem returns_determine_one {A : Matrix T} {B : Entries 1 1 T} (hB : HasBlock A 1 B) :
    Returns (determine A 1) B.det := by
  refine (Matrix.meets_alloc A.col A.row).bind fun new _ => ?_
  rw [Matrix.det_fin_one]
  exact hB.returns_get 0 0

theorem returns_determine_two {A : Matrix T} {B : Entries 2 2 T} (hB : HasBlock A 2 B) :
    Returns (determine A 2) B.det := by
  refine (Matrix.meets_alloc A.col A.row).bind fun new _ => ?_
  rw [Matrix.det_fin_two]
  refine Meets.then (hB.returns_get 0 0) ?_
  refine Meets.then (hB.returns_get 1 1) ?_
  refine Meets.then (hB.returns_get 0 1) ?_
  refine Meets.then (hB.returns_get 1 0) ?_
  exact Meets.pure rfl

/-- The loop of the expansion, given the determinants of smaller blocks. -/
theorem returns_determine_succ {n s : ℕ} {A : Matrix T} {B : Entries (s + 3) (s + 3) T}
    (hrow : A.row = n) (hcol : A.col = n) (hs : s + 3 ≤ n) (hB : HasBlock A (s + 3) B)
    (ih : ∀ {R : Matrix T} {C : Entries (s + 2) (s + 2) T}, R.row = n → R.col = n →
      HasBlock R (s + 2) C → Returns (determine R (s + 2)) C.det) :
    Returns (determine A (s + 3)) B.det := by
  refine (Matrix.meets_alloc A.col A.row).bind fun new hnew => ?_
  rw [← sum_cofactorTerm, ← sumBelow_all]
  refine Meets.bind (Meets.range (I := fun j (e : Expansion T) => e.new_minor_mat.row = n ∧
    e.new_minor_mat.col = n ∧ e.sum = sumBelow (cofactorTerm B) j) (Nat.zero_le _)
    ⟨hnew.1.trans hcol, hnew.2.trans hrow, (sumBelow_zero _).symm⟩ ?_)
    fun e he => Meets.pure he.2.2
  rintro j e - hj ⟨herow, hecol, hesum⟩
  have hminor := meets_minor (q := j) hrow hcol (by omega) (by omega) herow hecol
  refine hminor.bind fun R hR => ?_
  refine Meets.then (hB.returns_get 0 ⟨j, hj⟩) ?_
  have hblock := hR.hasBlock (p := 0) (q := ⟨j, hj⟩) hB hs
  refine Meets.then (ih hR.row hR.col hblock) ?_
  refine Meets.pure ⟨hR.row, hR.col, ?_⟩
  rw [sumBelow_succ _ hj, hesum]
  rfl

/-- The determinant of the block, whatever the other entries of the matrix are and whatever was in
memory. -/
theorem returns_determine {n s : ℕ} {A : Matrix T} {B : Entries s s T} (hrow : A.row = n)
    (hcol : A.col = n) (hpos : 0 < s) (hs : s ≤ n) (hB : HasBlock A s B) :
    Returns (determine A s) B.det := by
  induction s using Nat.twoStepInduction generalizing A with
  | zero => omega
  | one => exact returns_determine_one hB
  | more s _ ih =>
      cases s with
      | zero => exact returns_determine_two hB
      | succ s =>
          refine returns_determine_succ hrow hcol hs hB fun hRrow hRcol hC => ?_
          exact ih hRrow hRcol (by omega) (by omega) hC

/-- `determine` computes the determinant of every top left block of a square matrix. -/
theorem determine_block {n : ℕ} (A : Entries n n T) (s : ℕ) (hpos : 0 < s) (hs : s ≤ n) :
    Returns (determine ⟨n, n, A⟩ s) (A.submatrix (Fin.castLE hs) (Fin.castLE hs)).det :=
  returns_determine rfl rfl hpos hs (hasBlock_entries A hs)

theorem determine_all {n : ℕ} (A : Entries n n T) (hpos : 0 < n) :
    Returns (determine ⟨n, n, A⟩ n) A.det :=
  determine_block A n hpos (Nat.le_refl n)

/-- The determinant of the whole matrix, and of each of its blocks from the entries of that block
alone. -/
theorem determine_correct {n : ℕ} (A : Entries n n T) (hn : 0 < n) :
    Returns (determine ⟨n, n, A⟩ n) A.det ∧
    ∀ s (hs : s ≤ n), 0 < s →
      Returns (determine ⟨n, n, A⟩ s) (A.submatrix (Fin.castLE hs) (Fin.castLE hs)).det :=
  ⟨determine_all A hn, fun s hs hpos => determine_block A s hpos hs⟩

theorem determine_correct_two :
    Returns (determine ⟨2, 2, !![2, 1; 5, 4]⟩ 2) (3 : ℤ) ∧
      Returns (determine ⟨2, 2, !![2, 1; 5, 4]⟩ 1) (2 : ℤ) := by
  obtain ⟨hall, hblock⟩ := determine_correct (!![2, 1; 5, 4] : Entries 2 2 ℤ) Nat.two_pos
  have hone := hblock 1 (by decide) Nat.one_pos
  rw [Matrix.det_fin_two_of] at hall
  rw [Matrix.det_fin_one] at hone
  exact ⟨hall, hone⟩

end

end CommonLib.Math
