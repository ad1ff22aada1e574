import CommonLib.Model.Angle
import CommonLib.Verification.Matrix.Equations
import Mathlib.Data.Fin.VecNotation

/-! # Angles and quaternions as columns

A column of the right length and three angles, or a quaternion, are the same thing; any other matrix
is refused. -/

namespace CommonLib.Math

open Program

universe u

variable {T : Type u}

/-- The matrix with one column. -/
def column {n : ℕ} (v : Fin n → T) : Matrix T :=
  ⟨n, 1, fun i _ => v i⟩

/-- A new column whose first `k` entries have been written. -/
structure Written {n : ℕ} (v : Fin n → T) (k : ℕ) (A : Matrix T) : Prop where
  row : A.row = n
  col : A.col = 1
  entry : ∀ i (hi : i < n), i < k → A.at? i 0 = some (v ⟨i, hi⟩)

theorem meets_alloc_column {n : ℕ} (v : Fin n → T) : Meets (Matrix.alloc n 1) (Written v 0) :=
  (Matrix.meets_alloc n 1).imp fun _ hA => ⟨hA.1, hA.2, fun _ _ hi => absurd hi (Nat.not_lt_zero _)⟩

theorem Written.set {n k : ℕ} {v : Fin n → T} {A : Matrix T} (h : Written v k A) (hk : k < n) :
    Meets (A.set k 0 (v ⟨k, hk⟩)) (Written v (k + 1)) := by
  refine (Matrix.returns_set A _ (h.row ▸ hk) (h.col ▸ Nat.one_pos)).imp ?_
  rintro _ rfl
  refine ⟨h.row, h.col, fun i hi hik => ?_⟩
  rcases Nat.lt_succ_iff_lt_or_eq.mp hik with hlt | rfl
  · rw [Matrix.at?_put_of_ne _ _ (by simp [hlt.ne])]
    exact h.entry i hi hlt
  · exact Matrix.at?_put_self _ _ (h.row ▸ hi) (h.col ▸ Nat.one_pos)

theorem Written.eq_column {n : ℕ} {v : Fin n → T} {A : Matrix T} (h : Written v n A) :
    A = column v := by
  refine Matrix.eq_of_at? h.row h.col fun r c hr hc => ?_
  obtain rfl : c = 0 := Nat.lt_one_iff.mp hc
  exact h.entry r hr hr

theorem exists_eq_column {n : ℕ} {A : Matrix T} (hrow : A.row = n) (hcol : A.col = 1) :
    ∃ v : Fin n → T, A = column v := by
  obtain ⟨row, col, mat⟩ := A
  subst hrow hcol
  refine ⟨fun i => mat i 0, ?_⟩
  rw [column]
  congr 1
  funext i j
  rw [Subsingleton.elim j 0]

/-! ### Angles -/

theorem returns_toMatrix_euler (e : Euler T) :
    Returns e.toMatrix (column ![e.roll, e.pitch, e.yaw]) := by
  refine (meets_alloc_column ![e.roll, e.pitch, e.yaw]).bind fun A hA => ?_
  refine (hA.set (by omega)).bind fun A hA => ?_
  refine (hA.set (by omega)).bind fun A hA => ?_
  exact (hA.set (by omega)).imp fun A hA => hA.eq_column

theorem returns_fromMatrix_euler (v : Fin 3 → T) :
    Returns (Euler.fromMatrix (column v)) ⟨v 0, v 1, v 2⟩ := by
  rw [Euler.fromMatrix, if_neg (by simp [column])]
  refine (Matrix.returns_get _ (by omega) Nat.one_pos).then ?_
  refine (Matrix.returns_get _ (by omega) Nat.one_pos).then ?_
  exact (Matrix.returns_get _ (by omega) Nat.one_pos).then (Meets.pure rfl)

/-- Angles survive the way over a column, columns of three the way over angles, and no other matrix
is taken. -/
theorem euler_column :
    (∀ e : Euler T, Returns (e.toMatrix >>= Euler.fromMatrix) e) ∧
    (∀ m : Matrix T, m.row = 3 → m.col = 1 → Returns (Euler.fromMatrix m >>= Euler.toMatrix) m) ∧
    ∀ m : Matrix T, m.row ≠ 3 ∨ m.col ≠ 1 →
      Fails (Euler.fromMatrix m) (.outOfRange "Matrix size not matched.") := by
  refine ⟨fun e => ?_, fun m hrow hcol => ?_, fun m hm => ?_⟩
  · exact (returns_toMatrix_euler e).then (returns_fromMatrix_euler _)
  · obtain ⟨v, rfl⟩ := exists_eq_column hrow hcol
    have hv : v = ![v 0, v 1, v 2] := by
      funext i
      fin_cases i <;> rfl
    refine (returns_fromMatrix_euler v).then ?_
    rw [hv]
    exact returns_toMatrix_euler _
  · rw [Euler.fromMatrix, if_pos hm.symm]
    exact Fails.throw _

/-! ### Quaternions -/

theorem returns_toMatrix_quaternion (q : Quaternion T) :
    Returns q.toMatrix (column ![q.w, q.x, q.y, q.z]) := by
  refine (meets_alloc_column ![q.w, q.x, q.y, q.z]).bind fun A hA => ?_
  refine (hA.set (by omega)).bind fun A hA => ?_
  refine (hA.set (by omega)).bind fun A hA => ?_
  refine (hA.set (by omega)).bind fun A hA => ?_
  exact (hA.set (by omega)).imp fun A hA => hA.eq_column

theorem returns_fromMatrix_quaternion (v : Fin 4 → T) :
    Returns (Quaternion.fromMatrix (column v)) ⟨v 0, v 1, v 2, v 3⟩ := by
  rw [Quaternion.fromMatrix, if_neg (by simp [column])]
  refine (Matrix.returns_get _ (by omega) Nat.one_pos).then ?_
  refine (Matrix.returns_get _ (by omega) Nat.one_pos).then ?_
  refine (Matrix.returns_get _ (by omega) Nat.one_pos).then ?_
  exact (Matrix.returns_get _ (by omega) Nat.one_pos).then (Meets.pure rfl)

theorem quaternion_column :
    (∀ q : Quaternion T, Returns (q.toMatrix >>= Quaternion.fromMatrix) q) ∧
    (∀ m : Matrix T, m.row = 4 → m.col = 1 →
      Returns (Quaternion.fromMatrix m >>= Quaternion.toMatrix) m) ∧
    ∀ m : Matrix T, m.row ≠ 4 ∨ m.col ≠ 1 →
      Fails (Quaternion.fromMatrix m) (.outOfRange "Matrix size not matched.") := by
  refine ⟨fun q => ?_, fun m hrow hcol => ?_, fun m hm => ?_⟩
  · exact (returns_toMatrix_quaternion q).then (returns_fromMatrix_quaternion _)
  · obtain ⟨v, rfl⟩ := exists_eq_column hrow hcol
    have hv : v = ![v 0, v 1, v 2, v 3] := by
      funext i
      fin_cases i <;> rfl
    refine (returns_fromMatrix_quaternion v).then ?_
    rw [hv]
    exact returns_toMatrix_quaternion _
  · rw [Quaternion.fromMatrix, if_pos hm.symm]
    exact Fails.throw _

end CommonLib.Math
