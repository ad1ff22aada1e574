import CommonLib.Library.Indices
import CommonLib.Verification.Matrix.Equations
import Mathlib.Data.Matrix.Mul

/-! # What the operators of the matrices compute

Each of them makes its result and fills it in two loops. They agree with the operations of the same
name on entries, as long as the result is made with the right size. -/

namespace CommonLib.Math

open Program

universe u

variable {T : Type u}

namespace Matrix

/-! ### Copies -/

theorem returns_copy (A : Matrix T) : Returns (copy A) A := by
  refine (meets_alloc A.row A.col).bind fun rtn hrtn => ?_
  refine meets_fill hrtn.1 hrtn.2 fun r c t hr hc htrow htcol _ => ?_
  refine Meets.then (returns_get A.mat hr hc) ?_
  exact returns_set t _ (htrow ▸ hr) (htcol ▸ hc)

theorem returns_assign {A B : Matrix T} (hrow : A.row = B.row) (hcol : A.col = B.col) :
    Returns (A.assign B) B := by
  rw [assign, if_neg (by simp [hrow, hcol]), traversal, hrow, hcol]
  refine meets_fill hrow hcol fun r c t hr hc htrow htcol _ => ?_
  refine Meets.then (returns_get B.mat hr hc) ?_
  exact returns_set t _ (htrow ▸ hr) (htcol ▸ hc)

theorem returns_transpose (A : Matrix T) :
    Returns (transpose A) ⟨A.col, A.row, A.mat.transpose⟩ := by
  refine (meets_alloc A.col A.row).bind fun rtn hrtn => ?_
  refine meets_fill_mirrored hrtn.1 hrtn.2 fun r c t hr hc htrow htcol => ?_
  refine Meets.then (returns_get A.mat hr hc) ?_
  exact returns_set t _ (htrow ▸ hc) (htcol ▸ hr)

/-! ### Sums and differences -/

theorem returns_elementwise (op : T → T → T) {m n : ℕ} (A B : Entries m n T) :
    Returns (elementwise op ⟨m, n, A⟩ ⟨m, n, B⟩) ⟨m, n, fun i j => op (A i j) (B i j)⟩ := by
  rw [elementwise, if_neg (by simp)]
  refine (meets_alloc m n).bind fun rtn hrtn => ?_
  rw [traversal, hrtn.1, hrtn.2]
  refine meets_fill hrtn.1 hrtn.2 fun r c t hr hc htrow htcol _ => ?_
  refine Meets.then (returns_get A hr hc) ?_
  refine Meets.then (returns_get B hr hc) ?_
  exact returns_set t _ (htrow ▸ hr) (htcol ▸ hc)

theorem elementwise_fails (op : T → T → T) {A B : Matrix T}
    (h : ¬ (B.row = A.row ∧ B.col = A.col)) :
    Fails (elementwise op A B) (.outOfRange "Size not matched.") := by
  rw [elementwise, if_pos (by omega)]
  exact Fails.throw _

/-! ### Products -/

theorem returns_dot [NonUnitalNonAssocSemiring T] {l m n : ℕ} (A : Entries l m T)
    (B : Entries m n T) {r c : ℕ} (hr : r < l) (hc : c < n) (hm : 0 < m) :
    Returns (dot ⟨l, m, A⟩ ⟨m, n, B⟩ r c) ((A * B) ⟨r, hr⟩ ⟨c, hc⟩) := by
  let f : Fin m → T := fun k => A ⟨r, hr⟩ k * B k ⟨c, hc⟩
  have hsum : (A * B) ⟨r, hr⟩ ⟨c, hc⟩ = sumBelow f m := by
    rw [sumBelow_all, Matrix.mul_apply]
  rw [hsum]
  refine Meets.then (returns_get A hr hm) ?_
  refine Meets.then (returns_get B hm hc) ?_
  refine Meets.range (I := fun x sum => sum = sumBelow f x) hm ?_ ?_
  · rw [sumBelow_succ f hm, sumBelow_zero, zero_add]
  · rintro x sum - hx rfl
    refine Meets.then (returns_get A hr hx) ?_
    refine Meets.then (returns_get B hx hc) ?_
    exact Meets.pure (sumBelow_succ f hx).symm

theorem returns_mul [NonUnitalNonAssocSemiring T] {l m n : ℕ} (A : Entries l m T)
    (B : Entries m n T) (hm : 0 < m) :
    Returns (mul ⟨l, m, A⟩ ⟨m, n, B⟩) ⟨l, n, A * B⟩ := by
  rw [mul, if_neg (by simp)]
  refine (meets_alloc l n).bind fun rtn hrtn => ?_
  refine meets_fill hrtn.1 hrtn.2 fun r c t hr hc htrow htcol _ => ?_
  refine Meets.then (returns_dot A B hr hc hm) ?_
  exact returns_set t _ (htrow ▸ hr) (htcol ▸ hc)

theorem ensures_mul [Add T] [Mul T] (A B : Matrix T) :
    Ensures (mul A B) fun R => A.col = B.row ∧ R.row = A.row ∧ R.col = B.col := by
  unfold mul
  split
  · exact Ensures.throw _
  · rename_i hcol
    refine (meets_alloc A.row B.col).ensures.bind fun rtn hrtn => ?_
    rw [← hrtn.1, ← hrtn.2]
    refine (ensures_fill fun r c t => ?_).imp fun R hR => ⟨not_not.mp hcol, hR⟩
    refine (Ensures.trivial _).bind fun sum _ => ?_
    exact ensures_set t r c _

theorem mul_fails [Add T] [Mul T] {A B : Matrix T} (h : B.row ≠ A.col) :
    Fails (mul A B) (.outOfRange "Size not matched.") := by
  rw [mul, if_pos (Ne.symm h)]
  exact Fails.throw _

/-! ### Scalars -/

/-- The result has the right size only if the matrix is square. -/
theorem returns_smul [CommSemigroup T] (scalar : T) {n : ℕ} (A : Entries n n T) :
    Returns (smul scalar ⟨n, n, A⟩) ⟨n, n, scalar • A⟩ := by
  refine (meets_alloc n n).bind fun rtn hrtn => ?_
  refine meets_fill hrtn.1 hrtn.2 fun r c t hr hc htrow htcol _ => ?_
  refine Meets.then (returns_get A hr hc) ?_
  refine (returns_set t _ (htrow ▸ hr) (htcol ▸ hc)).imp ?_
  rintro _ rfl
  rw [mul_comm]
  rfl

theorem ensures_smul [Mul T] (scalar : T) (A : Matrix T) :
    Ensures (smul scalar A) fun R => R.row = A.col ∧ R.col = A.row := by
  refine (meets_alloc A.col A.row).ensures.bind fun rtn hrtn => ?_
  rw [← hrtn.1, ← hrtn.2]
  refine ensures_fill fun r c t => ?_
  refine (Ensures.trivial _).bind fun value _ => ?_
  exact ensures_set t r c _

theorem returns_div [Div T] (scalar : T) {m n : ℕ} (A : Entries m n T) :
    Returns (div ⟨m, n, A⟩ scalar) ⟨m, n, fun i j => A i j / scalar⟩ := by
  refine Meets.then (returns_copy ⟨m, n, A⟩) ?_
  refine meets_fill rfl rfl fun r c t hr hc htrow htcol hold => ?_
  have hget : Returns (t.get r c) (A ⟨r, hr⟩ ⟨c, hc⟩) := by
    refine (meets_get t (htrow ▸ hr) (htcol ▸ hc)).imp fun value hvalue => ?_
    rw [hold, at?_eq ⟨m, n, A⟩ hr hc] at hvalue
    exact (Option.some.inj hvalue).symm
  refine Meets.then hget ?_
  exact returns_set t _ (htrow ▸ hr) (htcol ▸ hc)

end Matrix

end CommonLib.Math
