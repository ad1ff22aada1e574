import CommonLib.Verification.Matrix.Operators

/-! # Sizes

What the operations say about the sizes of their arguments when they return, and which sizes they
return for. The matrices need not be square. -/

namespace CommonLib.Math

open Program

universe u

variable {T : Type u}

/-- The matrix has `m` rows and `n` columns. -/
structure Matrix.Shape (A : Matrix T) (m n : ℕ) : Prop where
  row : A.row = m
  col : A.col = n

namespace Matrix

theorem shape_self (A : Matrix T) : A.Shape A.row A.col :=
  ⟨rfl, rfl⟩

theorem Shape.exists_entries {A : Matrix T} {m n : ℕ} (h : A.Shape m n) :
    ∃ B : Entries m n T, A = ⟨m, n, B⟩ := by
  obtain ⟨row, col, mat⟩ := A
  obtain ⟨rfl, rfl⟩ := h
  exact ⟨mat, rfl⟩

/-! ### Operators -/

theorem ensures_assign (A B : Matrix T) :
    Ensures (assign A B) fun R => B.Shape A.row A.col ∧ R = B := by
  by_cases h : A.row = B.row ∧ A.col = B.col
  · exact (returns_assign h.1 h.2).ensures.imp fun R hR => ⟨⟨h.1.symm, h.2.symm⟩, hR⟩
  · rw [assign, if_pos (by omega)]
    exact Ensures.throw _

theorem meets_transpose {A : Matrix T} {m n : ℕ} (h : A.Shape m n) :
    Meets (transpose A) fun R => R.Shape n m :=
  (returns_transpose A).imp fun _ hR => hR ▸ ⟨h.col, h.row⟩

theorem meets_elementwise (op : T → T → T) {A B : Matrix T} {m n : ℕ} (hA : A.Shape m n)
    (hB : B.Shape m n) : Meets (elementwise op A B) fun R => R.Shape m n := by
  obtain ⟨a, rfl⟩ := hA.exists_entries
  obtain ⟨b, rfl⟩ := hB.exists_entries
  exact (returns_elementwise op a b).imp fun _ hR => hR ▸ ⟨rfl, rfl⟩

theorem ensures_elementwise (op : T → T → T) {A B : Matrix T} {m n : ℕ} (hA : A.Shape m n) :
    Ensures (elementwise op A B) fun R => B.Shape m n ∧ R.Shape m n := by
  by_cases hB : B.Shape m n
  · exact (meets_elementwise op hA hB).ensures.imp fun R hR => ⟨hB, hR⟩
  · refine Fails.ensures (elementwise_fails op fun hsame => hB ?_)
    exact ⟨hsame.1.trans hA.row, hsame.2.trans hA.col⟩

theorem meets_mul [NonUnitalNonAssocSemiring T] {A B : Matrix T} {l m n : ℕ} (hA : A.Shape l m)
    (hB : B.Shape m n) (hm : 0 < m) : Meets (mul A B) fun R => R.Shape l n := by
  obtain ⟨a, rfl⟩ := hA.exists_entries
  obtain ⟨b, rfl⟩ := hB.exists_entries
  exact (returns_mul a b hm).imp fun _ hR => hR ▸ ⟨rfl, rfl⟩

/-! ### The inverse -/

theorem ensures_div [Div T] {A : Matrix T} {m n : ℕ} (hA : A.Shape m n) (scalar : T) :
    Ensures (div A scalar) fun R => R.Shape m n := by
  obtain ⟨a, rfl⟩ := hA.exists_entries
  exact (returns_div scalar a).ensures.imp fun _ hR => hR ▸ ⟨rfl, rfl⟩

theorem ensures_cofactor [Ring T] {A : Matrix T} {m n : ℕ} (hA : A.Shape m n) :
    Ensures (cofactor A) fun R => R.Shape m n := by
  refine (Ensures.trivial _).bind fun new _ => ?_
  refine (meets_alloc A.col A.row).ensures.bind fun target htarget => ?_
  refine Ensures.bind (P := fun s : Cofactors T => s.cofactor_mat.Shape n m) ?_ fun s hs => ?_
  · refine Ensures.range ⟨htarget.1.trans hA.col, htarget.2.trans hA.row⟩ fun row3 s hs => ?_
    refine Ensures.range hs fun col3 t ht => ?_
    refine (Ensures.trivial _).bind fun new _ => ?_
    refine (Ensures.trivial _).bind fun det _ => ?_
    refine (ensures_set t.cofactor_mat row3 col3 _).bind fun R hR => ?_
    exact Ensures.pure ⟨hR.1.trans ht.row, hR.2.trans ht.col⟩
  · exact (meets_transpose hs).ensures

theorem ensures_inverse [Field T] [DecidableEq T] {A : Matrix T} {m n : ℕ} (hA : A.Shape m n) :
    Ensures (inverse A) fun R => R.Shape m n := by
  refine (Ensures.trivial _).bind fun determinate _ => ?_
  split
  · exact Ensures.throw _
  split
  · refine (returns_copy A).ensures.bind ?_
    rintro _ rfl
    exact (ensures_set _ 0 0 1).imp fun R hR => ⟨hR.1.trans hA.row, hR.2.trans hA.col⟩
  · exact (ensures_cofactor hA).bind fun adj hadj => ensures_div hadj determinate

end Matrix

end CommonLib.Math
