import CommonLib.Model.Matrix

/-! Computation rules of the matrices: reading, writing, and filling a matrix entry by entry. -/

namespace CommonLib.Math

open Program

universe u

variable {T σ : Type u}

namespace Matrix

/-! ### Entries -/

theorem at?_eq (A : Matrix T) {r c : ℕ} (hr : r < A.row) (hc : c < A.col) :
    A.at? r c = some (A.mat ⟨r, hr⟩ ⟨c, hc⟩) :=
  dif_pos ⟨hr, hc⟩

@[simp] theorem put_row (A : Matrix T) (r c : ℕ) (value : T) : (A.put r c value).row = A.row :=
  rfl

@[simp] theorem put_col (A : Matrix T) (r c : ℕ) (value : T) : (A.put r c value).col = A.col :=
  rfl

theorem at?_put_self (A : Matrix T) {r c : ℕ} (value : T) (hr : r < A.row) (hc : c < A.col) :
    (A.put r c value).at? r c = some value := by
  rw [at?_eq (A.put r c value) hr hc]
  simp [put]

theorem at?_put_of_ne (A : Matrix T) {r c i j : ℕ} (value : T) (h : (i, j) ≠ (r, c)) :
    (A.put r c value).at? i j = A.at? i j := by
  have hne : ¬ (i = r ∧ j = c) := fun heq => h (Prod.ext heq.1 heq.2)
  by_cases hij : i < A.row ∧ j < A.col
  · rw [at?_eq (A.put r c value) hij.1 hij.2, at?_eq A hij.1 hij.2]
    simp [put, hne]
  · unfold at?
    rw [dif_neg hij, dif_neg (by simpa using hij)]

/-- A matrix is given by its size and its entries. -/
theorem eq_of_at? {A : Matrix T} {m n : ℕ} {B : Entries m n T} (hrow : A.row = m)
    (hcol : A.col = n)
    (h : ∀ r c (hr : r < m) (hc : c < n), A.at? r c = some (B ⟨r, hr⟩ ⟨c, hc⟩)) :
    A = ⟨m, n, B⟩ := by
  obtain ⟨row, col, mat⟩ := A
  subst hrow hcol
  congr
  funext i j
  have hij := h i.val j.val i.isLt j.isLt
  rw [at?_eq ⟨row, col, mat⟩ i.isLt j.isLt] at hij
  exact Option.some.inj hij

/-! ### Reading and writing -/

theorem meets_alloc (m n : ℕ) :
    Meets (alloc m n : Calc T (Matrix T)) fun A => A.row = m ∧ A.col = n :=
  fun _ => ⟨_, _, rfl, rfl, rfl⟩

theorem meets_get (A : Matrix T) {r c : ℕ} (hr : r < A.row) (hc : c < A.col) :
    Meets (A.get r c) fun value => A.at? r c = some value := by
  have hat := A.at?_eq hr hc
  simp only [get, hat]
  exact Meets.pure rfl

theorem returns_get {m n : ℕ} (A : Entries m n T) {r c : ℕ} (hr : r < m) (hc : c < n) :
    Returns ((⟨m, n, A⟩ : Matrix T).get r c) (A ⟨r, hr⟩ ⟨c, hc⟩) := by
  refine (meets_get ⟨m, n, A⟩ hr hc).imp fun value hvalue => ?_
  rw [at?_eq ⟨m, n, A⟩ hr hc] at hvalue
  exact (Option.some.inj hvalue).symm

theorem returns_set (A : Matrix T) {r c : ℕ} (value : T) (hr : r < A.row) (hc : c < A.col) :
    Returns (A.set r c value) (A.put r c value) := by
  rw [set, if_pos ⟨hr, hc⟩]
  exact Meets.pure rfl

/-- Writing an entry does not change the size. -/
theorem ensures_set (A : Matrix T) (r c : ℕ) (value : T) :
    Ensures (A.set r c value) fun R => R.row = A.row ∧ R.col = A.col := by
  unfold set
  split
  · exact Ensures.pure ⟨rfl, rfl⟩
  · exact Ensures.throw _

/-! ### Filling -/

/-- Two loops whose turns each write their own entry of a matrix fill it. A turn still finds what
was in its entry in front of the loops. -/
theorem meets_fill_in {s : σ} (target : σ → Matrix T) (J : σ → Prop) {m n : ℕ} {B : Entries m n T}
    {body : ℕ → ℕ → σ → Calc T σ} (hrow : (target s).row = m) (hcol : (target s).col = n)
    (hJ : J s)
    (hbody : ∀ r c t (hr : r < m) (hc : c < n), (target t).row = m → (target t).col = n → J t →
      (target t).at? r c = (target s).at? r c → Meets (body r c t) fun t' =>
        J t' ∧ target t' = (target t).put r c (B ⟨r, hr⟩ ⟨c, hc⟩)) :
    Meets (forRange 0 m s fun r t => forRange 0 n t (body r)) fun t => target t = ⟨m, n, B⟩ := by
  have hloop := Meets.range_each₂ body m n (s := s)
    (J := fun t => J t ∧ (target t).row = m ∧ (target t).col = n)
    (U := fun r c t => (target t).at? r c = (target s).at? r c)
    (D := fun r c t => ∀ (hr : r < m) (hc : c < n),
      (target t).at? r c = some (B ⟨r, hr⟩ ⟨c, hc⟩))
    ⟨hJ, hrow, hcol⟩ (fun _ _ _ _ => rfl) ?_
  · refine hloop.imp fun t ht => ?_
    exact eq_of_at? ht.1.2.1 ht.1.2.2 fun r c hr hc => ht.2 r c hr hc hr hc
  · rintro r c t hr hc ⟨hJt, htrow, htcol⟩ hold
    refine (hbody r c t hr hc htrow htcol hJt hold).imp ?_
    rintro t' ⟨hJt', htarget⟩
    rw [htarget]
    refine ⟨⟨hJt', htrow, htcol⟩, fun _ _ => ?_, fun r' c' hne => ?_⟩
    · exact at?_put_self _ _ (htrow ▸ hr) (htcol ▸ hc)
    · rw [at?_put_of_ne _ _ hne]
      exact ⟨id, id⟩

/-- The same where the matrix is all that the loops change. -/
theorem meets_fill {A : Matrix T} {m n : ℕ} {B : Entries m n T}
    {body : ℕ → ℕ → Matrix T → Calc T (Matrix T)} (hrow : A.row = m) (hcol : A.col = n)
    (hbody : ∀ r c t (hr : r < m) (hc : c < n), t.row = m → t.col = n → t.at? r c = A.at? r c →
      Returns (body r c t) (t.put r c (B ⟨r, hr⟩ ⟨c, hc⟩))) :
    Returns (forRange 0 m A fun r t => forRange 0 n t (body r)) ⟨m, n, B⟩ := by
  refine meets_fill_in id (fun _ => True) hrow hcol trivial ?_
  intro r c t hr hc htrow htcol _ hold
  exact (hbody r c t hr hc htrow htcol hold).imp fun t' ht' => ⟨trivial, ht'⟩

/-- The same where each turn writes the mirrored entry. -/
theorem meets_fill_mirrored {A : Matrix T} {m n : ℕ} {B : Entries n m T}
    {body : ℕ → ℕ → Matrix T → Calc T (Matrix T)} (hrow : A.row = n) (hcol : A.col = m)
    (hbody : ∀ r c t (hr : r < m) (hc : c < n), t.row = n → t.col = m →
      Returns (body r c t) (t.put c r (B ⟨c, hc⟩ ⟨r, hr⟩))) :
    Returns (forRange 0 m A fun r t => forRange 0 n t (body r)) ⟨n, m, B⟩ := by
  have hloop := Meets.range_each₂ body m n (s := A) (J := fun t => t.row = n ∧ t.col = m)
    (U := fun _ _ _ => True)
    (D := fun r c t => ∀ (hr : r < m) (hc : c < n), t.at? c r = some (B ⟨c, hc⟩ ⟨r, hr⟩))
    ⟨hrow, hcol⟩ (fun _ _ _ _ => trivial) ?_
  · refine hloop.imp fun R hR => ?_
    exact eq_of_at? hR.1.1 hR.1.2 fun r c hr hc => hR.2 c r hc hr hc hr
  · rintro r c t hr hc ⟨htrow, htcol⟩ -
    refine (hbody r c t hr hc htrow htcol).imp ?_
    rintro _ rfl
    refine ⟨⟨htrow, htcol⟩, fun _ _ => ?_, fun r' c' hne => ⟨id, fun h hr' hc' => ?_⟩⟩
    · exact t.at?_put_self _ (htrow ▸ hc) (htcol ▸ hr)
    · rw [t.at?_put_of_ne _ (by simpa [and_comm] using hne)]
      exact h hr' hc'

/-- Loops that only write entries keep the size. -/
theorem ensures_fill {A : Matrix T} {m n : ℕ} {body : ℕ → ℕ → Matrix T → Calc T (Matrix T)}
    (hbody : ∀ r c t, Ensures (body r c t) fun R => R.row = t.row ∧ R.col = t.col) :
    Ensures (forRange 0 m A fun r t => forRange 0 n t (body r)) fun R =>
      R.row = A.row ∧ R.col = A.col := by
  refine Ensures.range (J := fun R : Matrix T => R.row = A.row ∧ R.col = A.col) ⟨rfl, rfl⟩
    fun r t ht => ?_
  refine Ensures.range ht fun c t' ht' => ?_
  intro memory R memory' hR
  obtain ⟨hrow, hcol⟩ := hbody r c t' memory R memory' hR
  exact ⟨hrow.trans ht'.1, hcol.trans ht'.2⟩

end Matrix

end CommonLib.Math
