import CommonLib.Library.Indices
import CommonLib.Verification.Matrix.Equations

/-! # Packing a minor

`minor` and `cofactor` copy what is left of a matrix without a row and a column, entry by entry,
with a hand-kept place to write to. The target has full size, and its last row and column keep what
was there. -/

namespace CommonLib.Math

open Program

universe u

variable {T : Type u}

/-- Write an entry and go to the place of the next one in rows of `width` entries. -/
def Packing.push (s : Packing T) (width : ℕ) (value : T) : Packing T :=
  if s.y + 1 < width then ⟨s.mat.put s.x s.y value, s.x, s.y + 1⟩
  else ⟨s.mat.put s.x s.y value, s.x + 1, 0⟩

theorem Packing.push_mat (s : Packing T) (width : ℕ) (value : T) :
    (s.push width value).mat = s.mat.put s.x s.y value := by
  unfold Packing.push
  split <;> rfl

/-- In front of the entry in row `r` and column `c`, everything before it that is not in row `p` or
column `q` is packed, and the next place is that of this entry. -/
structure Packed (A : Matrix T) (n p q r c : ℕ) (s : Packing T) : Prop where
  row : s.mat.row = n
  col : s.mat.col = n
  x : s.x = if rank q c < n - 1 then rank p r else rank p r + 1
  y : s.y = if rank q c < n - 1 then rank q c else 0
  done : ∀ i j, j < n - 1 → i < rank p r ∨ i = rank p r ∧ j < rank q c →
    s.mat.at? i j = A.at? (skip p i) (skip q j)

theorem packed_start {A new : Matrix T} {n p q r : ℕ} (hn : 2 ≤ n) (hr : rank p r = 0)
    (hrow : new.row = n) (hcol : new.col = n) : Packed A n p q r 0 ⟨new, 0, 0⟩ := by
  have hwidth : rank q 0 < n - 1 := by
    rw [rank_zero]
    omega
  refine ⟨hrow, hcol, ?_, ?_, fun i j _ hij => ?_⟩
  · rw [if_pos hwidth, hr]
  · rw [if_pos hwidth, rank_zero]
  · rw [hr, rank_zero] at hij
    omega

/-- An entry of the row or the column that is left out. -/
theorem Packed.skipColumn {A : Matrix T} {n p q r : ℕ} {s : Packing T}
    (h : Packed A n p q r q s) : Packed A n p q r (q + 1) s := by
  have heq := rank_succ_self q
  exact ⟨h.row, h.col, heq ▸ h.x, heq ▸ h.y, heq ▸ h.done⟩

theorem Packed.skipRow {A : Matrix T} {n p q : ℕ} {s : Packing T} (h : Packed A n p q p 0 s) :
    Packed A n p q (p + 1) 0 s := by
  have heq := rank_succ_self p
  exact ⟨h.row, h.col, heq ▸ h.x, h.y, heq ▸ h.done⟩

/-- The end of a row is the beginning of the next. -/
theorem Packed.nextRow {A : Matrix T} {n p q r : ℕ} {s : Packing T} (h : Packed A n p q r n s)
    (hn : 2 ≤ n) (hq : q < n) (hr : r ≠ p) : Packed A n p q (r + 1) 0 s := by
  have hwidth : rank q 0 < n - 1 := by
    rw [rank_zero]
    omega
  have hfull := rank_of_lt hq
  refine ⟨h.row, h.col, ?_, ?_, fun i j hj hij => h.done i j hj ?_⟩
  · rw [h.x, hfull, if_neg (by omega), if_pos hwidth, rank_succ_of_ne hr]
  · rw [h.y, hfull, if_neg (by omega), if_pos hwidth, rank_zero]
  · rw [rank_succ_of_ne hr, rank_zero] at hij
    omega

section Push

variable {A : Matrix T} {n p q r c : ℕ} {s : Packing T}

/-- The place of an entry that is kept lies in the minor. -/
theorem Packed.place (h : Packed A n p q r c s) (hp : p < n) (hq : q < n) (hr : r < n) (hc : c < n)
    (hrp : r ≠ p) (hcq : c ≠ q) : s.x = rank p r ∧ s.y = rank q c ∧ s.x < n - 1 ∧ s.y < n - 1 := by
  have hy := rank_lt hq hc hcq
  have hx := rank_lt hp hr hrp
  have hsx := h.x
  have hsy := h.y
  rw [if_pos hy] at hsx hsy
  exact ⟨hsx, hsy, hsx ▸ hx, hsy ▸ hy⟩

theorem Packed.push (h : Packed A n p q r c s) (hp : p < n) (hq : q < n) (hr : r < n) (hc : c < n)
    (hrp : r ≠ p) (hcq : c ≠ q) {value : T} (hvalue : A.at? r c = some value) :
    Packed A n p q r (c + 1) (s.push (n - 1) value) := by
  obtain ⟨hx, hy, hxn, hyn⟩ := h.place hp hq hr hc hrp hcq
  have hnext := rank_succ_of_ne hcq
  refine ⟨?_, ?_, ?_, ?_, fun i j hj hij => ?_⟩
  · rw [Packing.push_mat]
    exact h.row
  · rw [Packing.push_mat]
    exact h.col
  · rw [hnext, Packing.push, hx, hy]
    split <;> rfl
  · rw [hnext, Packing.push, hx, hy]
    split <;> rfl
  · rw [Packing.push_mat]
    by_cases hplace : (i, j) = (s.x, s.y)
    · obtain ⟨rfl, rfl⟩ := Prod.mk.inj hplace
      rw [s.mat.at?_put_self value (by rw [h.row]; omega) (by rw [h.col]; omega), hx, hy,
        skip_rank hrp, skip_rank hcq, hvalue]
    · rw [s.mat.at?_put_of_ne value hplace]
      refine h.done i j hj ?_
      rw [hnext] at hij
      rcases hij with hi | ⟨hi, hj'⟩
      · exact .inl hi
      · refine .inr ⟨hi, ?_⟩
        have hne : j ≠ rank q c := fun heq => hplace (by rw [hi, heq, hx, hy])
        omega

/-- Copying an entry that is kept, however the source moves on to the next place. -/
theorem Packed.meets_keep (h : Packed A n p q r c s) (hrow : A.row = n) (hcol : A.col = n)
    (hp : p < n) (hq : q < n) (hr : r < n) (hc : c < n) (hrp : r ≠ p) (hcq : c ≠ q)
    {next : Matrix T → Calc T (Packing T)}
    (hnext : ∀ mat, Returns (next mat)
      (if s.y + 1 < n - 1 then ⟨mat, s.x, s.y + 1⟩ else ⟨mat, s.x + 1, 0⟩)) :
    Meets (do
      let value ← A.get r c
      let mat ← s.mat.set s.x s.y value
      next mat) (Packed A n p q r (c + 1)) := by
  obtain ⟨-, -, hx, hy⟩ := h.place hp hq hr hc hrp hcq
  refine (Matrix.meets_get A (hrow ▸ hr) (hcol ▸ hc)).bind fun value hvalue => ?_
  refine Meets.then (Matrix.returns_set s.mat value (h.row ▸ by omega) (h.col ▸ by omega)) ?_
  apply (hnext (s.mat.put s.x s.y value)).imp
  rintro _ rfl
  exact h.push hp hq hr hc hrp hcq hvalue

end Push

/-- The finished minor. -/
structure IsMinor (A : Matrix T) (n p q : ℕ) (R : Matrix T) : Prop where
  row : R.row = n
  col : R.col = n
  entries : ∀ i j, i < n - 1 → j < n - 1 → R.at? i j = A.at? (skip p i) (skip q j)

theorem Packed.isMinor {A : Matrix T} {n p q : ℕ} {s : Packing T} (h : Packed A n p q n 0 s)
    (hp : p < n) : IsMinor A n p q s.mat :=
  ⟨h.row, h.col, fun i j hi hj => h.done i j hj (.inl (by rw [rank_of_lt hp]; exact hi))⟩

/-- The two loops, for a body that pushes the entries that are kept and passes over the others. -/
theorem meets_rows {A : Matrix T} {n p q lo : ℕ} {s : Packing T}
    {body : ℕ → ℕ → Packing T → Calc T (Packing T)} (hn : 2 ≤ n) (hq : q < n) (hlo : lo ≤ n)
    (h : Packed A n p q lo 0 s)
    (hrow : ∀ c s, lo ≤ p → Returns (body p c s) s)
    (hcol : ∀ r s, Returns (body r q s) s)
    (hkeep : ∀ r c s, lo ≤ r → r < n → c < n → r ≠ p → c ≠ q → Packed A n p q r c s →
      Meets (body r c s) (Packed A n p q r (c + 1))) :
    Meets (forRange lo n s fun r s => forRange 0 n s (body r)) (Packed A n p q n 0) := by
  refine Meets.range (I := fun r s => Packed A n p q r 0 s) hlo h fun r s hr hrn hs => ?_
  by_cases hrp : r = p
  · subst hrp
    refine (Meets.range (I := fun _ t => t = s) (Nat.zero_le n) rfl ?_).imp ?_
    · rintro c _ - - rfl
      exact hrow c _ hr
    · rintro _ rfl
      exact hs.skipRow
  · refine (Meets.range (I := fun c t => Packed A n p q r c t) (Nat.zero_le n) hs ?_).imp
      fun t ht => ht.nextRow hn hq hrp
    intro c t _ hc ht
    by_cases hcq : c = q
    · subst hcq
      refine (hcol r t).imp ?_
      rintro _ rfl
      exact ht.skipColumn
    · exact hkeep r c t hr hrn hc hrp hcq ht

theorem meets_minor {A new : Matrix T} {n q : ℕ} (hrow : A.row = n) (hcol : A.col = n)
    (hn : 2 ≤ n) (hq : q < n) (hnewrow : new.row = n) (hnewcol : new.col = n) :
    Meets (minor A q new) (IsMinor A n 0 q) := by
  have hstart : Packed A n 0 q 1 0 ⟨new, 0, 0⟩ :=
    packed_start hn (rank_succ_self 0) hnewrow hnewcol
  rw [minor, hrow, hcol]
  refine Meets.bind (meets_rows hn hq (by omega) hstart ?_ ?_ ?_) fun s hs =>
    Meets.pure (hs.isMinor (by omega))
  · intro c s hlo
    omega
  · intro r s
    rw [if_pos rfl]
    exact Meets.pure rfl
  · intro r c s hlo hr hc hrp hcq hs
    obtain ⟨-, -, hx, hy⟩ := hs.place (by omega) hq hr hc hrp hcq
    rw [if_neg hcq]
    apply hs.meets_keep hrow hcol (by omega) hq hr hc hrp hcq
    intro mat
    by_cases hend : s.y + 1 = n - 1
    · rw [if_pos hend, if_neg (by omega)]
      exact Meets.pure rfl
    · rw [if_neg hend, if_pos (by omega)]
      exact Meets.pure rfl

theorem meets_pack {A new : Matrix T} {n p q : ℕ} (hrow : A.row = n) (hcol : A.col = n)
    (hn : 2 ≤ n) (hp : p < n) (hq : q < n) (hnewrow : new.row = n) (hnewcol : new.col = n) :
    Meets (pack A p q new) (IsMinor A n p q) := by
  have hstart : Packed A n p q 0 0 ⟨new, 0, 0⟩ :=
    packed_start hn (rank_zero p) hnewrow hnewcol
  rw [pack, hrow, hcol]
  refine Meets.bind (meets_rows hn hq (by omega) hstart ?_ ?_ ?_) fun s hs =>
    Meets.pure (hs.isMinor hp)
  · intro c s _
    rw [if_neg (by simp)]
    exact Meets.pure rfl
  · intro r s
    rw [if_neg (by simp)]
    exact Meets.pure rfl
  · intro r c s hlo hr hc hrp hcq hs
    rw [if_pos ⟨hrp, hcq⟩]
    apply hs.meets_keep hrow hcol hp hq hr hc hrp hcq
    intro mat
    by_cases hend : s.y < n - 2
    · rw [if_pos hend, if_pos (by omega)]
      exact Meets.pure rfl
    · rw [if_neg hend, if_neg (by omega)]
      exact Meets.pure rfl

end CommonLib.Math
