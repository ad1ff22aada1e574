import CommonLib.Model.KalmanFilter
import CommonLib.Verification.Matrix.Shapes
import Mathlib.Algebra.Field.Rat

/-! # A failing step leaves the filter unchanged

`run` writes the new state before it evaluates the expression for the new covariance. By then every
size that this expression depends on has been compared by an operation that returned, so it cannot
fail any more. -/

namespace CommonLib.Math.KalmanFilter

open Program Member

universe u

variable {T : Type u}

/-! ### Expressions -/

section

variable [Field T]

/-- A prediction says that the old covariance is square, as wide as the motion. -/
theorem ensures_predict (A P Q : Matrix T) :
    Ensures (predict A P Q) fun Pp =>
      P.row = A.col ∧ P.col = A.col ∧ Q.row = A.row ∧ Pp.Shape A.row A.row := by
  refine (Matrix.ensures_mul A P).bind fun AP hAP => ?_
  refine (Matrix.meets_transpose A.shape_self).ensures.bind fun At hAt => ?_
  refine (Matrix.ensures_mul AP At).bind fun APAt hAPAt => ?_
  have hshape : APAt.Shape A.row A.row :=
    ⟨hAPAt.2.1.trans hAP.2.1, hAPAt.2.2.trans hAt.col⟩
  refine (Matrix.ensures_elementwise (· + ·) hshape).imp fun Pp hPp => ?_
  have hcol : P.col = A.col := by
    rw [← hAP.2.2, hAPAt.1, hAt.row]
  exact ⟨hAP.1.symm, hcol, hPp.1.row, hPp.2⟩

theorem ensures_gain [DecidableEq T] {Pp : Matrix T} {n : ℕ} (hPp : Pp.Shape n n)
    (H R : Matrix T) :
    Ensures (gain Pp H R) fun K => H.col = n ∧ R.row = H.row ∧ K.Shape n H.row := by
  have htranspose := (Matrix.meets_transpose H.shape_self).ensures
  refine htranspose.bind fun Ht hHt => ?_
  refine (Matrix.ensures_mul Pp Ht).bind fun PpHt hPpHt => ?_
  refine (Matrix.ensures_mul H Pp).bind fun HPp hHPp => ?_
  refine htranspose.bind fun Ht' hHt' => ?_
  refine (Matrix.ensures_mul HPp Ht').bind fun HPpHt hHPpHt => ?_
  have hshape : HPpHt.Shape H.row H.row :=
    ⟨hHPpHt.2.1.trans hHPp.2.1, hHPpHt.2.2.trans hHt'.col⟩
  refine (Matrix.ensures_elementwise (· + ·) hshape).bind fun S hS => ?_
  refine (Matrix.ensures_inverse hS.2).bind fun inv hinv => ?_
  refine (Matrix.ensures_mul PpHt inv).imp fun K hK => ?_
  refine ⟨hHPp.1.trans hPp.row, hS.1.row, ?_, hK.2.2.trans hinv.col⟩
  exact hK.2.1.trans (hPpHt.2.1.trans hPp.row)

/-- The estimate has as many rows as what it corrects. -/
theorem ensures_estimate (xp K z H : Matrix T) :
    Ensures (estimate xp K z H) fun x => x.row = xp.row := by
  refine (Ensures.trivial _).bind fun Hxp _ => ?_
  refine (Ensures.trivial _).bind fun y _ => ?_
  refine (Ensures.trivial _).bind fun Ky _ => ?_
  exact (Matrix.ensures_elementwise (· + ·) xp.shape_self).imp fun x hx => hx.2.row

theorem meets_update {Pp K H : Matrix T} {n m : ℕ} (hPp : Pp.Shape n n) (hK : K.Shape n m)
    (hH : H.Shape m n) (hn : 0 < n) (hm : 0 < m) :
    Meets (update Pp K H) fun P => P.Shape n n := by
  refine (Matrix.meets_mul hK hH hm).bind fun KH hKH => ?_
  refine (Matrix.meets_mul hKH hPp hn).bind fun KHPp hKHPp => ?_
  exact Matrix.meets_elementwise (· - ·) hPp hKHPp

end

/-! ### Assignments -/

theorem atomic_assignX {value : Calc T (Matrix T)} {filter : KalmanFilter T}
    {P : Matrix T → Prop} (hvalue : Ensures value P) :
    Atomic (assignX value) filter fun _ filter' =>
      ∃ x, filter' = { filter with x := x } ∧ P x ∧ x.Shape filter.x.row filter.x.col := by
  refine (Atomic.eval hvalue).read fun x hx => ?_
  refine Completes.this.atomic.read ?_
  rintro _ rfl
  refine (Atomic.eval (Matrix.ensures_assign _ x)).read ?_
  rintro _ ⟨hshape, rfl⟩
  refine (Completes.modify _).atomic.imp ?_
  rintro _ _ rfl
  exact ⟨_, rfl, hx, hshape⟩

theorem completes_assignP {value : Calc T (Matrix T)} {filter : KalmanFilter T}
    (hvalue : Meets value fun P => P.Shape filter.P.row filter.P.col) :
    Completes (assignP value) filter fun _ _ => True := by
  refine (Completes.eval hvalue).bind ?_
  rintro P _ ⟨rfl, hshape⟩
  refine Completes.this.bind ?_
  rintro _ _ ⟨rfl, rfl⟩
  refine (Completes.eval (Matrix.returns_assign hshape.row.symm hshape.col.symm)).bind ?_
  rintro _ _ ⟨rfl, rfl⟩
  exact (Completes.modify _).imp fun _ _ _ => trivial

/-- The result is a copy of the state. -/
theorem completes_result (filter : KalmanFilter T) :
    Completes (do
      let filter ← this
      eval filter.x.copy : Call T (Matrix T)) filter fun _ _ => True := by
  refine Completes.this.bind ?_
  rintro _ _ ⟨rfl, rfl⟩
  exact (Completes.eval (Matrix.returns_copy _)).imp fun _ _ _ => trivial

/-! ### The step -/

section

variable [Field T] [DecidableEq T]

theorem completes_first {filter : KalmanFilter T} (hfirst : filter.first = true)
    (A z : Matrix T) : Completes (run A z) filter fun _ _ => True := by
  refine Completes.this.bind ?_
  rintro _ _ ⟨rfl, rfl⟩
  simp only [hfirst, Bool.not_true, Bool.false_eq_true, if_false]
  exact (Completes.modify _).bind fun _ filter _ => completes_result filter

/-- Up to the assignment of the state nothing is written, behind it nothing fails. -/
theorem atomic_step {filter : KalmanFilter T} (hfirst : filter.first = false) (A z : Matrix T)
    (hQ : 0 < filter.Q.row) (hR : 0 < filter.R.row) :
    Atomic (run A z) filter fun _ _ => True := by
  refine Completes.this.atomic.read ?_
  rintro filter rfl
  simp only [hfirst, Bool.not_false, if_true]
  refine (Atomic.eval (Matrix.ensures_mul A filter.x)).read fun xp hxp => ?_
  refine (Atomic.eval (ensures_predict A filter.P filter.Q)).read fun Pp hPp => ?_
  obtain ⟨hProw, hPcol, hQrow, hPpshape⟩ := hPp
  refine (Atomic.eval (ensures_gain hPpshape filter.H filter.R)).read fun K hK => ?_
  obtain ⟨hHcol, hRrow, hKshape⟩ := hK
  refine (atomic_assignX (ensures_estimate xp K z filter.H)).write ?_
  rintro _ _ ⟨x, rfl, hx, hxshape⟩
  -- the state had as many rows as `A` has, so `A` and the old covariance are square
  have hA : A.col = A.row := by
    rw [hxp.1, ← hxshape.row, hx, hxp.2.1]
  have hupdate : Meets (update Pp K filter.H) fun P => P.Shape filter.P.row filter.P.col := by
    rw [hProw, hPcol, hA]
    exact meets_update hPpshape hKshape ⟨rfl, hHcol⟩ (hQrow ▸ hQ) (hRrow ▸ hR)
  have hassign : Completes (assignP (update Pp K filter.H)) { filter with x := x } fun _ _ => True :=
    completes_assignP hupdate
  exact hassign.bind fun _ filter _ => completes_result filter

/-- A call that fails leaves the filter as it was, with its state and its covariance. -/
theorem run_error_unchanged (filter : KalmanFilter T) (A z : Matrix T) (hQ : 0 < filter.Q.row)
    (hR : 0 < filter.R.row) {memory : Memory T} {e : Failure} {filter' : KalmanFilter T}
    (h : run A z filter memory = (.error e, filter')) : filter' = filter := by
  cases hfirst : filter.first with
  | true => exact (completes_first hfirst A z).atomic.eq_of_error h
  | false => exact (atomic_step hfirst A z hQ hR).eq_of_error h

end

/-- With a motion that adds a row, everything is computed before the state turns out not to fit. -/
def growing : KalmanFilter ℚ where
  H := ⟨1, 2, 0⟩
  Q := ⟨2, 2, 0⟩
  R := ⟨1, 1, 1⟩
  x := ⟨1, 1, 0⟩
  P := ⟨1, 1, 0⟩
  first := false

theorem run_growing : ∃ filter',
    run ⟨2, 1, 0⟩ ⟨1, 1, 0⟩ growing (fun _ _ _ => 0) =
      (.error (.outOfRange "Matrix size not matched."), filter') ∧ filter' = growing := by
  have hfailure : (match (run ⟨2, 1, 0⟩ ⟨1, 1, 0⟩ growing fun _ _ _ => 0).1 with
      | .ok _ => none
      | .error e => some e) = some (Failure.outOfRange "Matrix size not matched.") := by
    decide +kernel
  rcases hrun : run ⟨2, 1, 0⟩ ⟨1, 1, 0⟩ growing fun _ _ _ => 0 with ⟨result, filter'⟩
  rw [hrun] at hfailure
  cases result with
  | ok result => cases hfailure
  | error e =>
      cases hfailure
      exact ⟨filter', rfl, run_error_unchanged growing _ _ Nat.two_pos Nat.one_pos hrun⟩

end CommonLib.Math.KalmanFilter
