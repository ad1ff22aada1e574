import CommonLib.Library.Member
import CommonLib.Model.Matrix

/-! The filter of matrices of `KalmanFilter.hpp`. The operands of an expression are evaluated from
left to right. -/

namespace CommonLib.Math

open CommonLib.Member (this modify eval)

universe u

structure KalmanFilter (T : Type u) where
  H : Matrix T
  Q : Matrix T
  R : Matrix T
  x : Matrix T
  P : Matrix T
  first : Bool := true

namespace KalmanFilter

variable {T : Type u}

abbrev Call (T : Type u) (α : Type u) := Member (KalmanFilter T) (Memory T) Failure α

/-- `_x = value`; the sizes are compared before anything is written. -/
def assignX (value : Calc T (Matrix T)) : Call T PUnit := do
  let value ← eval value
  let filter ← this
  let x ← eval (filter.x.assign value)
  modify fun filter => { filter with x := x }

/-- `_P = value` -/
def assignP (value : Calc T (Matrix T)) : Call T PUnit := do
  let value ← eval value
  let filter ← this
  let P ← eval (filter.P.assign value)
  modify fun filter => { filter with P := P }

variable [Field T]

/-- `A * _P * A.transpose() + _Q` -/
def predict (A P Q : Matrix T) : Calc T (Matrix T) := do
  let AP ← A.mul P
  let At ← A.transpose
  let APAt ← AP.mul At
  APAt.add Q

/-- `(Pp * _H.transpose()) * util::inverse(_H * Pp * _H.transpose() + _R)` -/
def gain [DecidableEq T] (Pp H R : Matrix T) : Calc T (Matrix T) := do
  let Ht ← H.transpose
  let PpHt ← Pp.mul Ht
  let HPp ← H.mul Pp
  let Ht ← H.transpose
  let HPpHt ← HPp.mul Ht
  let S ← HPpHt.add R
  let inv ← inverse S
  PpHt.mul inv

/-- `xp + K * (z - (_H * xp))` -/
def estimate (xp K z H : Matrix T) : Calc T (Matrix T) := do
  let Hxp ← H.mul xp
  let y ← z.sub Hxp
  let Ky ← K.mul y
  xp.add Ky

/-- `Pp - K * _H * Pp` -/
def update (Pp K H : Matrix T) : Calc T (Matrix T) := do
  let KH ← K.mul H
  let KHPp ← KH.mul Pp
  Pp.sub KHPp

def run [DecidableEq T] (A z : Matrix T) : Call T (Matrix T) := do
  let filter ← this
  if !filter.first then
    let xp ← eval (A.mul filter.x)
    let Pp ← eval (predict A filter.P filter.Q)
    let K ← eval (gain Pp filter.H filter.R)
    assignX (estimate xp K z filter.H)
    assignP (update Pp K filter.H)
  else
    modify fun filter => { filter with first := false }
  let filter ← this
  eval filter.x.copy

end KalmanFilter

end CommonLib.Math
