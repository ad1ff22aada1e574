import Mathlib.Algebra.Ring.Defs

/-! The filter of `LowPassFilter.hpp`. -/

namespace CommonLib.Math

structure LowPassFilter (T : Type*) where
  /-- `_prev` -/
  prev : T
  /-- `_alpha` -/
  alpha : T
  /-- `_first` -/
  first : Bool
  deriving DecidableEq, Repr

namespace LowPassFilter

variable {T : Type*} [Ring T]

def new (init alpha : T) : LowPassFilter T := ⟨init, alpha, true⟩

/-- `if (_first) { _prev = x; _first = false; }` -/
def start (x : T) (filter : LowPassFilter T) : LowPassFilter T :=
  if filter.first then { filter with prev := x, first := false } else filter

/-- `_prev = _alpha * _prev + (1 - _alpha) * x` -/
def smooth (x : T) (filter : LowPassFilter T) : LowPassFilter T :=
  { filter with prev := filter.alpha * filter.prev + (1 - filter.alpha) * x }

def run (x : T) (filter : LowPassFilter T) : T × LowPassFilter T :=
  let filter := (filter.start x).smooth x
  (filter.prev, filter)

/-- The filter behind some calls of `run`. -/
def afterRuns (filter : LowPassFilter T) (xs : List T) : LowPassFilter T :=
  xs.foldl (fun filter x => (filter.run x).2) filter

end LowPassFilter

end CommonLib.Math
