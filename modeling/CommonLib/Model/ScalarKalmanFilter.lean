import Mathlib.Algebra.Field.Defs

/-! The filter of numbers of `KalmanFilter.hpp`. -/

namespace CommonLib.Math

structure ScalarKalmanFilter (T : Type*) where
  Q : T
  R : T
  P : T
  deriving DecidableEq, Repr

namespace ScalarKalmanFilter

variable {T : Type*} [Field T]

/-- `_P = _P + _Q` -/
def predict (filter : ScalarKalmanFilter T) : ScalarKalmanFilter T :=
  { filter with P := filter.P + filter.Q }

/-- `_P / (_P + _R)` -/
def gain (filter : ScalarKalmanFilter T) : T :=
  filter.P / (filter.P + filter.R)

/-- `prediction + K * (measurement - prediction)` -/
def estimate (K measurement prediction : T) : T :=
  prediction + K * (measurement - prediction)

/-- `_P = (1 - K) * _P` -/
def update (K : T) (filter : ScalarKalmanFilter T) : ScalarKalmanFilter T :=
  { filter with P := (1 - K) * filter.P }

def run (measurement prediction : T) (filter : ScalarKalmanFilter T) : T × ScalarKalmanFilter T :=
  let filter := filter.predict
  let K := filter.gain
  (estimate K measurement prediction, filter.update K)

/-- The filter behind some calls of `run`, with their arguments. -/
def afterRuns (filter : ScalarKalmanFilter T) (calls : List (T × T)) : ScalarKalmanFilter T :=
  calls.foldl (fun filter call => (run call.1 call.2 filter).2) filter

end ScalarKalmanFilter

end CommonLib.Math
