import CommonLib.Model.Matrix
import Mathlib.Algebra.Field.Basic
import Mathlib.Data.Rat.Cast.OfScientific

/-! The angles of `angle.cpp`, over any field with the functions that the code takes from `cmath`. -/

namespace CommonLib.Math

universe u

/-- The functions of `cmath`. -/
structure Cmath (T : Type*) where
  sin : T → T
  cos : T → T
  asin : T → T
  /-- The ordinate comes first. -/
  atan2 : T → T → T

@[ext] structure Euler (T : Type*) where
  roll : T
  pitch : T
  yaw : T

@[ext] structure Quaternion (T : Type*) where
  w : T
  x : T
  y : T
  z : T

variable {T : Type*} [Field T] (cmath : Cmath T)

def Euler.toQuaternion (e : Euler T) : Quaternion T :=
  let sr := cmath.sin (e.roll / 2)
  let cr := cmath.cos (e.roll / 2)
  let sp := cmath.sin (e.pitch / 2)
  let cp := cmath.cos (e.pitch / 2)
  let sy := cmath.sin (e.yaw / 2)
  let cy := cmath.cos (e.yaw / 2)
  { w := cr * cp * cy + sr * sp * sy
    x := sr * cp * cy - cr * sp * sy
    y := cr * sp * cy + sr * cp * sy
    z := cr * cp * sy - sr * sp * cy }

def Quaternion.toEuler (q : Quaternion T) : Euler T :=
  let t0 := 2 * (q.y * q.z + q.w * q.x)
  let t1 := 1 - 2 * (q.x * q.x + q.y * q.y)
  let t2 := 2 * (q.x * q.z - q.w * q.y)
  let t3 := 2 * (q.x * q.y + q.w * q.z)
  let t4 := 1 - 2 * (q.y * q.y + q.z * q.z)
  { roll := cmath.atan2 t0 t1
    pitch := (-1) * cmath.asin t2
    yaw := cmath.atan2 t3 t4 }

/-- `Euler::from_acc`; the last component is not used. -/
def Euler.fromAcc (x y _z : T) : Euler T :=
  let pitch := cmath.asin (x / 9.8)
  { roll := cmath.asin ((-1) * y / (9.8 * cmath.cos pitch))
    pitch := pitch
    yaw := 0 }

/-! ## Columns -/

def Euler.toMatrix {T : Type u} (e : Euler T) : Calc T (Matrix T) := do
  let m ← Matrix.alloc 3 1
  let m ← m.set 0 0 e.roll
  let m ← m.set 1 0 e.pitch
  m.set 2 0 e.yaw

def Euler.fromMatrix {T : Type u} (m : Matrix T) : Calc T (Euler T) :=
  if m.col ≠ 1 ∨ m.row ≠ 3 then throw (.outOfRange "Matrix size not matched.")
  else do
    let roll ← m.get 0 0
    let pitch ← m.get 1 0
    let yaw ← m.get 2 0
    pure ⟨roll, pitch, yaw⟩

def Quaternion.toMatrix {T : Type u} (q : Quaternion T) : Calc T (Matrix T) := do
  let m ← Matrix.alloc 4 1
  let m ← m.set 0 0 q.w
  let m ← m.set 1 0 q.x
  let m ← m.set 2 0 q.y
  m.set 3 0 q.z

def Quaternion.fromMatrix {T : Type u} (m : Matrix T) : Calc T (Quaternion T) :=
  if m.col ≠ 1 ∨ m.row ≠ 4 then throw (.outOfRange "Matrix size not matched.")
  else do
    let w ← m.get 0 0
    let x ← m.get 1 0
    let y ← m.get 2 0
    let z ← m.get 3 0
    pure ⟨w, x, y, z⟩

end CommonLib.Math
