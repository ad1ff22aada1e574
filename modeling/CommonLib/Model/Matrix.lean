import CommonLib.Library.Program
import Mathlib.Data.Matrix.Basic

/-! The matrices of `matrix.hpp`. A matrix is allocated without being initialised, so the contents
of new matrices come from a store that nothing is known about. Reading or writing outside of a
matrix is an outcome of its own. `std::pow(-1, k)` is the exact sign. -/

namespace CommonLib

universe u

/-- The entries of a matrix with `m` rows and `n` columns. -/
abbrev Entries (m n : ℕ) (T : Type u) := Matrix (Fin m) (Fin n) T

namespace Math

inductive Failure
  /-- `std::out_of_range` was thrown. -/
  | outOfRange (message : String)
  /-- An element outside of its matrix was read or written. -/
  | outOfBounds
  deriving DecidableEq

structure Matrix (T : Type u) where
  row : ℕ
  col : ℕ
  mat : Entries row col T

/-- What the matrices that are made from now on contain before they are written to. -/
abbrev Memory (T : Type u) := ℕ → ℕ → ℕ → T

abbrev Calc (T : Type u) (α : Type u) := Program (Memory T) Failure α

variable {T σ : Type u}

namespace Matrix

/-- `Matrix(row, col)` -/
def alloc (row col : ℕ) : Calc T (Matrix T) := fun memory =>
  .ok (⟨row, col, fun r c => memory 0 r c⟩, fun n => memory (n + 1))

def at? (mat : Matrix T) (r c : ℕ) : Option T :=
  if h : r < mat.row ∧ c < mat.col then some (mat.mat ⟨r, h.1⟩ ⟨c, h.2⟩) else none

/-- `mat[r][c]` -/
def get (mat : Matrix T) (r c : ℕ) : Calc T T :=
  match mat.at? r c with
  | some value => pure value
  | none => throw .outOfBounds

def put (mat : Matrix T) (r c : ℕ) (value : T) : Matrix T :=
  { mat with mat := fun i j => if i.val = r ∧ j.val = c then value else mat.mat i j }

/-- `mat[r][c] = value` -/
def set (mat : Matrix T) (r c : ℕ) (value : T) : Calc T (Matrix T) :=
  if r < mat.row ∧ c < mat.col then pure (mat.put r c value) else throw .outOfBounds

/-- `traversal` with a function of row and column, which changes `s`. -/
def traversal (mat : Matrix T) (s : σ) (func : ℕ → ℕ → σ → Calc T σ) : Calc T σ :=
  forRange 0 mat.row s fun row s => forRange 0 mat.col s fun col s => func row col s

/-- `traversal` with a function of row, column and value. -/
def traversalValue (mat : Matrix T) (s : σ) (func : ℕ → ℕ → T → σ → Calc T σ) : Calc T σ :=
  forRange 0 mat.row s fun row s => forRange 0 mat.col s fun col s => do
    let value ← mat.get row col
    func row col value s

/-- `Matrix(const Matrix& mat)` -/
def copy (mat : Matrix T) : Calc T (Matrix T) := do
  let rtn ← alloc mat.row mat.col
  forRange 0 mat.row rtn fun row rtn => forRange 0 mat.col rtn fun col rtn => do
    let value ← mat.get row col
    rtn.set row col value

/-- `operator=`; the matrix as it is behind the assignment. The function has no `return` for the
value it is to give, and is taken to come back all the same. -/
def assign (this mat : Matrix T) : Calc T (Matrix T) :=
  if this.col ≠ mat.col ∨ this.row ≠ mat.row then
    throw (.outOfRange "Matrix size not matched.")
  else
    this.traversal this fun row col this => do
      let value ← mat.get row col
      this.set row col value

def transpose (mat : Matrix T) : Calc T (Matrix T) := do
  let rtn ← alloc mat.col mat.row
  mat.traversalValue rtn fun row col value rtn => rtn.set col row value

/-- `operator+` and `operator-` -/
def elementwise (op : T → T → T) (lhs rhs : Matrix T) : Calc T (Matrix T) :=
  if lhs.row ≠ rhs.row ∨ lhs.col ≠ rhs.col then throw (.outOfRange "Size not matched.")
  else do
    let rtn ← alloc lhs.row lhs.col
    rtn.traversal rtn fun row col rtn => do
      let l ← lhs.get row col
      let r ← rhs.get row col
      rtn.set row col (op l r)

def add [Add T] (lhs rhs : Matrix T) : Calc T (Matrix T) :=
  elementwise (· + ·) lhs rhs

def sub [Sub T] (lhs rhs : Matrix T) : Calc T (Matrix T) :=
  elementwise (· - ·) lhs rhs

/-- One entry of the product, summed up from the first summand on. -/
def dot [Add T] [Mul T] (lhs rhs : Matrix T) (row col : ℕ) : Calc T T := do
  let l ← lhs.get row 0
  let r ← rhs.get 0 col
  forRange 1 lhs.col (l * r) fun x sum => do
    let l ← lhs.get row x
    let r ← rhs.get x col
    pure (sum + l * r)

def mul [Add T] [Mul T] (lhs rhs : Matrix T) : Calc T (Matrix T) :=
  if lhs.col ≠ rhs.row then throw (.outOfRange "Size not matched.")
  else do
    let rtn ← alloc lhs.row rhs.col
    forRange 0 lhs.row rtn fun row rtn => forRange 0 rhs.col rtn fun col rtn => do
      let sum ← dot lhs rhs row col
      rtn.set row col sum

/-- `scalar * rhs`; the result is made with the column count as its rows. -/
def smul [Mul T] (scalar : T) (rhs : Matrix T) : Calc T (Matrix T) := do
  let rtn ← alloc rhs.col rhs.row
  rhs.traversalValue rtn fun row col value rtn => rtn.set row col (value * scalar)

/-- `lhs / scalar` -/
def div [Div T] (lhs : Matrix T) (scalar : T) : Calc T (Matrix T) := do
  let rtn ← copy lhs
  rtn.traversal rtn fun row col rtn => do
    let value ← rtn.get row col
    rtn.set row col (value / scalar)

end Matrix

/-! The functions of `util`. -/

/-- Where the next entry of a packed matrix goes. -/
structure Packing (T : Type u) where
  mat : Matrix T
  x : ℕ
  y : ℕ

/-- Packs what is left of `minor_mat` without its first row and the column `mat_size`. -/
def minor (minor_mat : Matrix T) (mat_size : ℕ) (new_minor_mat : Matrix T) :
    Calc T (Matrix T) := do
  let s ← forRange 1 minor_mat.row ⟨new_minor_mat, 0, 0⟩ fun row s =>
    forRange 0 minor_mat.col s fun col (s : Packing T) =>
      if col = mat_size then pure s
      else do
        let value ← minor_mat.get row col
        let mat ← s.mat.set s.x s.y value
        if s.y + 1 = minor_mat.col - 1 then pure ⟨mat, s.x + 1, 0⟩
        else pure ⟨mat, s.x, s.y + 1⟩
  pure s.mat

/-- The sum and the scratch matrix of the loop in `determine`. -/
structure Expansion (T : Type u) where
  sum : T
  new_minor_mat : Matrix T

def determine [Ring T] (minor_mat : Matrix T) (size : ℕ) : Calc T T := do
  let new_minor_mat ← Matrix.alloc minor_mat.col minor_mat.row
  match size with
  | 1 => minor_mat.get 0 0
  | 2 =>
      let a ← minor_mat.get 0 0
      let d ← minor_mat.get 1 1
      let b ← minor_mat.get 0 1
      let c ← minor_mat.get 1 0
      pure (a * d - b * c)
  | 0 => pure 0
  | size + 3 =>
      let s ← forRange 0 (size + 3) ⟨0, new_minor_mat⟩ fun col (s : Expansion T) => do
        let new_minor_mat ← minor minor_mat col s.new_minor_mat
        let value ← minor_mat.get 0 col
        let det ← determine new_minor_mat (size + 2)
        pure ⟨s.sum + value * (-1) ^ col * det, new_minor_mat⟩
      pure s.sum

/-- Packs what is left of `minor_mat` without the row `row3` and the column `col3`. -/
def pack (minor_mat : Matrix T) (row3 col3 : ℕ) (new_minor_mat : Matrix T) :
    Calc T (Matrix T) := do
  let s ← forRange 0 minor_mat.row ⟨new_minor_mat, 0, 0⟩ fun row s =>
    forRange 0 minor_mat.col s fun col (s : Packing T) =>
      if row ≠ row3 ∧ col ≠ col3 then do
        let value ← minor_mat.get row col
        let mat ← s.mat.set s.x s.y value
        if s.y < minor_mat.col - 2 then pure ⟨mat, s.x, s.y + 1⟩
        else pure ⟨mat, s.x + 1, 0⟩
      else pure s
  pure s.mat

/-- The two matrices that `cofactor` writes to. -/
structure Cofactors (T : Type u) where
  new_minor_mat : Matrix T
  cofactor_mat : Matrix T

def cofactor [Ring T] (minor_mat : Matrix T) : Calc T (Matrix T) := do
  let new_minor_mat ← Matrix.alloc minor_mat.col minor_mat.row
  let cofactor_mat ← Matrix.alloc minor_mat.col minor_mat.row
  let s ← forRange 0 minor_mat.row ⟨new_minor_mat, cofactor_mat⟩ fun row3 s =>
    forRange 0 minor_mat.col s fun col3 (s : Cofactors T) => do
      let new_minor_mat ← pack minor_mat row3 col3 s.new_minor_mat
      let det ← determine new_minor_mat (minor_mat.row - 1)
      let cofactor_mat ← s.cofactor_mat.set row3 col3 ((-1) ^ (row3 + col3) * det)
      pure ⟨new_minor_mat, cofactor_mat⟩
  s.cofactor_mat.transpose

def inverse [Field T] [DecidableEq T] (mat : Matrix T) : Calc T (Matrix T) := do
  let determinate ← determine mat mat.row
  if determinate = 0 then throw (.outOfRange "Has no inverse")
  else if determinate = 1 then do
    let rnt ← mat.copy
    rnt.set 0 0 1
  else do
    let adj ← cofactor mat
    adj.div determinate

end Math

end CommonLib
