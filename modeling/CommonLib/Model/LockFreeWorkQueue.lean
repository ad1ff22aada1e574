import Mathlib.Algebra.Group.Nat.Defs
import Mathlib.Logic.Function.Basic

/-! `LockFreeWorkQueue.hpp` as seen by one thread: every operation runs from its first access to
its last one with nobody in between. Indices and sizes are `size_t` values of 64 bits. -/

namespace CommonLib.LockFreeWorkQueue

variable {T : Type*}

/-- How an operation can end without returning. -/
inductive Failure
  /-- `new T[size]` throws. -/
  | badArrayNewLength
  /-- `index % _size` with an empty buffer. -/
  | divisionByZero
  deriving DecidableEq

/-- A slot is `none` as long as nothing has been assigned to it. -/
structure CircularArray (T : Type*) where
  size : ℕ
  buffer : ℕ → Option T

namespace CircularArray

/-- No array has more than `PTRDIFF_MAX` bytes. -/
def new (size : ℕ) : Except Failure (CircularArray T) :=
  if size < 2 ^ 63 then .ok ⟨size, fun _ => none⟩ else .error .badArrayNewLength

def get (array : CircularArray T) (index : ℕ) : Except Failure (Option T) :=
  if array.size = 0 then .error .divisionByZero
  else .ok (array.buffer (index % array.size))

def put (array : CircularArray T) (index : ℕ) (item : Option T) :
    Except Failure (CircularArray T) :=
  if array.size = 0 then .error .divisionByZero
  else .ok { array with buffer := Function.update array.buffer (index % array.size) item }

/-- `n` more turns of the loop in `resize`, from index `i` on. -/
def copy (array newArray : CircularArray T) : ℕ → ℕ → Except Failure (CircularArray T)
  | _, 0 => .ok newArray
  | i, n + 1 => do
      let item ← array.get i
      let newArray ← newArray.put i item
      copy array newArray (i + 1) n

/-- The size of the array that `resize` makes. -/
def doubled (array : CircularArray T) : ℕ :=
  array.size * 2 % 2 ^ 64

def resize (array : CircularArray T) (bottom top : ℕ) : Except Failure (CircularArray T) := do
  let newArray ← new array.doubled
  copy array newArray top (bottom - top)

/-- `array->_size * 3 / 4` -/
def threshold (array : CircularArray T) : ℕ :=
  array.size * 3 % 2 ^ 64 / 4

end CircularArray

def nextPowerOf2 (n : ℕ) : ℕ :=
  if n ≤ 1 then 1
  else
    let n := n - 1
    let n := n ||| n >>> 1
    let n := n ||| n >>> 2
    let n := n ||| n >>> 4
    let n := n ||| n >>> 8
    let n := n ||| n >>> 16
    let n := n ||| n >>> 32
    (n + 1) % 2 ^ 64

/-- `bottom - top` -/
def distance (bottom top : ℕ) : ℕ :=
  (bottom + 2 ^ 64 - top) % 2 ^ 64

structure Queue (T : Type*) where
  top : ℕ
  bottom : ℕ
  array : CircularArray T

namespace Queue

def new (initialSize : ℕ) : Except Failure (Queue T) := do
  let array ← CircularArray.new (nextPowerOf2 initialSize)
  return ⟨0, 0, array⟩

def push (q : Queue T) (item : T) : Except Failure (Queue T) := do
  let array ←
    if q.array.threshold ≤ distance q.bottom q.top then q.array.resize q.bottom q.top
    else pure q.array
  let array ← array.put q.bottom (some item)
  return { q with array := array, bottom := (q.bottom + 1) % 2 ^ 64 }

/-- `none` is the return value `false`, and `some result` is `true`. The compare-exchange succeeds,
since nobody moves `_top` meanwhile. -/
def pop (q : Queue T) : Except Failure (Option (Option T) × Queue T) :=
  let bottom := distance q.bottom 1
  if q.top ≤ bottom then do
    let result ← q.array.get bottom
    if q.top = bottom then
      return (some result,
        { q with top := (q.top + 1) % 2 ^ 64, bottom := (bottom + 1) % 2 ^ 64 })
    else
      return (some result, { q with bottom := bottom })
  else return (none, { q with bottom := (bottom + 1) % 2 ^ 64 })

def steal (q : Queue T) : Except Failure (Option (Option T) × Queue T) :=
  if q.top < q.bottom then do
    let result ← q.array.get q.top
    return (some result, { q with top := (q.top + 1) % 2 ^ 64 })
  else return (none, q)

def empty (q : Queue T) : Bool :=
  q.bottom ≤ q.top

def size (q : Queue T) : ℕ :=
  if q.top ≤ q.bottom then distance q.bottom q.top else 0

end Queue

inductive Op (T : Type*)
  | push (item : T)
  | pop
  | steal
  deriving DecidableEq

namespace Queue

/-- One operation of any kind; a push reports nothing. -/
def perform (q : Queue T) : Op T → Except Failure (Option (Option T) × Queue T)
  | .push item => do return (none, ← q.push item)
  | .pop => q.pop
  | .steal => q.steal

end Queue

end CommonLib.LockFreeWorkQueue
