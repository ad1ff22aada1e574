import CommonLib.Library.Machine
import CommonLib.Model.LockFreeWorkQueue

/-! `LockFreeWorkQueue.hpp` under one owner, who pushes and pops, and any number of thieves. A step
is one access to an atomic or to a slot, and the accesses are sequentially consistent. Arrays have
numbers and are never freed, since whoever uses one holds a `shared_ptr` to it. -/

namespace CommonLib.LockFreeWorkQueue

variable {ι T : Type*}

/-- Where the owner stands, with its local variables. -/
inductive Owner (T : Type*)
  | idle
  /-- In `push`: `_bottom.load()` -/
  | pushBottom (item : T)
  | pushTop (item : T) (bottom : ℕ)
  /-- `_array.load()`, the test for growth, and the allocation in `resize` -/
  | pushArray (item : T) (bottom top : ℕ)
  /-- In the loop of `resize`, with its counter. -/
  | copying (item : T) (bottom top array : ℕ) (newArray : CircularArray T) (i : ℕ)
  /-- `_array.store(newArray)` -/
  | storing (item : T) (bottom top : ℕ) (newArray : CircularArray T)
  /-- `array->put(bottom, item)` -/
  | putting (item : T) (bottom top array : ℕ)
  /-- `_bottom.store(bottom + 1)` -/
  | publishing (item : T) (bottom : ℕ)
  /-- In `pop`: `_bottom.load() - 1` -/
  | popBottom
  | popArray (bottom : ℕ)
  /-- `_bottom.store(bottom)` -/
  | popStore (bottom array : ℕ)
  | popTop (bottom array : ℕ)
  /-- `array->get(bottom)` -/
  | popGet (bottom array top : ℕ)
  /-- The compare-exchange of the last item, with `top == bottom`. -/
  | popExchange (bottom : ℕ) (result : Option T)
  /-- `_bottom.store(bottom + 1)`, and what is returned behind it. -/
  | popRestore (bottom : ℕ) (result : Option (Option T))
  /-- `index % _size` with an empty buffer. -/
  | crashed

/-- Where a thief stands in `steal`. -/
inductive Thief (T : Type*)
  | idle
  | loadTop
  | loadBottom (top : ℕ)
  | loadArray (top : ℕ)
  /-- `array->get(top)` -/
  | get (top array : ℕ)
  | exchange (top : ℕ) (result : Option T)
  | crashed

structure Shared (ι T : Type*) where
  top : ℕ
  bottom : ℕ
  /-- The arrays made so far, by number. -/
  arrays : ℕ → CircularArray T
  /-- The number of `_array`, which is the newest one. -/
  array : ℕ
  owner : Owner T
  thief : ι → Thief T
  /-- History variable: the items of the pushes that have stored `_bottom`. -/
  pushed : List T
  /-- History variable: what successful `pop` and `steal` calls have returned. -/
  returned : List (Option T)

inductive Action (ι T : Type*)
  /-- The owner calls `push`. -/
  | push (item : T)
  | pop
  /-- The owner takes its next step. -/
  | owner
  /-- A thief calls `steal`. -/
  | steal (i : ι)
  | thief (i : ι)

namespace Shared

/-- Right after the constructor. -/
def init (q : Queue T) : Shared ι T :=
  ⟨q.top, q.bottom, fun _ => q.array, 0, .idle, fun _ => .idle, [], []⟩

/-- `*_array` -/
def current (s : Shared ι T) : CircularArray T :=
  s.arrays s.array

def setOwner (s : Shared ι T) (pc : Owner T) : Shared ι T :=
  { s with owner := pc }

def stepPush (s : Shared ι T) : Option (Shared ι T) :=
  match s.owner with
  | .pushBottom item => some (s.setOwner (.pushTop item s.bottom))
  | .pushTop item bottom => some (s.setOwner (.pushArray item bottom s.top))
  | .pushArray item bottom top =>
      if s.current.threshold ≤ distance bottom top then
        match CircularArray.new s.current.doubled with
        | .ok newArray => some (s.setOwner (.copying item bottom top s.array newArray top))
        | .error _ => some (s.setOwner .idle)
      else some (s.setOwner (.putting item bottom top s.array))
  | .copying item bottom top array newArray i =>
      if i < bottom then
        match (s.arrays array).get i >>= newArray.put i with
        | .ok newArray => some (s.setOwner (.copying item bottom top array newArray (i + 1)))
        | .error _ => some (s.setOwner .crashed)
      else some (s.setOwner (.storing item bottom top newArray))
  | .storing item bottom top newArray =>
      some ({ s with
        arrays := Function.update s.arrays (s.array + 1) newArray,
        array := s.array + 1 }.setOwner (.putting item bottom top (s.array + 1)))
  | .putting item bottom _ array =>
      match (s.arrays array).put bottom (some item) with
      | .ok newArray =>
          some ({ s with arrays := Function.update s.arrays array newArray }.setOwner
            (.publishing item bottom))
      | .error _ => some (s.setOwner .crashed)
  | .publishing item bottom =>
      some ({ s with
        bottom := (bottom + 1) % 2 ^ 64, pushed := s.pushed ++ [item] }.setOwner .idle)
  | _ => none

def stepPop (s : Shared ι T) : Option (Shared ι T) :=
  match s.owner with
  | .popBottom => some (s.setOwner (.popArray (distance s.bottom 1)))
  | .popArray bottom => some (s.setOwner (.popStore bottom s.array))
  | .popStore bottom array => some ({ s with bottom := bottom }.setOwner (.popTop bottom array))
  | .popTop bottom array =>
      some (s.setOwner
        (if s.top ≤ bottom then .popGet bottom array s.top else .popRestore bottom none))
  | .popGet bottom array top =>
      match (s.arrays array).get bottom with
      | .ok result =>
          if top = bottom then some (s.setOwner (.popExchange bottom result))
          else some ({ s with returned := s.returned ++ [result] }.setOwner .idle)
      | .error _ => some (s.setOwner .crashed)
  | .popExchange bottom result =>
      if s.top = bottom then
        some ({ s with top := (bottom + 1) % 2 ^ 64 }.setOwner (.popRestore bottom (some result)))
      else some (s.setOwner (.popRestore bottom none))
  | .popRestore bottom result =>
      some ({ s with
        bottom := (bottom + 1) % 2 ^ 64, returned := s.returned ++ result.toList }.setOwner .idle)
  | _ => none

variable [DecidableEq ι]

def setThief (s : Shared ι T) (i : ι) (pc : Thief T) : Shared ι T :=
  { s with thief := Function.update s.thief i pc }

def stepThief (s : Shared ι T) (i : ι) : Option (Shared ι T) :=
  match s.thief i with
  | .idle => none
  | .loadTop => some (s.setThief i (.loadBottom s.top))
  | .loadBottom top => some (s.setThief i (if top < s.bottom then .loadArray top else .idle))
  | .loadArray top => some (s.setThief i (.get top s.array))
  | .get top array =>
      match (s.arrays array).get top with
      | .ok result => some (s.setThief i (.exchange top result))
      | .error _ => some (s.setThief i .crashed)
  | .exchange top result =>
      if s.top = top then
        some ({ s with
          top := (top + 1) % 2 ^ 64, returned := s.returned ++ [result] }.setThief i .idle)
      else some (s.setThief i .idle)
  | .crashed => none

def step (s : Shared ι T) : Action ι T → Option (Shared ι T)
  | .push item =>
      match s.owner with
      | .idle => some (s.setOwner (.pushBottom item))
      | _ => none
  | .pop =>
      match s.owner with
      | .idle => some (s.setOwner .popBottom)
      | _ => none
  | .owner => s.stepPush.or s.stepPop
  | .steal i =>
      match s.thief i with
      | .idle => some (s.setThief i .loadTop)
      | _ => none
  | .thief i => s.stepThief i

variable (ι) in
def machine (q : Queue T) : Machine (Shared ι T) (Action ι T) where
  init := init q
  step := step

end Shared

end CommonLib.LockFreeWorkQueue
