import CommonLib.Library.Machine
import Mathlib.Logic.Function.Basic

/-! `SingletonRegistry::get` of `Singleton.cpp`. A call is an actor of its own, so that a call made
from inside a factory is one more actor. -/

namespace CommonLib.Singletons

/-- `std::once_flag`: it is set only when a callable returns, and one runs at a time. -/
inductive OnceFlag (ι : Type*)
  | idle
  | running (i : ι)
  | done
  deriving DecidableEq, Repr

structure RegistryEntry (ι ω : Type*) where
  flag : OnceFlag ι
  instance? : Option ω
  deriving DecidableEq, Repr

/-- Where a call of `get` is. -/
inductive SingletonRegistry.Phase (τ ω : Type*)
  | idle
  | locking (type : τ)
  /-- In front of `registry.find(type)`, with the lock. -/
  | finding (type : τ)
  /-- The type is not there. -/
  | inserting (type : τ)
  | unlocking (type : τ) (entry : ℕ)
  /-- In front of `std::call_once`. -/
  | calling (type : τ) (entry : ℕ)
  /-- In the factory. -/
  | running (type : τ) (entry : ℕ)
  /-- In front of `entry->instance = ..`. -/
  | assigning (type : τ) (entry : ℕ) (object : ω)
  /-- The callable has returned. -/
  | marking (type : τ) (entry : ℕ)
  /-- In front of `return entry->instance`. -/
  | returning (type : τ) (entry : ℕ)
  deriving DecidableEq, Repr

/-- Entries are numbered in the order of their insertion. -/
structure SingletonRegistry (ι τ ω : Type*) where
  mutex : Option ι
  registry : τ → Option ℕ
  entry : ℕ → RegistryEntry ι ω
  entries : ℕ
  phase : ι → SingletonRegistry.Phase τ ω
  /-- What the successful factory runs for a type have made, in order. -/
  made : τ → List ω
  /-- What the calls have returned, with their types, in order. -/
  returned : List (τ × Option ω)

namespace SingletonRegistry

/-- `factory` ends the factory run of a call: with an object, or with an exception, which leaves the
flag as it was before and goes through `get`. -/
inductive Action (ι τ ω : Type*)
  | get (i : ι) (type : τ)
  | step (i : ι)
  | factory (i : ι) (result : Option ω)
  deriving DecidableEq, Repr

variable {ι τ ω : Type*} [DecidableEq ι] [DecidableEq τ]

def setPhase (s : SingletonRegistry ι τ ω) (i : ι) (phase : Phase τ ω) : SingletonRegistry ι τ ω :=
  { s with phase := Function.update s.phase i phase }

def setFlag (s : SingletonRegistry ι τ ω) (e : ℕ) (flag : OnceFlag ι) : SingletonRegistry ι τ ω :=
  { s with entry := Function.update s.entry e { s.entry e with flag := flag } }

def setInstance (s : SingletonRegistry ι τ ω) (e : ℕ) (object : ω) : SingletonRegistry ι τ ω :=
  { s with entry := Function.update s.entry e { s.entry e with instance? := some object } }

/-- `entry = std::make_shared<RegistryEntry>(); registry[type] = entry;` -/
def insert (s : SingletonRegistry ι τ ω) (type : τ) : SingletonRegistry ι τ ω :=
  { s with registry := Function.update s.registry type (some s.entries),
           entry := Function.update s.entry s.entries ⟨.idle, none⟩,
           entries := s.entries + 1 }

def stepCall (s : SingletonRegistry ι τ ω) (i : ι) : Option (SingletonRegistry ι τ ω) :=
  match s.phase i with
  | .idle | .running _ _ => none
  | .locking type =>
      match s.mutex with
      | none => some ({ s with mutex := some i }.setPhase i (.finding type))
      | some _ => none
  | .finding type =>
      match s.registry type with
      | none => some (s.setPhase i (.inserting type))
      | some e => some (s.setPhase i (.unlocking type e))
  | .inserting type => some ((s.insert type).setPhase i (.unlocking type s.entries))
  | .unlocking type e => some ({ s with mutex := none }.setPhase i (.calling type e))
  | .calling type e =>
      match (s.entry e).flag with
      | .idle => some ((s.setFlag e (.running i)).setPhase i (.running type e))
      | .running _ => none
      | .done => some (s.setPhase i (.returning type e))
  | .assigning type e object => some ((s.setInstance e object).setPhase i (.marking type e))
  | .marking type e => some ((s.setFlag e .done).setPhase i (.returning type e))
  | .returning type e =>
      some ({ s with returned := s.returned ++ [(type, (s.entry e).instance?)] }.setPhase i .idle)

def step (s : SingletonRegistry ι τ ω) : Action ι τ ω → Option (SingletonRegistry ι τ ω)
  | .get i type =>
      match s.phase i with
      | .idle => some (s.setPhase i (.locking type))
      | _ => none
  | .step i => s.stepCall i
  | .factory i result =>
      match s.phase i, result with
      | .running type e, some object =>
          some ({ s with made := Function.update s.made type (s.made type ++ [object]) }.setPhase i
            (.assigning type e object))
      | .running _ e, none => some ((s.setFlag e .idle).setPhase i .idle)
      | _, _ => none

def init : SingletonRegistry ι τ ω :=
  ⟨none, fun _ => none, fun _ => ⟨.idle, none⟩, 0, fun _ => .idle, fun _ => [], []⟩

variable (ι τ ω) in
def machine : Machine (SingletonRegistry ι τ ω) (Action ι τ ω) where
  init := init
  step := step

end SingletonRegistry

end CommonLib.Singletons
