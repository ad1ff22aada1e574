import CommonLib.Library.Machine
import Mathlib.Logic.Function.Basic

/-! `LazySingleton::get_instance` of `Singleton.hpp`, as it is compiled outside of Windows. The
static guard covers the empty pointer only; the null test and the assignment come behind it. -/

namespace CommonLib.Singletons

/-- Where a thread is in `get_instance`. -/
inductive LazySingleton.Phase
  | idle
  /-- In front of `instance == nullptr`. -/
  | testing
  /-- In front of `std::make_shared<Derived>()`. -/
  | constructing
  /-- In front of the assignment of what it has constructed. -/
  | assigning (object : ℕ)
  /-- In front of `return instance`. -/
  | returning
  deriving DecidableEq, Repr

/-- Objects are numbered in the order of their construction. -/
structure LazySingleton (ι : Type*) where
  instance? : Option ℕ
  constructed : ℕ
  phase : ι → LazySingleton.Phase
  /-- What the calls have returned, in order. -/
  returned : List (ι × Option ℕ)

variable {ι : Type*} [DecidableEq ι]

def LazySingleton.setPhase (s : LazySingleton ι) (i : ι) (phase : Phase) : LazySingleton ι :=
  { s with phase := Function.update s.phase i phase }

/-- The thread `i` takes its next step; an idle one calls `get_instance`. -/
def LazySingleton.step (s : LazySingleton ι) (i : ι) : Option (LazySingleton ι) :=
  match s.phase i with
  | .idle => some (s.setPhase i .testing)
  | .testing =>
      if s.instance? = none then some (s.setPhase i .constructing)
      else some (s.setPhase i .returning)
  | .constructing =>
      some ({ s with constructed := s.constructed + 1 }.setPhase i (.assigning s.constructed))
  | .assigning object => some ({ s with instance? := some object }.setPhase i .returning)
  | .returning =>
      some ({ s with returned := s.returned ++ [(i, s.instance?)] }.setPhase i .idle)

def LazySingleton.init : LazySingleton ι := ⟨none, 0, fun _ => .idle, []⟩

variable (ι) in
def LazySingleton.machine : Machine (LazySingleton ι) ι where
  init := .init
  step := LazySingleton.step

end CommonLib.Singletons
