import CommonLib.Library.Machine

/-! The worker of `Runnable.hpp` that is driven by notifications: `run` once, and any number of
`notify` and `stop` calls. The four variants of the class are one here: a `void` type is `Unit`.
`notify` and `stop` hold `_notifyLock` from beginning to end, so each of them is one step. -/

namespace CommonLib.Runnable

variable {δ ρ : Type*}

/-- An entry of `_tasks`. Promises are numbered in the order in which they enter the list. -/
structure Task (δ : Type*) where
  data : δ
  promise : ℕ
  deriving DecidableEq

/-- Where the thread of `run` stands. It holds `_notifyLock` from `emptyTest` to `waiting`, and
from `runTest` to `taking`. -/
inductive Worker (δ ρ : Type*)
  | none
  /-- `while(_running.load())` -/
  | loopTest
  /-- About to lock. -/
  | locking
  /-- `if(_tasks.empty())` -/
  | emptyTest
  /-- In `wait`, about to release the mutex and block. -/
  | waiting
  | blocked (notified : Bool)
  /-- Awake in `wait`, about to lock again. -/
  | relocking
  /-- `if(!_running.load()) break;` -/
  | runTest
  /-- About to look at `_tasks[0]`. -/
  | taking
  /-- Has a task in hand and is about to call `__work`. -/
  | holding (task : Task δ)
  /-- In `__work`. -/
  | working (task : Task δ)
  /-- About to set the value of the promise. -/
  | answering (task : Task δ) (result : ρ)
  | exited
  deriving DecidableEq

structure ActiveRunnable (δ ρ : Type*) where
  running : Bool
  tasks : List (Task δ)
  worker : Worker δ ρ
  /-- The values that promises were completed with, oldest first. -/
  completed : List (ℕ × ρ)
  /-- History variable: the tasks in the order in which they entered the list. -/
  entered : List (Task δ)
  /-- History variable: the tasks whose data was passed to `__work`, oldest first. -/
  worked : List (Task δ)
  /-- History variable: the results of the calls of `__work`, oldest first. -/
  results : List (Task δ × ρ)
  /-- History variable: `stop` was called since `run`. -/
  stopped : Bool
  /-- `_tasks[0]` was read from an empty list. -/
  crashed : Bool
  /-- `std::terminate` was called. -/
  terminated : Bool
  deriving DecidableEq

inductive Action (δ ρ : Type*)
  | run
  | notify (data : δ)
  | stop
  /-- The worker takes its next step. -/
  | worker
  /-- `__work` returns. -/
  | returns (result : ρ)
  /-- `__work` throws; the thread does not catch it. -/
  | throws
  /-- The worker wakes up without a notification. -/
  | spurious
  deriving DecidableEq

namespace ActiveRunnable

def init : ActiveRunnable δ ρ :=
  ⟨false, [], .none, [], [], [], [], false, false, false⟩

def setWorker (s : ActiveRunnable δ ρ) (pc : Worker δ ρ) : ActiveRunnable δ ρ :=
  { s with worker := pc }

/-- Whether the worker holds `_notifyLock` across its steps. -/
def locked (s : ActiveRunnable δ ρ) : Bool :=
  match s.worker with
  | .emptyTest | .waiting | .runTest | .taking => true
  | _ => false

/-- `_cv.notify_one()` -/
def notifyOne (s : ActiveRunnable δ ρ) : ActiveRunnable δ ρ :=
  match s.worker with
  | .blocked _ => s.setWorker (.blocked true)
  | _ => s

def notify (s : ActiveRunnable δ ρ) (data : δ) : ActiveRunnable δ ρ :=
  let task := ⟨data, s.entered.length⟩
  { s with tasks := s.tasks ++ [task], entered := s.entered ++ [task] }.notifyOne

def stop (s : ActiveRunnable δ ρ) : ActiveRunnable δ ρ :=
  { s with running := false, stopped := true }.notifyOne

def run (s : ActiveRunnable δ ρ) : ActiveRunnable δ ρ :=
  { s with running := true, stopped := false }.setWorker .loopTest

/-- The loop of `run`. -/
def stepWorker (s : ActiveRunnable δ ρ) : Option (ActiveRunnable δ ρ) :=
  match s.worker with
  | .loopTest => some (s.setWorker (if s.running then .locking else .exited))
  | .locking => some (s.setWorker .emptyTest)
  | .emptyTest => some (s.setWorker (if s.tasks.isEmpty then .waiting else .runTest))
  | .waiting => some (s.setWorker (.blocked false))
  | .blocked true => some (s.setWorker .relocking)
  | .relocking => some (s.setWorker .runTest)
  | .runTest => some (s.setWorker (if s.running then .taking else .exited))
  | .taking =>
      match s.tasks with
      | [] => some { s with crashed := true }
      | task :: rest => some ({ s with tasks := rest }.setWorker (.holding task))
  | .holding task => some ({ s with worked := s.worked ++ [task] }.setWorker (.working task))
  | .answering task result =>
      some ({ s with completed := s.completed ++ [(task.promise, result)] }.setWorker .loopTest)
  | .none | .blocked false | .working _ | .exited => none

def step (s : ActiveRunnable δ ρ) (a : Action δ ρ) : Option (ActiveRunnable δ ρ) :=
  if s.crashed || s.terminated then none
  else
    match a with
    | .run => match s.worker with
        | .none => some s.run
        | _ => none
    | .notify data => if s.locked then none else some (s.notify data)
    | .stop => if s.locked then none else some s.stop
    | .worker => s.stepWorker
    | .returns result => match s.worker with
        | .working task =>
            some ({ s with results := s.results ++ [(task, result)] }.setWorker
              (.answering task result))
        | _ => none
    | .throws => match s.worker with
        | .working _ => some { s with terminated := true }
        | _ => none
    | .spurious => match s.worker with
        | .blocked _ => some (s.setWorker .relocking)
        | _ => none

variable (δ ρ) in
def machine : Machine (ActiveRunnable δ ρ) (Action δ ρ) where
  init := init
  step := step

end ActiveRunnable

end CommonLib.Runnable
