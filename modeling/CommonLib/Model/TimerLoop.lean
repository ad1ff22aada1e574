import CommonLib.Library.Machine

/-! One `TimerDetail` of `Timer.cpp`: its flag, the loop of its thread, and the callers of `start`
and `stop`. `start` assigns `_thread` and `_future` without a lock, so its calls come one after the
other; `stop` and `status` come at any time. A thread that is blocked in `wait_for` may wake up at
any time, which makes `notify_all` a step that changes nothing. -/

namespace CommonLib.TimerLoop

inductive Exception
  | alreadyRunning
  deriving DecidableEq

/-- Where the thread stands in the lambda of `start`. The wait in front of the loop is the first
one. -/
inductive Worker
  | none
  /-- In `wait_for`, about to evaluate its predicate. -/
  | checking (first : Bool)
  | blocked (first : Bool)
  /-- `while(_running.load())` -/
  | testing
  /-- Has found the flag up and is about to call `_func`. -/
  | entering
  /-- In `_func`. -/
  | calling
  /-- About to set the value of `timerPromise`. -/
  | leaving
  | unregistering
  | complete
  deriving DecidableEq

/-- Where the call of `start` stands. -/
inductive Starter
  | idle
  /-- Behind the test of `_running`. -/
  | storing
  /-- Behind `_running.store(true)`; `_thread = Thread::create()` joins the thread before. -/
  | creating
  /-- The thread runs, `_future` is to be assigned. -/
  | assigning
  deriving DecidableEq

structure TimerDetail where
  running : Bool
  worker : Worker
  starter : Starter
  /-- History variable: how many calls of `start` have raised the flag. -/
  starts : ℕ
  /-- How many of their futures are ready. They become ready in the order of the calls. -/
  fulfilled : ℕ
  /-- History variable: how many calls of `_func` have begun. -/
  calls : ℕ
  deriving DecidableEq

inductive Action
  | start
  /-- The call of `start` goes on. -/
  | starter
  | stop
  /-- The thread takes its next step. -/
  | worker
  /-- The interval of `wait_for` is over. -/
  | timeout
  /-- The thread wakes up in `wait_for`, notified or not. -/
  | wake
  /-- `_func` returns. -/
  | returns (result : Bool)
  deriving DecidableEq

namespace TimerDetail

def init : TimerDetail :=
  ⟨false, .none, .idle, 0, 0, 0⟩

def setWorker (s : TimerDetail) (pc : Worker) : TimerDetail :=
  { s with worker := pc }

def status (s : TimerDetail) : Bool :=
  s.running

/-- `start` up to its test of the flag. -/
def start (s : TimerDetail) : Except Exception TimerDetail :=
  if s.running then .error .alreadyRunning else .ok { s with starter := .storing }

def stop (s : TimerDetail) : TimerDetail :=
  { s with running := false }

def stepStarter (s : TimerDetail) : Option TimerDetail :=
  match s.starter with
  | .storing => some { s with running := true, starts := s.starts + 1, starter := .creating }
  | .creating =>
      if s.worker = .none ∨ s.worker = .complete then
        some { s with worker := .checking true, starter := .assigning }
      else none
  | .assigning => some { s with starter := .idle }
  | .idle => none

def stepWorker (s : TimerDetail) : Option TimerDetail :=
  match s.worker with
  | .checking first => some (s.setWorker (if s.running then .blocked first else .testing))
  | .testing => some (s.setWorker (if s.running then .entering else .leaving))
  | .entering => some ({ s with calls := s.calls + 1 }.setWorker .calling)
  | .leaving => some ({ s with fulfilled := s.fulfilled + 1 }.setWorker .unregistering)
  | .unregistering => some (s.setWorker .complete)
  | .none | .blocked _ | .calling | .complete => none

def step (s : TimerDetail) (a : Action) : Option TimerDetail :=
  match a with
  | .start => match s.starter with
      | .idle => match s.start with
          | .ok s' => some s'
          | .error _ => some s
      | _ => none
  | .starter => s.stepStarter
  | .stop => some s.stop
  | .worker => s.stepWorker
  | .timeout => match s.worker with
      | .blocked _ => some (s.setWorker .testing)
      | _ => none
  | .wake => match s.worker with
      | .blocked first => some (s.setWorker (.checking first))
      | _ => none
  | .returns result => match s.worker with
      | .calling => some (s.setWorker (if result then .checking false else .leaving))
      | _ => none

def machine : Machine TimerDetail Action where
  init := init
  step := step

end TimerDetail

end CommonLib.TimerLoop
