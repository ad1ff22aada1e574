import CommonLib.Library.Machine
import CommonLib.Model.Misc
import Mathlib.Logic.Function.Basic

/-! The thread pool of `TaskExecutor.hpp` over the queues of `WorkQueue.hpp`: `n` workers with
a queue each, any number of `load` calls, and `stop`. A step is what one thread does between two
points at which another thread can see or change the shared state. -/

namespace CommonLib.TaskExecutor

variable {n : ℕ} {τ : Type*}

/-- Where a worker stands in its loop. It holds the mutex of its own queue from `popTest` to
`popTake`; the other critical sections are single steps. -/
inductive Worker (τ : Type*)
  /-- `while(_running.load())` -/
  | loopTest
  /-- In `pop`, about to lock. -/
  | popLock
  /-- About to evaluate the predicate of `wait`. -/
  | popTest
  /-- The predicate was false; about to release the mutex and block. -/
  | popWait
  | blocked (notified : Bool)
  /-- The predicate was true; about to look at the front of the queue. -/
  | popTake
  /-- Has a task in hand, popped or stolen, and is about to call it. -/
  | holding (task : τ) (stolen : Bool)
  | busy (task : τ) (stolen : Bool)
  /-- `_queues[index]->empty()` -/
  | emptyTest
  /-- At the head of the stealing loop, with its counter. -/
  | stealTest (i : ℕ)
  | stealTry (i : ℕ)
  | exited
  deriving DecidableEq

/-- A call of `load`, named by its task. -/
inductive Load (n : ℕ)
  | idle
  /-- Behind `fetch_add`. -/
  | indexed (queue : Fin n)
  /-- In `push`, behind the critical section. -/
  | pushed (queue : Fin n)
  | returned
  deriving DecidableEq

inductive Stop
  | idle
  /-- Behind the test of `_running`. -/
  | storing
  | finalizing (i : ℕ)
  | waiting (i : ℕ)
  | returned
  deriving DecidableEq

structure Executor (n : ℕ) (τ : Type*) where
  running : Bool
  index : UInt32
  tasks : Fin n → List τ
  worker : Fin n → Worker τ
  load : τ → Load n
  stop : Stop
  /-- History variable: the tasks in the order in which they entered a queue. -/
  loaded : List τ
  /-- History variable: the tasks whose body was started, each time it was. -/
  started : List τ
  finished : List τ

inductive Action (n : ℕ) (τ : Type*)
  /-- The worker takes its next step. -/
  | worker (i : Fin n)
  /-- The `try_to_lock` of a stealing worker fails. -/
  | tryLockFails (i : Fin n)
  /-- A blocked worker wakes up without a notification. -/
  | spurious (i : Fin n)
  | load (task : τ)
  | stop
  deriving DecidableEq

namespace Executor

/-- Right after the constructor has started the workers. -/
def init : Executor n τ :=
  ⟨true, 0, fun _ => [], fun _ => .loopTest, fun _ => .idle, .idle, [], [], []⟩

/-- How many queues and workers the constructor makes. -/
def adjustedThreadCount (threadCount : ℕ) : ℕ :=
  Utils.nextPwrOf2 threadCount

/-- `TaskExecutor::TaskExecutor` -/
def create (threadCount : ℕ) : Executor (adjustedThreadCount threadCount) τ :=
  init

/-- Whether the mutex of the queue is held across steps; only its own worker does that. -/
def locked (s : Executor n τ) (i : Fin n) : Bool :=
  match s.worker i with
  | .popTest | .popWait | .popTake => true
  | _ => false

def setWorker (s : Executor n τ) (i : Fin n) (pc : Worker τ) : Executor n τ :=
  { s with worker := Function.update s.worker i pc }

def setTasks (s : Executor n τ) (i : Fin n) (tasks : List τ) : Executor n τ :=
  { s with tasks := Function.update s.tasks i tasks }

/-- `notify_one` and `notify_all` of a queue: only its own worker ever waits there. -/
def notify (s : Executor n τ) (i : Fin n) : Executor n τ :=
  match s.worker i with
  | .blocked _ => s.setWorker i (.blocked true)
  | _ => s

/-- `(index + i) % _queues.size()` -/
def target (index : Fin n) (i : ℕ) : Fin n :=
  ⟨(index + i) % n, Nat.mod_lt _ index.pos⟩

/-- `WorkQueue::try_steal` with the lock acquired, and what the worker makes of the result. -/
def trySteal (s : Executor n τ) (index : Fin n) (i : ℕ) : Executor n τ :=
  match (s.tasks (target index i)).getLast? with
  | none => s.setWorker index (.stealTest (i + 1))
  | some task =>
      (s.setTasks (target index i) (s.tasks (target index i)).dropLast).setWorker index
        (.holding task true)

/-- The end of `WorkQueue::pop`, behind `wait`. -/
def popFront (s : Executor n τ) (index : Fin n) : Executor n τ :=
  match s.tasks index with
  | [] => s.setWorker index .emptyTest
  | task :: rest => (s.setTasks index rest).setWorker index (.holding task false)

def stepWorker (s : Executor n τ) (index : Fin n) : Option (Executor n τ) :=
  match s.worker index with
  | .loopTest => some (s.setWorker index (if s.running then .popLock else .exited))
  | .popLock => some (s.setWorker index .popTest)
  | .popTest =>
      some (s.setWorker index
        (if !(s.tasks index).isEmpty || !s.running then .popTake else .popWait))
  | .popWait => some (s.setWorker index (.blocked false))
  | .blocked true => some (s.setWorker index .popLock)
  | .blocked false => none
  | .popTake => some (s.popFront index)
  | .holding task stolen =>
      some ({ s with started := s.started ++ [task] }.setWorker index (.busy task stolen))
  | .busy task stolen =>
      some ({ s with finished := s.finished ++ [task] }.setWorker index
        (if stolen then .loopTest else .emptyTest))
  | .emptyTest =>
      some (s.setWorker index (if (s.tasks index).isEmpty then .stealTest 1 else .loopTest))
  | .stealTest i =>
      some (s.setWorker index (if i < n ∧ s.running then .stealTry i else .loopTest))
  | .stealTry i => if s.locked (target index i) then none else some (s.trySteal index i)
  | .exited => none

variable [DecidableEq τ]

def setLoad (s : Executor n τ) (task : τ) (phase : Load n) : Executor n τ :=
  { s with load := Function.update s.load task phase }

/-- `load` and the `push` it calls. `_index & (_queues.size() - 1)` is a queue as soon as there
is one. -/
def stepLoad (s : Executor n τ) (task : τ) : Option (Executor n τ) :=
  match s.load task with
  | .idle =>
      if h : s.index.toNat &&& (n - 1) < n then
        some ({ s with index := s.index + 1 }.setLoad task (.indexed ⟨_, h⟩))
      else none
  | .indexed queue =>
      if s.locked queue then none
      else
        some ({ s with loaded := s.loaded ++ [task] }.setTasks queue
          (s.tasks queue ++ [task]) |>.setLoad task (.pushed queue))
  | .pushed queue => some ((s.notify queue).setLoad task .returned)
  | .returned => none

/-- `stop`; the future of a worker is ready when its loop has ended. -/
def stepStop (s : Executor n τ) : Option (Executor n τ) :=
  match s.stop with
  | .idle => some { s with stop := if s.running then .storing else .returned }
  | .storing => some { s with running := false, stop := .finalizing 0 }
  | .finalizing i =>
      if h : i < n then some { s.notify ⟨i, h⟩ with stop := .waiting i }
      else some { s with stop := .returned }
  | .waiting i =>
      if h : i < n then
        if s.worker ⟨i, h⟩ = .exited then some { s with stop := .finalizing (i + 1) } else none
      else none
  | .returned => none

def step (s : Executor n τ) : Action n τ → Option (Executor n τ)
  | .worker i => s.stepWorker i
  | .tryLockFails i =>
      match s.worker i with
      | .stealTry k => some (s.setWorker i (.stealTest (k + 1)))
      | _ => none
  | .spurious i =>
      match s.worker i with
      | .blocked _ => some (s.setWorker i .popLock)
      | _ => none
  | .load task => s.stepLoad task
  | .stop => s.stepStop

variable (n τ) in
def machine : Machine (Executor n τ) (Action n τ) where
  init := init
  step := step

end Executor

end CommonLib.TaskExecutor
