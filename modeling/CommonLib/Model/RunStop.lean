import CommonLib.Library.Machine
import Mathlib.Logic.Function.Basic

/-! `run` and `stop` of `Runnable.hpp` from any number of threads: each call of `run` has a name, and
makes and starts a `ThreadDetail` of `Thread.cpp`. A step is one access to shared state, where a test
of `_started` is one with the access that it guards. The priority is the default one. What `run` sets
on the object that it has just made, where nothing is started yet, and what the worker of an
`ActiveRunnable` sets there again ahead of its loop are left out, and so is what that worker waits
for. -/

namespace CommonLib.RunStop

variable {ι : Type*}

inductive Kind
  | runnable
  | activeRunnable
  deriving DecidableEq

/-- Where a call of `run` stands. -/
inductive Call
  | before
  /-- `_running.load()` -/
  | load
  /-- `_running.store(true)` -/
  | store
  /-- `_t = Thread::create()` -/
  | create
  /-- In the deleter of the old object. -/
  | release (old : ℕ)
  /-- `_t->start(…)`: the test of `_started` -/
  | start
  /-- In `start`: `join()` -/
  | join (detail : ℕ)
  /-- `_promise = …` -/
  | promise (detail : ℕ)
  /-- Constructs the `std::thread` object. -/
  | spawn (detail : ℕ)
  /-- The worker is running; `_thread = …` -/
  | assign (detail worker : ℕ)
  /-- `initFuture.wait()` -/
  | wait (worker : ℕ)
  /-- The future has been returned. -/
  | returned (worker : ℕ)
  /-- `AlreadyRunningException` was thrown. -/
  | rejected
  deriving DecidableEq

/-- Where a worker stands in the lambda of `ThreadDetail::start`. -/
inductive Place
  /-- `_started.store(true)` -/
  | storeStarted
  /-- `_thread->joinable()` in `set_priority` -/
  | priorityTest
  /-- `_thread->joinable()` in `set_name` -/
  | nameTest
  /-- `_thread->native_handle()` in `set_name` -/
  | nameHandle
  /-- `ip->set_value()` -/
  | setInit
  /-- `while(_running.load())` -/
  | loopTest
  /-- `if(!_running.load()) break;` of an `ActiveRunnable`, which has a task now -/
  | runTest
  /-- About to call `__work`. -/
  | calling
  | working
  /-- `_started.store(false)` -/
  | clearStarted
  /-- `_promise->set_value()` -/
  | setPromise
  | exited
  deriving DecidableEq

structure Worker where
  place : Place
  /-- `this` -/
  detail : ℕ
  /-- History variable: how often `__work` was called. -/
  works : ℕ
  /-- History variable: how often `__work` was called since the first `stop` that found the loop
  running. -/
  sinceStop : Option ℕ
  deriving DecidableEq

structure Handle where
  worker : ℕ
  joinable : Bool
  deriving DecidableEq

structure ThreadDetail where
  thread : Option Handle
  promise : Option ℕ
  started : Bool
  /-- The deleter has run. -/
  freed : Bool
  deriving DecidableEq

def ThreadDetail.new : ThreadDetail := ⟨none, none, false, false⟩

structure Runnable (ι : Type*) where
  running : Bool
  /-- `_t` -/
  t : Option ℕ
  /-- The thread objects made so far, by number. -/
  details : ℕ → ThreadDetail
  created : ℕ
  call : ι → Call
  workers : List Worker
  /-- How many promises were made. -/
  promises : ℕ
  /-- The promises that `set_value` was called on, oldest first. -/
  completed : List ℕ
  /-- A null pointer or a freed object was used. -/
  crashed : Bool
  /-- `std::terminate` was called. -/
  terminated : Bool

inductive Action (ι : Type*)
  | stop
  /-- The call of `run` takes its next step. -/
  | call (i : ι)
  /-- A worker takes its next step. -/
  | worker (k : ℕ)
  /-- `__work` returns. -/
  | returns (k : ℕ)
  /-- `__work` throws; nothing catches it in the worker. -/
  | throws (k : ℕ)
  deriving DecidableEq

/-- The loop is running. -/
def Place.inLoop : Place → Bool
  | .loopTest | .runTest | .calling | .working => true
  | _ => false

/-- The init promise has its value. -/
def Place.initialized : Place → Bool
  | .storeStarted | .priorityTest | .nameTest | .nameHandle | .setInit => false
  | _ => true

/-- `_thread` is read here. -/
def Place.reads : Place → Bool
  | .priorityTest | .nameTest | .nameHandle => true
  | _ => false

namespace Worker

def new (detail : ℕ) : Worker := ⟨.storeStarted, detail, 0, none⟩

def setPlace (w : Worker) (place : Place) : Worker :=
  { w with place := place }

def work (w : Worker) : Worker :=
  { w with works := w.works + 1, sinceStop := w.sinceStop.map (· + 1) }.setPlace .working

/-- `stop` comes. -/
def markStopped (w : Worker) : Worker :=
  if w.place.inLoop && w.sinceStop.isNone then { w with sinceStop := some 0 } else w

end Worker

namespace Runnable

def init : Runnable ι :=
  ⟨false, none, fun _ => .new, 0, fun _ => .before, [], 0, [], false, false⟩

def setDetail (s : Runnable ι) (d : ℕ) (detail : ThreadDetail) : Runnable ι :=
  { s with details := Function.update s.details d detail }

def setWorker (s : Runnable ι) (k : ℕ) (w : Worker) : Runnable ι :=
  { s with workers := s.workers.set k w }

def stop (s : Runnable ι) : Runnable ι :=
  { s with running := false, workers := s.workers.map Worker.markStopped }

def crash (s : Runnable ι) : Runnable ι :=
  { s with crashed := true }

/-- `next`, unless the object has been freed. -/
def access (s : Runnable ι) (d : ℕ) (next : Runnable ι) : Runnable ι :=
  if (s.details d).freed then s.crash else next

/-! ## The calls of `run` -/

section

variable [DecidableEq ι]

def setCall (s : Runnable ι) (i : ι) (pc : Call) : Runnable ι :=
  { s with call := Function.update s.call i pc }

/-- `join()`; `none` while the worker runs. -/
def joinDetail (s : Runnable ι) (d : ℕ) : Option (Runnable ι) :=
  match (s.details d).thread with
  | some ⟨k, true⟩ =>
      if s.workers[k]?.map Worker.place = some .exited then
        some (s.setDetail d { s.details d with thread := some ⟨k, false⟩ })
      else none
  | _ => some s

/-- The deleter of `Thread::__create`. -/
def delete (s : Runnable ι) (d : ℕ) : Option (Runnable ι) :=
  (s.joinDetail d).map fun joined =>
    joined.setDetail d { joined.details d with freed := true }

def stepCall (s : Runnable ι) (i : ι) : Option (Runnable ι) :=
  match s.call i with
  | .before => some (s.setCall i .load)
  | .load => some (s.setCall i (if s.running then .rejected else .store))
  | .store => some ({ s with running := true }.setCall i .create)
  | .create =>
      some ({ s with
        t := some s.created
        details := Function.update s.details s.created .new
        created := s.created + 1 }.setCall i
          (match s.t with
          | some old => .release old
          | none => .start))
  | .release old => (s.delete old).map (setCall · i .start)
  | .start =>
      match s.t with
      | none => some s.crash
      | some d =>
          some (s.access d (s.setCall i (if (s.details d).started then .rejected else .join d)))
  | .join d =>
      if (s.details d).freed then some s.crash
      else (s.joinDetail d).map (setCall · i (.promise d))
  | .promise d =>
      some (s.access d ({ s with promises := s.promises + 1 }.setDetail d
        { s.details d with promise := some s.promises } |>.setCall i (.spawn d)))
  | .spawn d =>
      some ({ s with workers := s.workers ++ [Worker.new d] }.setCall i
        (.assign d s.workers.length))
  | .assign d k =>
      some (s.access d
        (match (s.details d).thread with
        | some ⟨_, true⟩ => { s with terminated := true }
        | _ => (s.setDetail d { s.details d with thread := some ⟨k, true⟩ }).setCall i (.wait k)))
  | .wait k =>
      if s.workers[k]?.any (·.place.initialized) then some (s.setCall i (.returned k)) else none
  | .returned _ | .rejected => none

end

/-! ## The workers -/

/-- `if(_started.load() && !_thread->joinable()) throw …`, then on to `go`; the object is not used
again where the flag is not set. Nothing catches the exception in a worker. -/
def testJoinable (s : Runnable ι) (k : ℕ) (w : Worker) (go skip : Place) : Runnable ι :=
  if (s.details w.detail).started then
    match (s.details w.detail).thread with
    | none => s.crash
    | some ⟨_, false⟩ => { s with terminated := true }
    | some ⟨_, true⟩ => s.setWorker k (w.setPlace go)
  else s.setWorker k (w.setPlace skip)

/-- `_thread->native_handle()` -/
def nativeHandle (s : Runnable ι) (k : ℕ) (w : Worker) (go : Place) : Runnable ι :=
  match (s.details w.detail).thread with
  | none => s.crash
  | some _ => s.setWorker k (w.setPlace go)

/-- `_promise->set_value()`, which throws when the promise has its value. -/
def setPromise (s : Runnable ι) (k : ℕ) (w : Worker) : Runnable ι :=
  match (s.details w.detail).promise with
  | none => s.crash
  | some p =>
      if p ∈ s.completed then { s with terminated := true }
      else { s with completed := s.completed ++ [p] }.setWorker k (w.setPlace .exited)

def stepWorker (kind : Kind) (s : Runnable ι) (k : ℕ) : Option (Runnable ι) :=
  match s.workers[k]? with
  | none => none
  | some w =>
      match w.place with
      | .storeStarted =>
          some (s.access w.detail ((s.setDetail w.detail
            { s.details w.detail with started := true }).setWorker k (w.setPlace .priorityTest)))
      | .priorityTest => some (s.access w.detail (s.testJoinable k w .nameTest .nameTest))
      | .nameTest => some (s.access w.detail (s.testJoinable k w .nameHandle .setInit))
      | .nameHandle => some (s.access w.detail (s.nativeHandle k w .setInit))
      | .setInit => some (s.setWorker k (w.setPlace .loopTest))
      | .loopTest =>
          some (s.setWorker k (w.setPlace
            (if s.running then if kind = .runnable then .calling else .runTest
            else .clearStarted)))
      | .runTest =>
          some (s.setWorker k (w.setPlace (if s.running then .calling else .clearStarted)))
      | .calling => some (s.setWorker k w.work)
      | .clearStarted =>
          some (s.access w.detail ((s.setDetail w.detail
            { s.details w.detail with started := false }).setWorker k (w.setPlace .setPromise)))
      | .setPromise => some (s.access w.detail (s.setPromise k w))
      | .working | .exited => none

variable [DecidableEq ι]

def step (kind : Kind) (s : Runnable ι) (a : Action ι) : Option (Runnable ι) :=
  if s.crashed || s.terminated then none
  else
    match a with
    | .stop => some s.stop
    | .call i => s.stepCall i
    | .worker k => s.stepWorker kind k
    | .returns k =>
        match s.workers[k]? with
        | some w => if w.place = .working then some (s.setWorker k (w.setPlace .loopTest)) else none
        | none => none
    | .throws k =>
        match s.workers[k]? with
        | some w => if w.place = .working then some { s with terminated := true } else none
        | none => none

variable (ι) in
def machine (kind : Kind) : Machine (Runnable ι) (Action ι) where
  init := init
  step := step kind

end Runnable

end CommonLib.RunStop
