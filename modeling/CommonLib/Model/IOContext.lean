import CommonLib.Model.TaskExecutor

/-! `IOContext` of `IOContext.hpp` over its `TaskExecutor`: one thread calls `run` and `stop`, and
the workers of the executor run `_context.run()`. Handlers are left out; `io_context::run` comes
back when the context is stopped or, without a work guard, when there is nothing to do. -/

namespace CommonLib.IOContext

open TaskExecutor

/-- `_executorCount` -/
abbrev executorCount : ℕ := 4

/-- A `_context.run()` task: which `run` loaded it, and its number in the loop there. -/
structure RunTask where
  call : ℕ
  i : ℕ
  deriving DecidableEq

inductive Call
  | run
  | stop
  deriving DecidableEq

/-- Where the calling thread stands. -/
inductive Caller
  | idle
  /-- In `run`: `_running.store(true)` -/
  | storing
  /-- In the loop of `run`, with its counter. -/
  | loading (i : ℕ)
  /-- In `stop`: `_workGuard.reset()` -/
  | resetting
  /-- `_context.stop()` -/
  | stopping
  /-- `_executor->stop()` -/
  | joining
  /-- `_context.restart()` -/
  | restarting
  /-- `_running.store(false)` -/
  | clearing
  deriving DecidableEq

structure Context where
  running : Bool
  /-- `_workGuard` owns work of the context. -/
  workGuard : Bool
  /-- `_context.stopped()` -/
  stopped : Bool
  executor : Executor executorCount RunTask
  caller : Caller
  /-- History variable: how often `run` has set `_running`. -/
  runs : ℕ
  /-- History variable: the calls that have returned, oldest first. -/
  calls : List Call

inductive Action
  | run
  | stop
  /-- The calling thread takes its next step. -/
  | caller
  /-- A worker of the executor takes its next step. -/
  | worker (i : Fin executorCount)
  | tryLockFails (i : Fin executorCount)
  | spurious (i : Fin executorCount)
  deriving DecidableEq

namespace Context

/-- Right after the constructor. -/
def init : Context :=
  ⟨false, true, false, Executor.init, .idle, 0, []⟩

def setCaller (s : Context) (pc : Caller) : Context :=
  { s with caller := pc }

/-- The call returns. -/
def finish (s : Context) (call : Call) : Context :=
  { s with calls := s.calls ++ [call] }.setCaller .idle

/-- One step of `_executor->load(…)` for the task with number `i`. -/
def load (s : Context) (i : ℕ) : Option Context :=
  (s.executor.step (.load ⟨s.runs, i⟩)).map fun executor =>
    { s with executor := executor }.setCaller
      (if executor.load ⟨s.runs, i⟩ = Load.returned then .loading (i + 1) else .loading i)

/-- One step of `_executor->stop()`. -/
def joinWorkers (s : Context) : Option Context :=
  (s.executor.step .stop).map fun executor =>
    { s with executor := executor }.setCaller
      (if executor.stop = Stop.returned then .restarting else .joining)

/-- `run` and `stop`, behind their tests of `_running`. -/
def stepCaller (s : Context) : Option Context :=
  match s.caller with
  | .idle => none
  | .storing => some ({ s with running := true, runs := s.runs + 1 }.setCaller (.loading 0))
  | .loading i => if i < executorCount then s.load i else some (s.finish .run)
  | .resetting => some ({ s with workGuard := false }.setCaller .stopping)
  | .stopping =>
      some ({ s with stopped := true, executor := { s.executor with stop := .idle } }.setCaller
        .joining)
  | .joining => s.joinWorkers
  | .restarting => some ({ s with stopped := false }.setCaller .clearing)
  | .clearing => some ({ s with running := false }.finish .stop)

/-- A worker moves. It leaves `_context.run()` only when the context is stopped or has no work, and
the context is stopped then. -/
def stepWorker (s : Context) (i : Fin executorCount) : Option Context :=
  match s.executor.worker i with
  | .busy _ _ =>
      if s.stopped || !s.workGuard then
        (s.executor.step (.worker i)).map fun executor =>
          { s with executor := executor, stopped := true }
      else none
  | _ => (s.executor.step (.worker i)).map fun executor => { s with executor := executor }

def step (s : Context) : Action → Option Context
  | .run =>
      if s.caller = .idle then
        some (if s.running then s.finish .run else s.setCaller .storing)
      else none
  | .stop =>
      if s.caller = .idle then
        some (if s.running then s.setCaller .resetting else s.finish .stop)
      else none
  | .caller => s.stepCaller
  | .worker i => s.stepWorker i
  | .tryLockFails i =>
      (s.executor.step (.tryLockFails i)).map fun executor => { s with executor := executor }
  | .spurious i =>
      (s.executor.step (.spurious i)).map fun executor => { s with executor := executor }

def machine : Machine Context Action where
  init := init
  step := step

end Context

end CommonLib.IOContext
