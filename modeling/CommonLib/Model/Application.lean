import CommonLib.Library.Machine

/-! `Application.cpp` on Linux: the thread that calls `run`, the thread that it starts, signals, and
`ResourceManager` with the threads of the program that are tracked there. -/

namespace CommonLib.Lifecycle

/-- The signals of the set that `run` blocks. -/
inductive Signal
  | sigterm
  | sigint
  | sighup
  deriving DecidableEq

/-! ## Threads and their resources -/

/-- Where the lambda of `ThreadDetail::start` stands, as far as the resource is concerned. -/
inductive Lambda
  | absent
  /-- `resource.track(shared_from_this())` comes next. -/
  | entered
  /-- `_started.store(true)`, what is set on the thread, and `ip->set_value()` come next. -/
  | tracking
  | working
  /-- `work` has returned; `_started.store(false)` and `resource.release()` come next. -/
  | returned
  /-- `_promise->set_value()` comes next. -/
  | released
  /-- The future is ready; the destructor of `resource` comes next. -/
  | completed
  | exited
  deriving DecidableEq

/-- A step of the lambda outside `work`. Only a strict build has the resource: `track` inserts into
the set of the manager, `release` and the destructor erase from it. -/
def Lambda.next {κ : Type*} [DecidableEq κ] (strict : Bool) (resource : κ) (resources : List κ) :
    Lambda → Option (Lambda × List κ)
  | .entered => some (.tracking, if strict then resources.insert resource else resources)
  | .tracking => some (.working, resources)
  | .returned => some (.released, if strict then resources.erase resource else resources)
  | .released => some (.completed, resources)
  | .completed => some (.exited, if strict then resources.erase resource else resources)
  | .absent | .working | .exited => none

/-- A thread of the program other than the one of the application. -/
structure Worker where
  lambda : Lambda
  /-- The signals are not blocked in this thread. -/
  unblocked : Bool
  deriving DecidableEq

/-- A signal for the process can be delivered to this thread. -/
def Worker.exposed (w : Worker) : Bool :=
  w.unblocked && w.lambda ≠ .exited

/-! ## The application -/

/-- Where the thread stands that calls `run` and at last destroys the application. -/
inductive Main
  | idle
  /-- Behind `pthread_sigmask`; `_t->start` comes next. -/
  | starting
  /-- `initFuture.wait()` in `start` -/
  | initializing
  /-- `wait()` on the future of `start` -/
  | waiting
  | destroyed
  deriving DecidableEq

/-- Where the lambda of `run` stands. -/
inductive Place
  /-- `bootup()` comes next. -/
  | booting
  /-- Behind `bootup()`; whether its future is still waited for. -/
  | booted (future : Bool)
  /-- `while(!_shutdown.load())` -/
  | looping
  /-- In `sigwait`. -/
  | listening
  /-- `signal_handler(signal)` comes next. -/
  | handling (signal : Signal)
  /-- `shutdown()` comes next. -/
  | stopping
  /-- Behind `shutdown()`; whether its future is still waited for. -/
  | stopped (future : Bool)
  deriving DecidableEq

/-- What an observer sees of the application. -/
inductive Event
  | bootup
  | running
  | signal (signal : Signal)
  | shutdown
  | closed
  | returned
  deriving DecidableEq

structure Application where
  main : Main
  lambda : Lambda
  place : Place
  /-- The main thread blocks the signals, and so do the threads it starts from now on. -/
  blocked : Bool
  /-- `_shutdown` -/
  shutdown : Bool
  /-- The signals pending for the process. -/
  pending : List Signal
  workers : List Worker
  /-- `ResourceManager::_resources`; the resource in the thread of the application is `none`. -/
  resources : List (Option ℕ)
  /-- A signal met a thread that does not block it. -/
  killed : Bool
  /-- `std::terminate` was called. -/
  terminated : Bool
  /-- History variable: the signals that became pending. -/
  raised : List Signal
  /-- History variable. -/
  log : List Event
  deriving DecidableEq

inductive Action
  | run
  /-- The main thread takes its next step in `run`. -/
  | main
  | destroy
  /-- The thread of the application takes a step of its own. -/
  | thread
  /-- `bootup()` returns, with a future or with `nullptr`. -/
  | bootup (future : Bool)
  | shutdown (future : Bool)
  /-- The future that is waited for becomes ready. -/
  | ready
  /-- `bootup()` or `shutdown()` throws. -/
  | throws
  /-- `sigwait` returns with a pending signal. -/
  | take (signal : Signal)
  /-- `sigwait` returns with an error. -/
  | fail
  /-- A signal for the process becomes pending. -/
  | raise (signal : Signal)
  /-- A signal for the process is delivered to a thread that does not block it. -/
  | kill
  /-- A thread of the program starts another one, which inherits its signal mask. -/
  | spawn (unblocked : Bool)
  | worker (k : ℕ)
  /-- `work` of a worker returns. -/
  | returns (k : ℕ)
  deriving DecidableEq

namespace Application

def init : Application :=
  ⟨.idle, .absent, .booting, false, false, [], [], [], false, false, [], []⟩

/-- Some thread does not block the signals. -/
def exposed (s : Application) : Bool :=
  !s.blocked || s.workers.any Worker.exposed

/-- `signal_handler` -/
def signalHandler (s : Application) : Signal → Application
  | .sigterm | .sigint => { s with shutdown := true }
  | .sighup => s

/-- The rest of `run`. `start` joins the thread of the run before. -/
def stepMain (s : Application) : Option Application :=
  match s.main with
  | .starting =>
      if s.lambda = .absent ∨ s.lambda = .exited then
        some { s with lambda := .entered, place := .booting, main := .initializing }
      else none
  | .initializing =>
      if s.lambda = .entered ∨ s.lambda = .tracking then none
      else some { s with main := .waiting }
  | .waiting =>
      if s.lambda = .completed ∨ s.lambda = .exited then
        some { s with main := .idle, log := s.log ++ [.returned] }
      else none
  | .idle | .destroyed => none

/-- `~Application`, which is `noexcept`, with the audit of a strict build. -/
def destroy (strict : Bool) (s : Application) : Application :=
  if strict && s.resources ≠ [] then { s with main := .destroyed, terminated := true }
  else { s with main := .destroyed }

/-- The lambda of `run`, where it does not depend on the system or on the user. -/
def stepWork (s : Application) : Option Application :=
  match s.place with
  | .booted false => some { s with place := .looping, log := s.log ++ [.running] }
  | .looping => some { s with place := if s.shutdown then .stopping else .listening }
  | .handling signal => some { s.signalHandler signal with place := .looping }
  | .stopped false => some { s with lambda := .returned, log := s.log ++ [.closed] }
  | .booting | .booted true | .listening | .stopping | .stopped true => none

def stepThread (strict : Bool) (s : Application) : Option Application :=
  if s.lambda = .working then s.stepWork
  else (s.lambda.next strict none s.resources).map fun next =>
    { s with lambda := next.1, resources := next.2 }

def raise (s : Application) (signal : Signal) : Application :=
  { s with pending := s.pending.insert signal, raised := s.raised ++ [signal] }

/-- The thread of the application is in `run`'s lambda, at this place. -/
def At (s : Application) (place : Place) : Prop :=
  s.lambda = .working ∧ s.place = place

instance (s : Application) (place : Place) : Decidable (s.At place) :=
  inferInstanceAs (Decidable (_ ∧ _))

def stepWorker (strict : Bool) (s : Application) (k : ℕ) : Option Application :=
  match s.workers[k]? with
  | none => none
  | some w =>
      (w.lambda.next strict (some k) s.resources).map fun next =>
        { s with workers := s.workers.set k { w with lambda := next.1 }, resources := next.2 }

def step (strict : Bool) (s : Application) (a : Action) : Option Application :=
  if s.killed || s.terminated then none
  else
    match a with
    | .run => if s.main = .idle then some { s with blocked := true, main := .starting } else none
    | .main => s.stepMain
    | .destroy => if s.main = .idle then some (s.destroy strict) else none
    | .thread => s.stepThread strict
    | .bootup future => if s.At .booting then
        some { s with place := .booted future, log := s.log ++ [.bootup] } else none
    | .shutdown future => if s.At .stopping then
        some { s with place := .stopped future, log := s.log ++ [.shutdown] } else none
    | .ready =>
        if s.At (.booted true) then some { s with place := .booted false }
        else if s.At (.stopped true) then some { s with place := .stopped false }
        else none
    | .throws => if s.At .booting ∨ s.At .stopping then some { s with terminated := true } else none
    | .take signal => if s.At .listening ∧ signal ∈ s.pending then
        some { s with place := .handling signal, pending := s.pending.erase signal,
                      log := s.log ++ [.signal signal] } else none
    | .fail => if s.At .listening then some { s with place := .looping } else none
    | .raise signal => if s.blocked then some (s.raise signal) else none
    | .kill => if s.exposed then some { s with killed := true } else none
    | .spawn unblocked => if (if unblocked then s.exposed else s.blocked) then
        some { s with workers := s.workers ++ [⟨.entered, unblocked⟩] } else none
    | .worker k => s.stepWorker strict k
    | .returns k =>
        match s.workers[k]? with
        | some ⟨.working, unblocked⟩ =>
            some { s with workers := s.workers.set k ⟨.returned, unblocked⟩ }
        | _ => none

def machine (strict : Bool) : Machine Application Action where
  init := init
  step := step strict

end Application

/-! ## What an application is for -/

/-- The stages of an application, as an observer sees them. -/
inductive Stage
  | down
  | booting
  | up
  | stopping
  | closed
  deriving DecidableEq

/-- A stage, and whether the application has been told to stop; that is never taken back. -/
structure Life where
  stage : Stage
  told : Bool
  deriving DecidableEq

/-- `shutdown` comes behind a signal that asks for it, and is the only thing that comes then. -/
def Life.step (l : Life) : Event → Option Life
  | .bootup => if l.stage = .down then some { l with stage := .booting } else none
  | .running => if l.stage = .booting then some { l with stage := .up } else none
  | .signal signal =>
      if l.stage = .up ∧ l.told = false then some { l with told := decide (signal ≠ .sighup) }
      else none
  | .shutdown => if l.stage = .up ∧ l.told = true then some { l with stage := .stopping } else none
  | .closed => if l.stage = .stopping then some { l with stage := .closed } else none
  | .returned => if l.stage = .closed then some { l with stage := .down } else none

def Life.machine : Machine Life Event where
  init := ⟨.down, false⟩
  step := Life.step

end CommonLib.Lifecycle
