import CommonLib.Library.Machine
import Mathlib.Logic.Function.Basic

/-! The timers of `Timer.cpp` and their `TimerManager`. A `TimerDetail` is shared between the
caller that made it (the handle of `Timer::create`, the local variable of `Timer::async`), the
list of the manager and, at the end of its own thread, the temporary of `shared_from_this`.
Whoever gives up the last of these runs the destructor. -/

namespace CommonLib.Timer

variable {ι : Type*}

/-- What a thread goes on with behind a destructor that it runs. -/
inductive Next
  | calling
  | erasing (i : ℕ)
  | returning
  deriving DecidableEq

/-- Where the thread of a timer stands in the lambda of `start`. -/
inductive Thread (ι : Type*)
  | none
  /-- In `wait_for`. -/
  | sleeping
  /-- `while(_running.load())` -/
  | testing
  /-- In `_func`. -/
  | calling
  /-- In `Timer::create` or `Timer::async`, called by `_func`, at `regist`. -/
  | creating (timer : ι)
  /-- Behind the loop. -/
  | leaving
  /-- Behind `timerPromise->set_value()`. -/
  | fulfilled
  /-- In `unregist`, with the temporary of `shared_from_this`. -/
  | locking
  /-- In `remove_if` with the lock, about to look at the entry with this number. -/
  | erasing (i : ℕ)
  /-- Behind `unregist`, about to destroy the temporary. -/
  | releasing
  /-- In the destructor of a timer, at `wait_until_stop`. -/
  | destroying (timer : ι) (next : Next)
  /-- The work function has returned. -/
  | returning
  /-- The future of the thread is ready. -/
  | complete
  deriving DecidableEq

def Next.thread : Next → Thread ι
  | calling => .calling
  | erasing i => .erasing i
  | returning => .returning

/-- Whether the thread holds the temporary of `shared_from_this`. -/
def Thread.holdsSelf : Thread ι → Bool
  | locking | erasing _ | releasing | destroying _ (.erasing _) => true
  | _ => false

/-- What the caller that made a timer has done with it. -/
inductive Caller
  | none
  | made
  /-- In `regist`, behind the test of `_shutingdown`. -/
  | registering
  | held
  /-- In `start`, behind `_running.store(true)`. -/
  | starting
  /-- In `start`; the thread runs, `_future` is not assigned. -/
  | spawned
  | started
  /-- Has given up the last reference and is in the destructor, at `wait_until_stop`. -/
  | destroying
  | released
  deriving DecidableEq

def Caller.holds : Caller → Bool
  | made | registering | held | starting | spawned | started => true
  | none | destroying | released => false

structure TimerDetail (ι : Type*) where
  async : Bool
  running : Bool
  thread : Thread ι
  /-- `_future` is valid and belongs to the last thread that was started. -/
  future : Bool
  caller : Caller

inductive Holder (ι : Type*)
  | thread (timer : ι)
  | shutdown
  deriving DecidableEq

/-- Where the call of `force_stop_all` stands. -/
inductive Shutdown (ι : Type*)
  | idle
  | locking
  | visiting (i : ℕ)
  /-- At `wait_until_stop` of the entry with this number. -/
  | waiting (i : ℕ)
  | clearing
  | destroying (timer : ι)
  | done
  deriving DecidableEq

structure Manager (ι : Type*) where
  timer : ι → TimerDetail ι
  /-- `_timers` -/
  timers : List ι
  lock : Option (Holder ι)
  shutingdown : Bool
  shutdown : Shutdown ι
  /-- `std::terminate` was called. -/
  terminated : Bool

inductive Action (ι : Type*)
  | create (t : ι) (async : Bool)
  /-- The function of the timer `v` makes the timer `t`. -/
  | createInside (t : ι) (async : Bool) (v : ι)
  /-- The caller goes on in `regist`, `start` or the destructor. -/
  | caller (t : ι)
  | start (t : ι)
  | stop (t : ι)
  /-- The caller gives up its reference, possibly inside the function of a timer. -/
  | drop (t : ι) (inside : Option ι)
  | thread (t : ι)
  /-- The function of the timer returns. -/
  | returns (t : ι) (result : Bool)
  /-- The function of the timer throws; the thread does not catch it. -/
  | throws (t : ι)
  /-- `try_lock` fails. -/
  | tryLockFails (t : ι)
  | shutdown
  deriving DecidableEq

namespace Manager

def init : Manager ι :=
  ⟨fun _ => ⟨false, false, .none, false, .none⟩, [], none, false, .idle, false⟩

variable [DecidableEq ι]

def setTimer (s : Manager ι) (t : ι) (timer : TimerDetail ι) : Manager ι :=
  { s with timer := Function.update s.timer t timer }

def setThread (s : Manager ι) (t : ι) (thread : Thread ι) : Manager ι :=
  s.setTimer t { s.timer t with thread := thread }

def setCaller (s : Manager ι) (t : ι) (caller : Caller) : Manager ι :=
  s.setTimer t { s.timer t with caller := caller }

/-- The `TimerDetail` of `Timer::create` or `Timer::async` is made. -/
def make (s : Manager ι) (t : ι) (async : Bool) : Manager ι :=
  s.setTimer t { s.timer t with async := async, caller := .made }

/-- `TimerDetail::stop`; a thread in `wait_for` can wake up at any time. -/
def stop (s : Manager ι) (t : ι) : Manager ι :=
  s.setTimer t { s.timer t with running := false }

/-- The reference count of the timer. -/
def strong (s : Manager ι) (t : ι) : ℕ :=
  s.timers.count t + (if (s.timer t).caller.holds then 1 else 0) +
    if (s.timer t).thread.holdsSelf then 1 else 0

/-- `wait_until_stop` does not block. -/
def stopped (s : Manager ι) (t : ι) : Bool :=
  !(s.timer t).future || (s.timer t).thread = .complete

/-- `regist` and `start`, one step after the other, and the destructor of the caller. -/
def stepCaller (s : Manager ι) (t : ι) : Option (Manager ι) :=
  match (s.timer t).caller with
  | .made => some (s.setCaller t (if s.shutingdown then .held else .registering))
  | .registering =>
      if s.lock = none then some ({ s with timers := s.timers ++ [t] }.setCaller t .held) else none
  | .starting =>
      -- the thread of the start before is joined; its future stays in `_future`, and is ready
      if (s.timer t).thread = .none ∨ (s.timer t).thread = .complete then
        some (s.setTimer t
          { s.timer t with thread := .sleeping, future := false, caller := .spawned })
      else none
  | .spawned => some (s.setTimer t { s.timer t with future := true, caller := .started })
  | .destroying => if s.stopped t then some (s.setCaller t .released) else none
  | .none | .held | .started | .released => none

/-- The call of `start`. While running it throws. -/
def start (s : Manager ι) (t : ι) : Option (Manager ι) :=
  match (s.timer t).caller with
  | .held =>
      if (s.timer t).running then some s
      else some (s.setTimer t { s.timer t with running := true, caller := .starting })
  | .started =>
      if (s.timer t).async then none
      else if (s.timer t).running then some s
      else some (s.setTimer t { s.timer t with running := true, caller := .starting })
  | _ => none

/-- The end of the handle, or of `Timer::async`. -/
def drop (s : Manager ι) (t : ι) (inside : Option ι) : Option (Manager ι) :=
  if (s.timer t).caller = .started ∨ (s.timer t).caller = .held ∧ (s.timer t).async = false then
    match inside with
    | none =>
        if s.strong t = 1 then some ((s.stop t).setCaller t .destroying)
        else some (s.setCaller t .released)
    | some v =>
        if (s.timer v).thread = .calling ∧ (s.timer t).async = false then
          if s.strong t = 1 then
            some (((s.stop t).setCaller t .released).setThread v (.destroying t .calling))
          else some (s.setCaller t .released)
        else none
  else none

/-- One step of `remove_if` in `unregist`. An entry that is picked gives up its reference under
the same lock, when another entry is moved over it or at the end. -/
def erase (s : Manager ι) (t : ι) (i : ℕ) : Manager ι :=
  match s.timers[i]? with
  | none => { s with lock := none }.setThread t .releasing
  | some entry =>
      if entry = t ∨ (s.timer entry).running = false then
        if s.strong entry = 1 then
          ({ s with timers := s.timers.eraseIdx i }.stop entry).setThread t
            (.destroying entry (.erasing i))
        else { s with timers := s.timers.eraseIdx i }
      else s.setThread t (.erasing (i + 1))

def stepThread (s : Manager ι) (t : ι) : Option (Manager ι) :=
  match (s.timer t).thread with
  | .sleeping => some (s.setThread t .testing)
  | .testing => some (s.setThread t (if (s.timer t).running then .calling else .leaving))
  | .creating timer =>
      match (s.timer timer).caller with
      | .none | .made | .registering => none
      | _ => some (s.setThread t .calling)
  | .leaving => some (s.setThread t .fulfilled)
  | .fulfilled =>
      -- `shared_from_this` throws out of the thread when nobody owns the timer any more
      if s.strong t = 0 then some { s with terminated := true } else some (s.setThread t .locking)
  | .locking =>
      if s.lock = none then some ({ s with lock := some (.thread t) }.setThread t (.erasing 0))
      else none
  | .erasing i => some (s.erase t i)
  | .releasing =>
      if s.strong t = 1 then some ((s.stop t).setThread t (.destroying t .returning))
      else some (s.setThread t .returning)
  | .destroying timer next => if s.stopped timer then some (s.setThread t next.thread) else none
  | .returning => some (s.setThread t .complete)
  | .none | .calling | .complete => none

/-- `force_stop_all`. Its copy of an entry never is the last reference: the entry stays in the
list until `clear`. -/
def stepShutdown (s : Manager ι) : Option (Manager ι) :=
  match s.shutdown with
  | .idle => some { s with shutingdown := true, shutdown := .locking }
  | .locking =>
      if s.lock = none then some { s with lock := some .shutdown, shutdown := .visiting 0 } else none
  | .visiting i =>
      match s.timers[i]? with
      | none => some { s with shutdown := .clearing }
      | some entry => some { s.stop entry with shutdown := .waiting i }
  | .waiting i =>
      match s.timers[i]? with
      | none => none
      | some entry => if s.stopped entry then some { s with shutdown := .visiting (i + 1) } else none
  | .clearing =>
      match s.timers with
      | [] => some { s with lock := none, shutdown := .done }
      | entry :: rest =>
          if s.strong entry = 1 then
            some { s.stop entry with timers := rest, shutdown := .destroying entry }
          else some { s with timers := rest }
  | .destroying timer => if s.stopped timer then some { s with shutdown := .clearing } else none
  | .done => none

def step (s : Manager ι) (a : Action ι) : Option (Manager ι) :=
  if s.terminated then none
  else
    match a with
    | .create t async =>
        if (s.timer t).caller = .none then some (s.make t async) else none
    | .createInside t async v =>
        if (s.timer t).caller = .none ∧ (s.timer v).thread = .calling then
          some ((s.make t async).setThread v (.creating t))
        else none
    | .caller t => s.stepCaller t
    | .start t => s.start t
    | .stop t =>
        if (s.timer t).async = false ∧ (s.timer t).caller.holds then some (s.stop t) else none
    | .drop t inside => s.drop t inside
    | .thread t => s.stepThread t
    | .returns t result =>
        if (s.timer t).thread = .calling then
          some (s.setThread t (if result then .sleeping else .leaving))
        else none
    | .throws t =>
        if (s.timer t).thread = .calling then some { s with terminated := true } else none
    | .tryLockFails t =>
        if (s.timer t).thread = .locking then some (s.setThread t .releasing) else none
    | .shutdown => s.stepShutdown

variable (ι) in
def machine : Machine (Manager ι) (Action ι) where
  init := init
  step := step

end Manager

end CommonLib.Timer
