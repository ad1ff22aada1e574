import CommonLib.Library.Machine

/-! `ThreadDetail` of `Thread.cpp`: one controlling thread calls `start`, `detach`, `join` and
`set_priority`, and each start spawns a thread that runs the lambda of `start`. Starts that get
past the test of `_started`, their threads and their promises are numbered from 0. The name is
left out: nothing depends on it. -/

namespace CommonLib.Thread

/-- `Policies` on Linux; `DEFAULT` is `OTHER`. -/
inductive Policy
  | other
  | fifo
  | rr
  | batch
  | idle
  deriving DecidableEq

structure Priority where
  policy : Policy
  level : UInt8
  deriving DecidableEq

/-- `{Policies::DEFAULT, Level::DEFAULT}` -/
def Priority.default : Priority := ⟨.other, 0⟩

/-- A `std::thread` object: the start that made it, and whether it was neither joined nor
detached. -/
structure Handle where
  owner : ℕ
  joinable : Bool
  deriving DecidableEq

/-- Where the controlling thread stands. -/
inductive Caller
  | idle
  /-- In `start`, about to call `join`. -/
  | joining
  /-- About to assign `_promise`. -/
  | promising
  /-- About to construct the `std::thread` object. -/
  | spawning
  /-- The thread is running; about to assign `_thread`. -/
  | assigning
  /-- `initFuture.wait()` -/
  | waiting
  deriving DecidableEq

/-- Where a spawned thread stands. -/
inductive Place
  /-- `_started.store(true)` -/
  | storeStarted
  /-- `_thread->joinable()` in `set_priority` -/
  | priorityTest
  /-- `_thread->native_handle()` in `set_priority` -/
  | priorityHandle
  /-- `_thread->joinable()` in `set_name` -/
  | nameTest
  /-- `_thread->native_handle()` in `set_name` -/
  | nameHandle
  /-- `ip->set_value()` -/
  | setInit
  /-- In `work`. -/
  | working
  /-- `_started.store(false)` -/
  | clearStarted
  /-- `_promise->set_value()` -/
  | setPromise
  | exited
  deriving DecidableEq

structure ThreadDetail where
  thread : Option Handle
  promise : Option ℕ
  priority : Priority
  started : Bool
  caller : Caller
  spawned : List Place
  /-- The promises that `set_value` was called on, oldest first. -/
  completed : List ℕ
  /-- The promises that were destroyed without a value: their futures hold `broken_promise`. -/
  abandoned : List ℕ
  /-- History variable: the threads whose `work` returned, oldest first. -/
  returned : List ℕ
  /-- History variable: which thread read `_thread` in `set_priority` or `set_name`, and whose
  object it found. -/
  reads : List (ℕ × Option ℕ)
  /-- A null pointer was dereferenced. -/
  crashed : Bool
  /-- `std::terminate` was called. -/
  terminated : Bool
  deriving DecidableEq

inductive Action
  | start
  | detach
  | join
  | setPriority (priority : Priority)
  /-- The controlling thread takes its next step in `start`. -/
  | caller
  /-- A spawned thread takes its next step. -/
  | thread (k : ℕ)
  /-- `work` of a spawned thread returns. -/
  | returns (k : ℕ)
  /-- `work` throws; the lambda does not catch it. -/
  | throws (k : ℕ)
  deriving DecidableEq

/-- The init promise of a thread at this place has its value. -/
def Place.initialized : Place → Bool
  | .working | .clearStarted | .setPromise | .exited => true
  | _ => false

namespace ThreadDetail

def init : ThreadDetail :=
  ⟨none, none, .default, false, .idle, [], [], [], [], [], false, false⟩

def setCaller (s : ThreadDetail) (pc : Caller) : ThreadDetail :=
  { s with caller := pc }

def setPlace (s : ThreadDetail) (k : ℕ) (p : Place) : ThreadDetail :=
  { s with spawned := s.spawned.set k p }

/-! ## The controlling thread -/

/-- `join`; `none` while the thread runs. -/
def join (s : ThreadDetail) : Option ThreadDetail :=
  match s.thread with
  | some ⟨owner, true⟩ =>
      if s.spawned[owner]? = some .exited then some { s with thread := some ⟨owner, false⟩ }
      else none
  | _ => some s

/-- `detach`, which throws when there is nothing to detach. -/
def detach (s : ThreadDetail) : ThreadDetail :=
  match s.thread with
  | some ⟨owner, true⟩ => { s with thread := some ⟨owner, false⟩ }
  | _ => s

/-- `set_priority` in the controlling thread, which throws when the thread is started and not
joinable. -/
def setPriority (s : ThreadDetail) (priority : Priority) : ThreadDetail :=
  if s.started then
    match s.thread with
    | none => { s with crashed := true }
    | some ⟨_, false⟩ => s
    | some ⟨_, true⟩ => { s with priority := priority }
  else { s with priority := priority }

/-- `_promise = std::make_shared<std::promise<void>>()`, which destroys the old promise. -/
def makePromise (s : ThreadDetail) : ThreadDetail :=
  { s with
    promise := some s.spawned.length
    abandoned := match s.promise with
      | some p => if p ∈ s.completed then s.abandoned else s.abandoned ++ [p]
      | none => s.abandoned }

/-- `start` behind the test of `_started`. -/
def stepCaller (s : ThreadDetail) : Option ThreadDetail :=
  match s.caller with
  | .idle => none
  | .joining => s.join.map (setCaller · .promising)
  | .promising => some (s.makePromise.setCaller .spawning)
  | .spawning => some ({ s with spawned := s.spawned ++ [Place.storeStarted] }.setCaller .assigning)
  | .assigning =>
      match s.thread with
      | some ⟨_, true⟩ => some { s with terminated := true }
      | _ => some ({ s with thread := some ⟨s.spawned.length - 1, true⟩ }.setCaller .waiting)
  | .waiting =>
      if s.spawned.getLast?.any Place.initialized then some (s.setCaller .idle) else none

/-! ## The spawned threads -/

/-- Thread `k` reads `_thread`. -/
def read (s : ThreadDetail) (k : ℕ) : ThreadDetail :=
  { s with reads := s.reads ++ [(k, s.thread.map Handle.owner)] }

/-- `if(_started.load() && !_thread->joinable()) throw …`, then on to `go`; the object is not used
again where the flag is not set. Nothing catches the exception in a spawned thread. -/
def testJoinable (s : ThreadDetail) (k : ℕ) (go skip : Place) : ThreadDetail :=
  if s.started then
    match s.thread with
    | none => { s.read k with crashed := true }
    | some ⟨_, false⟩ => { s.read k with terminated := true }
    | some ⟨_, true⟩ => (s.read k).setPlace k go
  else s.setPlace k skip

/-- `_thread->native_handle()` -/
def nativeHandle (s : ThreadDetail) (k : ℕ) (go : Place) : ThreadDetail :=
  match s.thread with
  | none => { s.read k with crashed := true }
  | some _ => (s.read k).setPlace k go

/-- `_promise->set_value()`, which throws when the promise has its value. -/
def setPromise (s : ThreadDetail) (k : ℕ) : ThreadDetail :=
  match s.promise with
  | none => { s with crashed := true }
  | some p =>
      if p ∈ s.completed then { s with completed := s.completed ++ [p], terminated := true }
      else { s with completed := s.completed ++ [p] }.setPlace k .exited

/-- The lambda of `start`. -/
def stepThread (s : ThreadDetail) (k : ℕ) : Option ThreadDetail :=
  match s.spawned[k]? with
  | some .storeStarted => some ({ s with started := true }.setPlace k .priorityTest)
  | some .priorityTest =>
      some (s.testJoinable k (if s.priority = .default then .nameTest else .priorityHandle)
        .nameTest)
  | some .priorityHandle => some (s.nativeHandle k .nameTest)
  | some .nameTest => some (s.testJoinable k .nameHandle .setInit)
  | some .nameHandle => some (s.nativeHandle k .setInit)
  | some .setInit => some (s.setPlace k .working)
  | some .clearStarted => some ({ s with started := false }.setPlace k .setPromise)
  | some .setPromise => some (s.setPromise k)
  | some .working | some .exited | none => none

def step (s : ThreadDetail) (a : Action) : Option ThreadDetail :=
  if s.crashed || s.terminated then none
  else
    match a with
    | .start => if s.caller = .idle then
        some (if s.started then s else s.setCaller .joining) else none
    | .detach => if s.caller = .idle then some s.detach else none
    | .join => if s.caller = .idle then s.join else none
    | .setPriority priority => if s.caller = .idle then some (s.setPriority priority) else none
    | .caller => s.stepCaller
    | .thread k => s.stepThread k
    | .returns k => if s.spawned[k]? = some .working then
        some ({ s with returned := s.returned ++ [k] }.setPlace k .clearStarted) else none
    | .throws k => if s.spawned[k]? = some .working then some { s with terminated := true }
        else none

def machine : Machine ThreadDetail Action where
  init := init
  step := step

end ThreadDetail

end CommonLib.Thread
