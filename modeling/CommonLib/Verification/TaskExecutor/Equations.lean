import CommonLib.Model.TaskExecutor

/-! Computation rules of the executor, and its steps as local rules. -/

namespace CommonLib.TaskExecutor

namespace Executor

variable {n : ℕ} {τ : Type*}

/-! ## Updates -/

@[simp] theorem setWorker_self (s : Executor n τ) (i : Fin n) (pc : Worker τ) :
    (s.setWorker i pc).worker i = pc := by
  simp [setWorker]

theorem setWorker_of_ne (s : Executor n τ) {i j : Fin n} (pc : Worker τ) (h : j ≠ i) :
    (s.setWorker i pc).worker j = s.worker j := by
  simp [setWorker, h]

/-- A notification wakes the worker of the queue when it is blocked, and is lost otherwise. -/
theorem notify_cases (s : Executor n τ) (i : Fin n) :
    (s.notify i = s ∧ ∀ notified, s.worker i ≠ .blocked notified) ∨
      ∃ notified, s.worker i = .blocked notified ∧ s.notify i = s.setWorker i (.blocked true) := by
  unfold notify
  split
  · exact .inr ⟨_, ‹_›, rfl⟩
  · exact .inl ⟨rfl, ‹_›⟩

/-- A notification keeps what the wake-up of a blocked worker keeps. -/
theorem notify_of {P : Executor n τ → Prop} {s : Executor n τ} {i : Fin n} (h : P s)
    (hwakes : ∀ notified, s.worker i = .blocked notified → P (s.setWorker i (.blocked true))) :
    P (s.notify i) := by
  rcases notify_cases s i with ⟨heq, -⟩ | ⟨notified, hw, heq⟩
  · rwa [heq]
  · rw [heq]
    exact hwakes notified hw

/-- Nobody hears a notification of a queue whose worker has left. -/
theorem notify_of_exited {s : Executor n τ} {i : Fin n} (h : s.worker i = .exited) :
    s.notify i = s := by
  rcases notify_cases s i with ⟨heq, -⟩ | ⟨notified, hw, -⟩
  · exact heq
  · cases h.symm.trans hw

theorem notify_of_ne (s : Executor n τ) {i j : Fin n} (h : j ≠ i) :
    (s.notify i).worker j = s.worker j :=
  notify_of (P := fun t => t.worker j = s.worker j) rfl fun _ _ => setWorker_of_ne s _ h

/-- A worker that has been notified is not blocked without a notification. -/
theorem notify_self (s : Executor n τ) (i : Fin n) : (s.notify i).worker i ≠ .blocked false := by
  rcases notify_cases s i with ⟨heq, hblocked⟩ | ⟨notified, -, heq⟩
  · rw [heq]
    exact hblocked false
  · rw [heq, setWorker_self]
    simp

@[simp] theorem notify_load (s : Executor n τ) (i : Fin n) : (s.notify i).load = s.load :=
  notify_of (P := fun t => t.load = s.load) rfl fun _ _ => rfl

@[simp] theorem notify_loaded (s : Executor n τ) (i : Fin n) :
    (s.notify i).loaded = s.loaded :=
  notify_of (P := fun t => t.loaded = s.loaded) rfl fun _ _ => rfl

@[simp] theorem notify_tasks (s : Executor n τ) (i : Fin n) : (s.notify i).tasks = s.tasks :=
  notify_of (P := fun t => t.tasks = s.tasks) rfl fun _ _ => rfl

@[simp] theorem notify_index (s : Executor n τ) (i : Fin n) : (s.notify i).index = s.index :=
  notify_of (P := fun t => t.index = s.index) rfl fun _ _ => rfl

@[simp] theorem notify_running (s : Executor n τ) (i : Fin n) :
    (s.notify i).running = s.running :=
  notify_of (P := fun t => t.running = s.running) rfl fun _ _ => rfl

@[simp] theorem notify_stop (s : Executor n τ) (i : Fin n) : (s.notify i).stop = s.stop :=
  notify_of (P := fun t => t.stop = s.stop) rfl fun _ _ => rfl

/-! ## The steps -/

variable [DecidableEq τ]

/-- The rules by which the executor moves, one for each branch of the code. -/
inductive Step (s : Executor n τ) : Action n τ → Executor n τ → Prop
  | enter (i) (hw : s.worker i = .loopTest) (hrunning : s.running = true) :
      Step s (.worker i) (s.setWorker i .popLock)
  | leave (i) (hw : s.worker i = .loopTest) (hrunning : s.running = false) :
      Step s (.worker i) (s.setWorker i .exited)
  | lock (i) (hw : s.worker i = .popLock) : Step s (.worker i) (s.setWorker i .popTest)
  | ready (i) (hw : s.worker i = .popTest) (htasks : s.tasks i ≠ [] ∨ s.running = false) :
      Step s (.worker i) (s.setWorker i .popTake)
  | sleep (i) (hw : s.worker i = .popTest) (htasks : s.tasks i = [])
      (hrunning : s.running = true) : Step s (.worker i) (s.setWorker i .popWait)
  | block (i) (hw : s.worker i = .popWait) : Step s (.worker i) (s.setWorker i (.blocked false))
  | woken (i) (hw : s.worker i = .blocked true) : Step s (.worker i) (s.setWorker i .popLock)
  | spurious (i notified) (hw : s.worker i = .blocked notified) :
      Step s (.spurious i) (s.setWorker i .popLock)
  | popEmpty (i) (hw : s.worker i = .popTake) (htasks : s.tasks i = []) :
      Step s (.worker i) (s.setWorker i .emptyTest)
  | pop (i task rest) (hw : s.worker i = .popTake) (htasks : s.tasks i = task :: rest) :
      Step s (.worker i) ((s.setTasks i rest).setWorker i (.holding task false))
  | start (i task stolen) (hw : s.worker i = .holding task stolen) :
      Step s (.worker i)
        ({ s with started := s.started ++ [task] }.setWorker i (.busy task stolen))
  | finish (i task stolen) (hw : s.worker i = .busy task stolen) :
      Step s (.worker i) ({ s with finished := s.finished ++ [task] }.setWorker i
        (if stolen then .loopTest else .emptyTest))
  | search (i) (hw : s.worker i = .emptyTest) (htasks : s.tasks i = []) :
      Step s (.worker i) (s.setWorker i (.stealTest 1))
  | again (i) (hw : s.worker i = .emptyTest) (htasks : s.tasks i ≠ []) :
      Step s (.worker i) (s.setWorker i .loopTest)
  | attempt (i k) (hw : s.worker i = .stealTest k) (hk : k < n) (hrunning : s.running = true) :
      Step s (.worker i) (s.setWorker i (.stealTry k))
  | giveUp (i k) (hw : s.worker i = .stealTest k) (hk : ¬ (k < n ∧ s.running = true)) :
      Step s (.worker i) (s.setWorker i .loopTest)
  | tryLockFails (i k) (hw : s.worker i = .stealTry k) :
      Step s (.tryLockFails i) (s.setWorker i (.stealTest (k + 1)))
  | stealEmpty (i k) (hw : s.worker i = .stealTry k) (hlock : s.locked (target i k) = false)
      (htasks : s.tasks (target i k) = []) :
      Step s (.worker i) (s.setWorker i (.stealTest (k + 1)))
  | steal (i k task rest) (hw : s.worker i = .stealTry k) (hlock : s.locked (target i k) = false)
      (htasks : s.tasks (target i k) = rest ++ [task]) :
      Step s (.worker i) ((s.setTasks (target i k) rest).setWorker i (.holding task true))
  | fetchAdd (task) (queue : Fin n) (hl : s.load task = .idle)
      (hqueue : queue = s.index.toNat &&& (n - 1)) :
      Step s (.load task) ({ s with index := s.index + 1 }.setLoad task (.indexed queue))
  | push (task queue) (hl : s.load task = .indexed queue) (hlock : s.locked queue = false) :
      Step s (.load task) (({ s with loaded := s.loaded ++ [task] }.setTasks queue
        (s.tasks queue ++ [task])).setLoad task (.pushed queue))
  | notifyOne (task queue) (hl : s.load task = .pushed queue) :
      Step s (.load task) ((s.notify queue).setLoad task .returned)
  | stopCalled (hs : s.stop = .idle) :
      Step s .stop { s with stop := if s.running then .storing else .returned }
  | store (hs : s.stop = .storing) :
      Step s .stop { s with running := false, stop := .finalizing 0 }
  | finalize (i : Fin n) (hs : s.stop = .finalizing i) :
      Step s .stop { s.notify i with stop := .waiting i }
  | stopped (i) (hs : s.stop = .finalizing i) (hi : n ≤ i) :
      Step s .stop { s with stop := .returned }
  | joined (i : Fin n) (hs : s.stop = .waiting i) (hw : s.worker i = .exited) :
      Step s .stop { s with stop := .finalizing (i + 1) }

theorem Step.of_stepWorker {s s' : Executor n τ} {i : Fin n} (h : s.stepWorker i = some s') :
    Step s (.worker i) s' := by
  unfold stepWorker at h
  split at h
  · rename_i hw
    cases h
    cases hrunning : s.running with
    | true => exact .enter i hw hrunning
    | false => exact .leave i hw hrunning
  · rename_i hw
    cases h
    exact .lock i hw
  · rename_i hw
    cases h
    by_cases htasks : s.tasks i = []
    · cases hrunning : s.running with
      | true => simpa [htasks, hrunning] using Step.sleep i hw htasks hrunning
      | false => simpa [htasks, hrunning] using Step.ready i hw (.inr hrunning)
    · simpa [htasks] using Step.ready i hw (.inl htasks)
  · rename_i hw
    cases h
    exact .block i hw
  · rename_i hw
    cases h
    exact .woken i hw
  · cases h
  · rename_i hw
    cases h
    unfold popFront
    split
    · exact .popEmpty i hw ‹_›
    · exact .pop i _ _ hw ‹_›
  · rename_i task stolen hw
    cases h
    exact .start i task stolen hw
  · rename_i task stolen hw
    cases h
    exact .finish i task stolen hw
  · rename_i hw
    cases h
    by_cases htasks : s.tasks i = []
    · simpa [htasks] using Step.search i hw htasks
    · simpa [htasks] using Step.again i hw htasks
  · rename_i k hw
    cases h
    by_cases hk : k < n ∧ s.running = true
    · simpa [hk] using Step.attempt i k hw hk.1 hk.2
    · rw [if_neg hk]
      exact .giveUp i k hw hk
  · rename_i k hw
    split at h <;> cases h
    rename_i hlock
    unfold trySteal
    split
    · rename_i hlast
      exact .stealEmpty i k hw (by simpa using hlock) (List.getLast?_eq_none_iff.mp hlast)
    · rename_i task hlast
      refine .steal i k task _ hw (by simpa using hlock) ?_
      obtain ⟨rest, hrest⟩ := List.getLast?_eq_some_iff.mp hlast
      rw [hrest, List.dropLast_concat]
  · cases h

theorem Step.of_stepLoad {s s' : Executor n τ} {task : τ} (h : s.stepLoad task = some s') :
    Step s (.load task) s' := by
  unfold stepLoad at h
  split at h
  · rename_i hl
    split at h <;> cases h
    exact .fetchAdd task _ hl rfl
  · rename_i queue hl
    split at h <;> cases h
    rename_i hlock
    exact .push task queue hl (by simpa using hlock)
  · rename_i queue hl
    cases h
    exact .notifyOne task queue hl
  · cases h

theorem Step.of_stepStop {s s' : Executor n τ} (h : s.stepStop = some s') : Step s .stop s' := by
  unfold stepStop at h
  split at h
  · rename_i hs
    cases h
    exact .stopCalled hs
  · rename_i hs
    cases h
    exact .store hs
  · rename_i i hs
    split at h <;> cases h
    · exact .finalize ⟨i, ‹_›⟩ hs
    · exact .stopped i hs (Nat.not_lt.mp ‹_›)
  · rename_i i hs
    split at h
    · split at h <;> cases h
      exact .joined ⟨i, ‹_›⟩ hs ‹_›
    · cases h
  · cases h

/-- Every enabled action moves the executor by one of the rules. -/
theorem step_cases {s s' : Executor n τ} {a : Action n τ} (h : s.step a = some s') :
    Step s a s' := by
  cases a with
  | worker i => exact .of_stepWorker h
  | load task => exact .of_stepLoad h
  | stop => exact .of_stepStop h
  | tryLockFails i =>
      simp only [step] at h
      split at h <;> cases h
      exact .tryLockFails i _ ‹_›
  | spurious i =>
      simp only [step] at h
      split at h <;> cases h
      exact .spurious i _ ‹_›

end Executor

end CommonLib.TaskExecutor
