import CommonLib.Verification.TaskExecutor.Equations

/-! # Idle workers

A worker that blocks waits for its own queue. What is pushed there wakes it up; what lies in the
queue of another worker does not. -/

namespace CommonLib.TaskExecutor

namespace Executor

variable {n : ℕ} {τ : Type*}

/-! ## Tasks in the queue of a blocked worker -/

/-- The queue has a task, no push on it is in progress, and its worker is blocked with no
notification pending. -/
def Overslept (s : Executor n τ) (i : Fin n) : Prop :=
  s.tasks i ≠ [] ∧ (∀ task, s.load task ≠ .pushed i) ∧ s.worker i = .blocked false

/-- A worker about to block has an empty queue, and a task that comes in while it is blocked
comes with a notification that is still to be made. -/
structure Settled (s : Executor n τ) : Prop where
  waiting : ∀ i, s.worker i = .popWait → s.tasks i = []
  blocked : ∀ i, s.worker i = .blocked false → s.tasks i ≠ [] → ∃ task, s.load task = .pushed i

theorem settled_init : (init : Executor n τ).Settled :=
  ⟨by simp [init], by simp [init]⟩

/-- A worker moves on while its queue stays as it is or shrinks. -/
theorem Settled.setWorker {s : Executor n τ} (h : s.Settled) {i : Fin n} {pc : Worker τ}
    (hwaiting : pc = .popWait → s.tasks i = []) (hblocked : pc = .blocked false → s.tasks i = []) :
    (s.setWorker i pc).Settled := by
  constructor
  · intro j hj
    by_cases hji : j = i
    · subst hji
      rw [setWorker_self] at hj
      exact hwaiting hj
    · rw [setWorker_of_ne s pc hji] at hj
      exact h.waiting j hj
  · intro j hj htasks
    by_cases hji : j = i
    · subst hji
      rw [setWorker_self] at hj
      exact absurd (hblocked hj) htasks
    · rw [setWorker_of_ne s pc hji] at hj
      exact h.blocked j hj htasks

theorem Settled.setTasks {s : Executor n τ} (h : s.Settled) {i : Fin n} {tasks : List τ}
    (hsub : s.tasks i = [] → tasks = []) : (s.setTasks i tasks).Settled := by
  have hempty : ∀ j, s.tasks j = [] → (s.setTasks i tasks).tasks j = [] := by
    intro j hj
    by_cases hji : j = i
    · subst hji
      simpa [Executor.setTasks] using hsub hj
    · simpa [Executor.setTasks, hji] using hj
  exact ⟨fun j hj => hempty j (h.waiting j hj),
    fun j hj htasks => h.blocked j hj fun hnil => htasks (hempty j hnil)⟩

theorem Settled.notify {s : Executor n τ} (h : s.Settled) (i : Fin n) : (s.notify i).Settled :=
  notify_of h fun _ _ => h.setWorker (by simp) (by simp)

variable [DecidableEq τ]

theorem Settled.push {s : Executor n τ} (h : s.Settled) {task : τ} {queue : Fin n}
    (hl : s.load task = .indexed queue) (hlock : s.locked queue = false) :
    (({ s with loaded := s.loaded ++ [task] }.setTasks queue
      (s.tasks queue ++ [task])).setLoad task (.pushed queue)).Settled := by
  constructor
  · intro j hj
    change s.worker j = .popWait at hj
    have hjq : j ≠ queue := by
      intro heq
      rw [heq] at hj
      simp [locked, hj] at hlock
    simpa [setLoad, Executor.setTasks, hjq] using h.waiting j hj
  · intro j hj htasks
    by_cases hjq : j = queue
    · subst hjq
      exact ⟨task, by simp [setLoad]⟩
    · obtain ⟨task', htask'⟩ :=
        h.blocked j hj (by simpa [setLoad, Executor.setTasks, hjq] using htasks)
      have hne : task' ≠ task := ne_of_apply_ne s.load (by simp [htask', hl])
      exact ⟨task', by simpa [setLoad, Executor.setTasks, hne] using htask'⟩

theorem Settled.notifyOne {s : Executor n τ} (h : s.Settled) {task : τ} {queue : Fin n}
    (hl : s.load task = .pushed queue) : ((s.notify queue).setLoad task .returned).Settled := by
  have hnotify := h.notify queue
  refine ⟨hnotify.waiting, fun j hj htasks => ?_⟩
  change (s.notify queue).worker j = .blocked false at hj
  have hjq : j ≠ queue := by
    intro heq
    rw [heq] at hj
    exact notify_self s queue hj
  obtain ⟨task', htask'⟩ := hnotify.blocked j hj htasks
  have hne : task' ≠ task := by
    intro heq
    rw [notify_load, heq, hl] at htask'
    exact hjq (Load.pushed.inj htask').symm
  exact ⟨task', by simpa [setLoad, hne] using htask'⟩

theorem Settled.step {s s' : Executor n τ} {a : Action n τ} (h : s.Settled)
    (hstep : Step s a s') : s'.Settled := by
  cases hstep with
  | enter i hw | leave i hw | lock i hw | ready i hw | woken i hw | spurious i notified hw
  | popEmpty i hw | search i hw | again i hw | attempt i k hw | giveUp i k hw
  | tryLockFails i k hw | stealEmpty i k hw => exact h.setWorker (by simp) (by simp)
  | sleep i hw htasks hrunning => exact h.setWorker (fun _ => htasks) (by simp)
  | block i hw => exact h.setWorker (by simp) fun _ => h.waiting i hw
  | pop i task rest hw htasks =>
      exact (h.setTasks (by simp [htasks])).setWorker (by simp) (by simp)
  | steal i k task rest hw hlock htasks =>
      exact (h.setTasks (by simp [htasks])).setWorker (by simp) (by simp)
  | start i task stolen hw =>
      exact Settled.setWorker (s := { s with started := s.started ++ [task] })
        ⟨h.waiting, h.blocked⟩ (by simp) (by simp)
  | finish i task stolen hw =>
      refine Settled.setWorker (s := { s with finished := s.finished ++ [task] })
        ⟨h.waiting, h.blocked⟩ ?_ ?_ <;> cases stolen <;> simp
  | fetchAdd task queue hl hqueue =>
      refine ⟨h.waiting, fun j hj htasks => ?_⟩
      obtain ⟨task', htask'⟩ := h.blocked j hj htasks
      have hne : task' ≠ task := ne_of_apply_ne s.load (by simp [htask', hl])
      exact ⟨task', by simpa [setLoad, hne] using htask'⟩
  | push task queue hl hlock => exact h.push hl hlock
  | notifyOne task queue hl => exact h.notifyOne hl
  | finalize i hs =>
      have hnotify := h.notify i
      exact ⟨hnotify.waiting, hnotify.blocked⟩
  | stopCalled hs | store hs | stopped i hs | joined i hs => exact ⟨h.waiting, h.blocked⟩

theorem Reachable.settled {s : Executor n τ} (h : (machine n τ).Reachable s) : s.Settled :=
  h.invariant settled_init fun _ _ _ hs _ hstep => hs.step (step_cases hstep)

/-- No task sleeps in a queue with the worker of that queue, before `stop` or behind it. -/
theorem not_overslept {s : Executor n τ} (hs : (machine n τ).Reachable s) (i : Fin n) :
    ¬ s.Overslept i := by
  intro ⟨htasks, hpush, hblocked⟩
  obtain ⟨task, htask⟩ := (Reachable.settled hs).blocked i hblocked htasks
  exact hpush task htask

/-- A worker blocks, and a push completes on its queue. -/
theorem not_overslept_one_worker :
    ∃ s : Executor 1 ℕ, (machine 1 ℕ).run init
        [.worker 0, .worker 0, .worker 0, .worker 0, .load 5, .load 5, .load 5] = some s ∧
      s.tasks 0 = [5] ∧ (∀ task, s.load task ≠ .pushed 0) ∧ ¬ s.Overslept 0 := by
  obtain ⟨s, hrun, htasks, hload⟩ : ∃ s : Executor 1 ℕ, (machine 1 ℕ).run init
        [.worker 0, .worker 0, .worker 0, .worker 0, .load 5, .load 5, .load 5] = some s ∧
      s.tasks 0 = [5] ∧ ∀ task, s.load task ≠ .pushed 0 := by
    refine ⟨_, rfl, rfl, fun task => ?_⟩
    by_cases htask : task = 5
    · subst htask
      decide
    · simp [setLoad, Executor.setTasks, htask, notify, setWorker, init]
  exact ⟨s, hrun, htasks, hload, not_overslept (Machine.reachable_of_run hrun) 0⟩

/-! ## Tasks in the queue of a busy worker -/

/-- The worker is blocked on its own empty queue, with no notification pending. -/
def IdleAt (s : Executor n τ) (i : Fin n) : Prop :=
  s.worker i = .blocked false ∧ s.tasks i = []

/-- The worker is inside a task body and has more tasks in its queue. -/
def Backlogged (s : Executor n τ) (j : Fin n) : Prop :=
  s.tasks j ≠ [] ∧ ∃ task stolen, s.worker j = .busy task stolen

/-- Before `stop` no worker is idle while another one has a backlog. -/
def IdleSteal (s : Executor n τ) : Prop :=
  s.stop = .idle → ∀ i j, s.IdleAt i → ¬ s.Backlogged j

/-- While a worker is idle no task is pushed behind a busy one and none is begun in front of
queued ones; while there is a backlog no worker blocks and no thief takes the last task of a
blocked worker. -/
structure Spreads (s : Executor n τ) (a : Action n τ) : Prop where
  push : ∀ task queue running stolen, a = .load task → s.load task = .indexed queue →
    s.worker queue = .busy running stolen → ∀ i, ¬ s.IdleAt i
  start : ∀ j task stolen, a = .worker j → s.worker j = .holding task stolen → s.tasks j ≠ [] →
    ∀ i, ¬ s.IdleAt i
  block : ∀ i, a = .worker i → s.worker i = .popWait → ∀ j, ¬ s.Backlogged j
  steal : ∀ i k, a = .worker i → s.worker i = .stealTry k →
    s.worker (target i k) = .blocked false → (s.tasks (target i k)).length = 1 →
    ∀ j, ¬ s.Backlogged j

/-- The condition on the steps before `stop`. -/
def KeepsUp (s : Executor n τ) (a : Action n τ) : Prop :=
  s.stop = .idle → s.Spreads a

omit [DecidableEq τ] in
theorem idleSteal_init : (init : Executor n τ).IdleSteal := by
  intro _ i j hi
  cases hi.1

/-! ### How a worker becomes idle -/

omit [DecidableEq τ] in
theorem idleAt_setWorker {s : Executor n τ} {i v : Fin n} {pc : Worker τ}
    (h : (s.setWorker v pc).IdleAt i) (hpc : pc ≠ .blocked false) : i ≠ v ∧ s.IdleAt i := by
  have hne : i ≠ v := by
    intro heq
    subst heq
    have hworker := h.1
    rw [setWorker_self] at hworker
    exact hpc hworker
  refine ⟨hne, ?_, h.2⟩
  rw [← setWorker_of_ne s pc hne]
  exact h.1

omit [DecidableEq τ] in
theorem idleAt_setTasks {s : Executor n τ} {i v : Fin n} {tasks : List τ} (hne : i ≠ v) :
    (s.setTasks v tasks).IdleAt i ↔ s.IdleAt i := by
  simp [IdleAt, Executor.setTasks, hne]

omit [DecidableEq τ] in
theorem idleAt_notify {s : Executor n τ} {i v : Fin n} (h : (s.notify v).IdleAt i) :
    s.IdleAt i := by
  revert h
  exact notify_of (P := fun t => t.IdleAt i → s.IdleAt i) id
    fun _ _ h => (idleAt_setWorker h (by simp)).2

/-- A worker becomes idle when it blocks, or when it is blocked and loses its last task. -/
theorem idleAt_cases {s s' : Executor n τ} {a : Action n τ} (hstep : Step s a s') {i : Fin n}
    (hi : s'.IdleAt i) : s.IdleAt i ∨ (a = .worker i ∧ s.worker i = .popWait) ∨
      ∃ v k, a = .worker v ∧ s.worker v = .stealTry k ∧ target v k = i ∧
        s.worker i = .blocked false ∧ (s.tasks i).length = 1 := by
  cases hstep with
  | enter v hw | leave v hw | lock v hw | ready v hw | sleep v hw | woken v hw | spurious v b hw
  | popEmpty v hw | search v hw | again v hw | attempt v k hw | giveUp v k hw
  | tryLockFails v k hw | stealEmpty v k hw => exact .inl (idleAt_setWorker hi (by simp)).2
  | start v task stolen hw => exact .inl (idleAt_setWorker hi (by simp)).2
  | finish v task stolen hw => exact .inl (idleAt_setWorker hi (by cases stolen <;> simp)).2
  | block v hw =>
      by_cases hv : i = v
      · subst hv
        exact .inr (.inl ⟨rfl, hw⟩)
      · refine .inl ⟨?_, hi.2⟩
        rw [← setWorker_of_ne s (.blocked false) hv]
        exact hi.1
  | pop v task rest hw htasks =>
      obtain ⟨hne, hi⟩ := idleAt_setWorker hi (by simp)
      exact .inl ((idleAt_setTasks hne).mp hi)
  | steal v k task rest hw hlock htasks =>
      obtain ⟨-, hi⟩ := idleAt_setWorker hi (by simp)
      by_cases ht : i = target v k
      · subst ht
        have hrest : rest = [] := by simpa [Executor.setTasks] using hi.2
        exact .inr (.inr ⟨v, k, rfl, hw, rfl, hi.1, by simp [htasks, hrest]⟩)
      · exact .inl ((idleAt_setTasks ht).mp hi)
  | push task queue hl hlock =>
      have hne : i ≠ queue := by
        intro heq
        subst heq
        have htasks := hi.2
        simp [setLoad, Executor.setTasks] at htasks
      exact .inl ((idleAt_setTasks hne).mp hi)
  | notifyOne task queue hl => exact .inl (idleAt_notify hi)
  | finalize v hs => exact .inl (idleAt_notify hi)
  | fetchAdd task queue hl => exact .inl hi
  | stopCalled hs | store hs | stopped v hs | joined v hs => exact .inl hi

/-! ### How a backlog arises -/

omit [DecidableEq τ] in
theorem backlogged_setWorker {s : Executor n τ} {j v : Fin n} {pc : Worker τ}
    (h : (s.setWorker v pc).Backlogged j) (hpc : ∀ task stolen, pc ≠ .busy task stolen) :
    j ≠ v ∧ s.Backlogged j := by
  obtain ⟨htasks, task, stolen, hworker⟩ := h
  have hne : j ≠ v := by
    intro heq
    subst heq
    rw [setWorker_self] at hworker
    exact hpc task stolen hworker
  rw [setWorker_of_ne s pc hne] at hworker
  exact ⟨hne, htasks, task, stolen, hworker⟩

omit [DecidableEq τ] in
theorem backlogged_setTasks {s : Executor n τ} {j v : Fin n} {tasks : List τ} (hne : j ≠ v) :
    (s.setTasks v tasks).Backlogged j ↔ s.Backlogged j := by
  simp [Backlogged, Executor.setTasks, hne]

omit [DecidableEq τ] in
theorem backlogged_notify {s : Executor n τ} {j v : Fin n} (h : (s.notify v).Backlogged j) :
    s.Backlogged j := by
  revert h
  exact notify_of (P := fun t => t.Backlogged j → s.Backlogged j) id
    fun _ _ h => (backlogged_setWorker h (by simp)).2

/-- A backlog arises when a worker begins a task in front of others, or when one is pushed behind
a busy worker. -/
theorem backlogged_cases {s s' : Executor n τ} {a : Action n τ} (hstep : Step s a s') {j : Fin n}
    (hj : s'.Backlogged j) : s.Backlogged j ∨
      (∃ task stolen, a = .worker j ∧ s.worker j = .holding task stolen ∧ s.tasks j ≠ []) ∨
      ∃ task running stolen, a = .load task ∧ s.load task = .indexed j ∧
        s.worker j = .busy running stolen := by
  cases hstep with
  | enter v hw | leave v hw | lock v hw | ready v hw | sleep v hw | block v hw | woken v hw
  | spurious v b hw | popEmpty v hw | search v hw | again v hw | attempt v k hw | giveUp v k hw
  | tryLockFails v k hw | stealEmpty v k hw => exact .inl (backlogged_setWorker hj (by simp)).2
  | finish v task stolen hw => exact .inl (backlogged_setWorker hj (by cases stolen <;> simp)).2
  | start v task stolen hw =>
      by_cases hv : j = v
      · subst hv
        exact .inr (.inl ⟨task, stolen, rfl, hw, hj.1⟩)
      · obtain ⟨htasks, task', stolen', hworker⟩ := hj
        rw [setWorker_of_ne _ _ hv] at hworker
        exact .inl ⟨htasks, task', stolen', hworker⟩
  | pop v task rest hw htasks =>
      obtain ⟨hne, hj⟩ := backlogged_setWorker hj (by simp)
      exact .inl ((backlogged_setTasks hne).mp hj)
  | steal v k task rest hw hlock htasks =>
      obtain ⟨-, hj⟩ := backlogged_setWorker hj (by simp)
      by_cases ht : j = target v k
      · subst ht
        exact .inl ⟨by simp [htasks], hj.2⟩
      · exact .inl ((backlogged_setTasks ht).mp hj)
  | push task queue hl hlock =>
      by_cases hq : j = queue
      · subst hq
        obtain ⟨-, running, stolen, hworker⟩ := hj
        exact .inr (.inr ⟨task, running, stolen, rfl, hl, hworker⟩)
      · exact .inl ((backlogged_setTasks hq).mp hj)
  | notifyOne task queue hl => exact .inl (backlogged_notify hj)
  | finalize v hs => exact .inl (backlogged_notify hj)
  | fetchAdd task queue hl => exact .inl hj
  | stopCalled hs | store hs | stopped v hs | joined v hs => exact .inl hj

/-! ### Every run -/

/-- Before `stop` is called, and only then, `stop` is idle. -/
theorem stop_of_step {s s' : Executor n τ} {a : Action n τ} (hstep : Step s a s') :
    s'.stop = .idle ↔ s.stop = .idle ∧ a ≠ .stop := by
  cases hstep with
  | stopCalled hs => cases s.running <;> simp
  | store hs | finalize i hs | stopped i hs | joined i hs => simp
  | notifyOne task queue hl => simp [setLoad]
  | _ => simp [setWorker, setLoad, Executor.setTasks]

theorem spreads_of_idleSteal {s s' : Executor n τ} {a : Action n τ} (hs : s.Settled)
    (hstop : s.stop = .idle) (hstep : s.step a = some s') (h : s'.IdleSteal) : s.Spreads a := by
  have hstop' : a ≠ .stop → s'.stop = .idle := fun ha =>
    (stop_of_step (step_cases hstep)).mpr ⟨hstop, ha⟩
  constructor
  · intro task queue running stolen ha hl hw i hi
    subst ha
    have hs' : s' = ({ s with loaded := s.loaded ++ [task] }.setTasks queue
        (s.tasks queue ++ [task])).setLoad task (.pushed queue) := by
      simpa [step, stepLoad, hl, locked, hw] using hstep.symm
    have hne : i ≠ queue := ne_of_apply_ne s.worker (by simp [hi.1, hw])
    refine h (hstop' (by simp)) i queue ?_ ?_
    · rw [hs']
      exact (idleAt_setTasks hne).mpr hi
    · rw [hs']
      exact ⟨by simp [setLoad, Executor.setTasks], running, stolen, hw⟩
  · intro j task stolen ha hw htasks i hi
    subst ha
    have hs' : s' = { s with started := s.started ++ [task] }.setWorker j (.busy task stolen) := by
      simpa [step, stepWorker, hw] using hstep.symm
    have hne : i ≠ j := ne_of_apply_ne s.worker (by simp [hi.1, hw])
    refine h (hstop' (by simp)) i j ?_ ?_
    · rw [hs']
      exact ⟨(setWorker_of_ne _ _ hne).trans hi.1, hi.2⟩
    · rw [hs']
      exact ⟨htasks, task, stolen, setWorker_self _ _ _⟩
  · intro i ha hw j hbacklogged
    obtain ⟨htasks, task, stolen, hbusy⟩ := hbacklogged
    subst ha
    have hs' : s' = s.setWorker i (.blocked false) := by
      simpa [step, stepWorker, hw] using hstep.symm
    have hne : j ≠ i := ne_of_apply_ne s.worker (by simp [hbusy, hw])
    refine h (hstop' (by simp)) i j ?_ ?_
    · rw [hs']
      exact ⟨setWorker_self _ _ _, hs.waiting i hw⟩
    · rw [hs']
      exact ⟨htasks, task, stolen, (setWorker_of_ne _ _ hne).trans hbusy⟩
  · intro i k ha hw hblocked hlen j hbacklogged
    obtain ⟨htasks, task, stolen, hbusy⟩ := hbacklogged
    subst ha
    obtain ⟨last, hlast⟩ := List.length_eq_one_iff.mp hlen
    have hs' : s' = (s.setTasks (target i k) []).setWorker i (.holding last true) := by
      simpa [step, stepWorker, hw, locked, hblocked, trySteal, hlast] using hstep.symm
    have hi : target i k ≠ i := ne_of_apply_ne s.worker (by simp [hblocked, hw])
    have hj : j ≠ target i k := ne_of_apply_ne s.worker (by simp [hbusy, hblocked])
    have hji : j ≠ i := ne_of_apply_ne s.worker (by simp [hbusy, hw])
    refine h (hstop' (by simp)) (target i k) j ?_ ?_
    · rw [hs']
      exact ⟨(setWorker_of_ne _ _ hi).trans hblocked, by simp [setWorker, Executor.setTasks]⟩
    · rw [hs']
      refine ⟨?_, task, stolen, (setWorker_of_ne _ _ hji).trans hbusy⟩
      simpa [setWorker, Executor.setTasks, hj] using htasks

theorem idleSteal_of_spreads {s s' : Executor n τ} {a : Action n τ} (h : s.IdleSteal)
    (hok : s.KeepsUp a) (hstep : Step s a s') : s'.IdleSteal := by
  intro hstop' i j hi hj
  have hstop := ((stop_of_step hstep).mp hstop').1
  have hspreads := hok hstop
  rcases idleAt_cases hstep hi with hi | ⟨ha, hw⟩ | ⟨v, k, ha, hw, ht, hblocked, hlen⟩
  · rcases backlogged_cases hstep hj with hj | ⟨task, stolen, ha, hw, htasks⟩ |
      ⟨task, running, stolen, ha, hl, hw⟩
    · exact h hstop i j hi hj
    · exact hspreads.start j task stolen ha hw htasks i hi
    · exact hspreads.push task j running stolen ha hl hw i hi
  · rcases backlogged_cases hstep hj with hj | ⟨task, stolen, ha', hw', -⟩ |
      ⟨task, running, stolen, ha', -⟩
    · exact hspreads.block i ha hw j hj
    · cases ha.symm.trans ha'
      cases hw.symm.trans hw'
    · cases ha.symm.trans ha'
  · rcases backlogged_cases hstep hj with hj | ⟨task, stolen, ha', hw', -⟩ |
      ⟨task, running, stolen, ha', -⟩
    · subst ht
      exact hspreads.steal v k ha hw hblocked hlen j hj
    · cases ha.symm.trans ha'
      cases hw.symm.trans hw'
    · cases ha.symm.trans ha'

/-- Idle workers steal from busy ones throughout a run exactly if every step before `stop` keeps
to the condition. -/
theorem idleSteal_iff_keepsUp (actions : List (Action n τ)) :
    (machine n τ).Holds IdleSteal init actions ↔ (machine n τ).Meets KeepsUp init actions := by
  refine Machine.holds_iff_meets (I := Settled)
    (fun _ _ _ hs hstep => hs.step (step_cases hstep)) ?_ settled_init idleSteal_init actions
  intro s a s' hs h hstep
  constructor
  · exact fun h' hstop => spreads_of_idleSteal hs hstop hstep h'
  · exact fun hok => idleSteal_of_spreads h hok (step_cases hstep)

/-- Worker 1 has run its task and sleeps; worker 0 is inside the first task it was given, and the
third one waits behind it. -/
theorem idle_beside_backlog :
    ∃ s : Executor 2 ℕ, (machine 2 ℕ).run init
        [.load 5, .load 5, .load 5, .worker 0, .worker 0, .worker 0, .worker 0, .worker 0,
          .load 6, .load 6, .load 6, .worker 1, .worker 1, .worker 1, .worker 1, .worker 1,
          .worker 1, .worker 1, .worker 1, .worker 1, .worker 1, .worker 1, .worker 1, .worker 1,
          .worker 1, .load 7, .load 7, .load 7] = some s ∧
      s.worker 0 = .busy 5 false ∧ s.tasks 0 = [7] ∧ s.worker 1 = .blocked false ∧
      s.tasks 1 = [] ∧ (∀ task, task ∈ [5, 6, 7] → s.load task = .returned) ∧ s.stop = .idle ∧
      ¬ s.IdleSteal := by
  refine ⟨_, rfl, rfl, rfl, rfl, rfl, by decide, rfl, fun h => ?_⟩
  exact h rfl 1 0 ⟨rfl, rfl⟩ ⟨by decide, 5, false, rfl⟩

end Executor

end CommonLib.TaskExecutor
