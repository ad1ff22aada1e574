import CommonLib.Verification.TaskExecutor.Conservation
import CommonLib.Verification.TaskExecutor.Wakeup

/-! # Futures behind `stop`

`stop` waits for the workers and not for the tasks. What is still in a queue when the last worker
leaves its loop stays there, and so does what is pushed later: nobody calls it, and nobody destroys
it while the executor lives. -/

namespace CommonLib.TaskExecutor

namespace Executor

variable {n : ℕ} {τ : Type*}

/-- The future of the task is ready: the task was called to its end, with a value or an exception,
or was destroyed before that, with a broken promise. -/
def Ready (s : Executor n τ) (task : τ) : Prop :=
  task ∈ s.finished ∨ ∀ k, task ∉ s.content k

/-- Behind `stop`, every future that a `load` has returned is ready. -/
def NothingHangs (s : Executor n τ) : Prop :=
  s.stop = .returned → ∀ task, s.load task = .returned → s.Ready task

def AllExited (s : Executor n τ) : Prop :=
  ∀ i, s.worker i = .exited

/-- The last worker does not leave its loop while a queue holds a task, and no task is pushed when
all of them have left. -/
def Drains (s : Executor n τ) : Action n τ → Prop
  | .worker i => s.worker i = .loopTest → s.running = false →
      (∀ j, j ≠ i → s.worker j = .exited) → ∀ j, s.tasks j = []
  | .load task => (∃ queue, s.load task = .indexed queue) → ∃ j, s.worker j ≠ .exited
  | _ => True

instance [DecidableEq τ] (s : Executor n τ) : (a : Action n τ) → Decidable (s.Drains a)
  | .worker i => inferInstanceAs (Decidable (s.worker i = .loopTest → s.running = false →
      (∀ j, j ≠ i → s.worker j = .exited) → ∀ j, s.tasks j = []))
  | .load task => inferInstanceAs (Decidable
      ((∃ queue, s.load task = .indexed queue) → ∃ j, s.worker j ≠ .exited))
  | .tryLockFails _ | .spurious _ | .stop => isTrue trivial

/-! ## What `stop` has waited for -/

/-- `stop` has seen the worker at its end. -/
def Joined (s : Executor n τ) (i : Fin n) : Prop :=
  match s.stop with
  | .idle | .storing => False
  | .finalizing j | .waiting j => i < j
  | .returned => True

/-- A worker leaves its loop when the flag is cleared, and `stop` passes it only then. -/
structure Parted (s : Executor n τ) : Prop where
  flag : s.FlagFollows
  exited : ∀ i, s.worker i = .exited → s.running = false
  joined : ∀ i, s.Joined i → s.worker i = .exited
  waiting : ∀ i, s.stop = .waiting i → i < n

theorem parted_init : (init : Executor n τ).Parted :=
  ⟨(woken_init (n := n) (τ := τ)).flag, by simp [init], by simp [init, Joined], by simp [init]⟩

theorem Parted.setWorker {s : Executor n τ} (h : s.Parted) {i : Fin n} {pc : Worker τ}
    (hw : s.worker i ≠ .exited) (hpc : pc = .exited → s.running = false) :
    (s.setWorker i pc).Parted := by
  refine ⟨h.flag, fun j hj => ?_, fun j hj => ?_, h.waiting⟩
  · by_cases hji : j = i
    · rw [hji, setWorker_self] at hj
      exact hpc hj
    · rw [setWorker_of_ne s pc hji] at hj
      exact h.exited j hj
  · have hexited := h.joined j hj
    have hji : j ≠ i := fun heq => hw (heq ▸ hexited)
    rwa [setWorker_of_ne s pc hji]

theorem Parted.notify {s : Executor n τ} (h : s.Parted) (i : Fin n) : (s.notify i).Parted :=
  notify_of h fun _ hw => h.setWorker (by simp [hw]) (by simp)

variable [DecidableEq τ]

theorem Parted.step {s s' : Executor n τ} {a : Action n τ} (h : s.Parted) (hstep : Step s a s') :
    s'.Parted := by
  have hflag := h.flag.step hstep
  cases hstep with
  | enter i hw | lock i hw | ready i hw | sleep i hw | block i hw | woken i hw
  | spurious i notified hw | popEmpty i hw | search i hw | again i hw | attempt i k hw
  | giveUp i k hw | tryLockFails i k hw | stealEmpty i k hw =>
      exact h.setWorker (by simp [hw]) (by simp)
  | leave i hw hrunning => exact h.setWorker (by simp [hw]) fun _ => hrunning
  | pop i task rest hw htasks =>
      exact Parted.setWorker (s := s.setTasks i rest) ⟨h.flag, h.exited, h.joined, h.waiting⟩
        (by simp [Executor.setTasks, hw]) (by simp)
  | steal i k task rest hw hlock htasks =>
      exact Parted.setWorker (s := s.setTasks (target i k) rest) ⟨h.flag, h.exited, h.joined, h.waiting⟩
        (by simp [Executor.setTasks, hw]) (by simp)
  | start i task stolen hw =>
      exact Parted.setWorker (s := { s with started := s.started ++ [task] })
        ⟨h.flag, h.exited, h.joined, h.waiting⟩ (by simp [hw]) (by simp)
  | finish i task stolen hw =>
      refine Parted.setWorker (s := { s with finished := s.finished ++ [task] })
        ⟨h.flag, h.exited, h.joined, h.waiting⟩ (by simp [hw]) ?_
      cases stolen <;> simp
  | fetchAdd task queue hl hqueue => exact ⟨hflag, h.exited, h.joined, h.waiting⟩
  | push task queue hl hlock => exact ⟨hflag, h.exited, h.joined, h.waiting⟩
  | notifyOne task queue hl =>
      have hnotify := h.notify queue
      exact ⟨hflag, hnotify.exited, hnotify.joined, hnotify.waiting⟩
  | stopCalled hs =>
      have hrunning : s.running = true := h.flag.mpr (.inl hs)
      exact ⟨hflag, h.exited, fun i hi => by simp [Joined, hrunning] at hi, by simp [hrunning]⟩
  | store hs =>
      exact ⟨hflag, fun _ _ => rfl, fun i hi => absurd hi (Nat.not_lt_zero i), by simp⟩
  | finalize i hs =>
      have hnotify := h.notify i
      refine ⟨hflag, hnotify.exited, fun j hj => hnotify.joined j ?_, fun j hj => ?_⟩
      · simpa [Joined, hs] using hj
      · cases hj
        exact i.isLt
  | stopped i hs hi =>
      refine ⟨hflag, h.exited, fun j _ => h.joined j ?_, by simp⟩
      simp only [Joined, hs]
      exact Nat.lt_of_lt_of_le j.isLt hi
  | joined i hs hw =>
      refine ⟨hflag, h.exited, fun j hj => ?_, by simp⟩
      by_cases hji : j = i
      · rwa [hji]
      · apply h.joined j
        simp only [Joined, hs]
        exact Nat.lt_of_le_of_ne (Nat.lt_succ_iff.mp hj) fun heq => hji (Fin.ext heq)

theorem Reachable.parted {s : Executor n τ} (h : (machine n τ).Reachable s) : s.Parted :=
  h.invariant parted_init fun _ _ _ hs _ hstep => hs.step (step_cases hstep)

/-! ## Runs that drain the queues -/

/-- Nothing is left behind the last worker. -/
def Emptied (s : Executor n τ) : Prop :=
  s.AllExited → ∀ i, s.tasks i = []

omit [DecidableEq τ] in
theorem Emptied.of_awake {s : Executor n τ} {i : Fin n} (h : s.worker i ≠ .exited) : s.Emptied :=
  fun hexited => absurd (hexited i) h

omit [DecidableEq τ] in
theorem Emptied.notify {s : Executor n τ} (h : s.Emptied) (i : Fin n) : (s.notify i).Emptied :=
  notify_of h fun _ _ => .of_awake (i := i) (by simp)

theorem Emptied.step {s s' : Executor n τ} {a : Action n τ} (h : s.Emptied) (hok : s.Drains a)
    (hstep : Step s a s') : s'.Emptied := by
  cases hstep with
  | enter i hw | lock i hw | ready i hw | sleep i hw | block i hw | woken i hw
  | spurious i notified hw | popEmpty i hw | pop i task rest hw | start i task stolen hw
  | search i hw | again i hw | attempt i k hw | giveUp i k hw | tryLockFails i k hw
  | stealEmpty i k hw | steal i k task rest hw => exact .of_awake (i := i) (by simp)
  | finish i task stolen hw => exact .of_awake (i := i) (by cases stolen <;> simp)
  | leave i hw hrunning =>
      intro hexited
      apply hok hw hrunning
      intro j hj
      have hexitedj := hexited j
      rwa [setWorker_of_ne s _ hj] at hexitedj
  | push task queue hl hlock =>
      obtain ⟨j, hj⟩ := hok ⟨queue, hl⟩
      exact .of_awake (i := j) hj
  | notifyOne task queue hl => exact h.notify queue
  | finalize i hs => exact h.notify i
  | fetchAdd task queue hl hqueue => exact h
  | stopCalled hs | store hs | stopped i hs hi | joined i hs hw => exact h

theorem Reaches.emptied {s : Executor n τ} (h : (machine n τ).Reaches Drains s) : s.Emptied :=
  h.invariant (fun _ _ => rfl) fun _ _ _ hs hok hstep => hs.step hok (step_cases hstep)

/-! ## Tasks left behind -/

/-- A task that has been pushed and is in no queue is finished when no worker is left. -/
theorem ready_of_emptied {s : Executor n τ} (hs : (machine n τ).Reachable s)
    (hexited : s.AllExited) (hempty : ∀ i, s.tasks i = []) {task : τ}
    (htask : (s.load task).Pushed) : s.Ready task := by
  obtain ⟨k, hk, -⟩ := (Reachable.conserved hs).place htask
  cases k with
  | queue i => simp [content, hempty i] at hk
  | hands i => simp [content, hexited i, Worker.hands] at hk
  | finished => exact .inl hk

theorem not_ready_of_queued {s : Executor n τ} (hs : (machine n τ).Reachable s) {task : τ}
    {i : Fin n} (htask : task ∈ s.tasks i) : ¬ s.Ready task := by
  have hplace : task ∈ s.content (.queue i) := htask
  rintro (hfinished | hnowhere)
  · have hconserved := Reachable.conserved hs
    have heq := (hconserved.place (hconserved.pushed_of_mem hplace)).unique hplace
      (show task ∈ s.content .finished from hfinished)
    cases heq
  · exact hnowhere _ hplace

/-- A task in a queue that no worker is left to look at. -/
structure Stranded (s : Executor n τ) (task : τ) : Prop where
  reachable : (machine n τ).Reachable s
  exited : s.AllExited
  stopping : s.running = false
  queued : ∃ i, task ∈ s.tasks i

/-- What is left of the loop of `stop`: two steps for each worker, and one. -/
def remaining (s : Executor n τ) : ℕ :=
  match s.stop with
  | .idle | .storing | .returned => 0
  | .finalizing i => 2 * (n - i) + 1
  | .waiting i => 2 * (n - i)

/-- With all workers gone nothing holds up `stop`. -/
theorem Stranded.stop {s : Executor n τ} {task : τ} (h : s.Stranded task)
    (hs : s.stop ≠ .returned) : ∃ s', (machine n τ).step s .stop = some s' ∧ s'.Stranded task ∧
      s'.load = s.load ∧ s'.remaining < s.remaining := by
  have hparted := Reachable.parted h.reachable
  have hmove : ∀ stop : Stop, s.step .stop = some { s with stop := stop } →
      ({ s with stop := stop } : Executor n τ).remaining < s.remaining →
      ∃ s', (machine n τ).step s .stop = some s' ∧ s'.Stranded task ∧ s'.load = s.load ∧
        s'.remaining < s.remaining := by
    intro stop hstop hlt
    have hstep : (machine n τ).step s .stop = some { s with stop := stop } := hstop
    exact ⟨_, hstep, ⟨h.reachable.step trivial hstep, h.exited, h.stopping, h.queued⟩, rfl, hlt⟩
  cases hstop : s.stop with
  | idle => exact absurd (hparted.flag.mpr (.inl hstop)) (by simp [h.stopping])
  | storing => exact absurd (hparted.flag.mpr (.inr hstop)) (by simp [h.stopping])
  | returned => exact absurd hstop hs
  | finalizing i =>
      by_cases hi : i < n
      · have hnotify := notify_of_exited (h.exited ⟨i, hi⟩)
        exact hmove (.waiting i) (by simp [step, stepStop, hstop, hi, hnotify])
          (by simp [remaining, hstop])
      · exact hmove .returned (by simp [step, stepStop, hstop, hi]) (by simp [remaining, hstop])
  | waiting i =>
      have hi := hparted.waiting i hstop
      refine hmove (.finalizing (i + 1))
        (by simp [step, stepStop, hstop, hi, h.exited ⟨i, hi⟩]) ?_
      simp only [remaining, hstop]
      omega

theorem Stranded.leads_of_returned {s : Executor n τ} {task : τ} (h : s.Stranded task)
    (hload : s.load task = .returned) :
    (machine n τ).Leads (fun s' => ¬ s'.NothingHangs) s := by
  obtain ⟨steps, hsteps⟩ : ∃ steps, steps = s.remaining := ⟨_, rfl⟩
  induction steps using Nat.strong_induction_on generalizing s with
  | _ steps ih =>
      by_cases hs : s.stop = .returned
      · obtain ⟨i, hi⟩ := h.queued
        exact Machine.leads_of fun hready =>
          not_ready_of_queued h.reachable hi (hready hs task hload)
      · obtain ⟨s', hstep, hstranded, hload', hlt⟩ := h.stop hs
        exact .of_step hstep (ih _ (hsteps ▸ hlt) hstranded (by rw [hload', hload]) rfl)

/-- The `load` of a task that is left behind returns, and so does `stop`. -/
theorem Stranded.leads {s : Executor n τ} {task : τ} (h : s.Stranded task) :
    (machine n τ).Leads (fun s' => ¬ s'.NothingHangs) s := by
  obtain ⟨i, hi⟩ := h.queued
  have hplace : task ∈ s.content (.queue i) := hi
  have hpushed := (Reachable.conserved h.reachable).pushed_of_mem hplace
  cases hload : s.load task with
  | idle => simp [hload, Load.Pushed] at hpushed
  | indexed queue => simp [hload, Load.Pushed] at hpushed
  | returned => exact h.leads_of_returned hload
  | pushed queue =>
      have hnotify := notify_of_exited (h.exited queue)
      have hstep : (machine n τ).step s (.load task) = some (s.setLoad task .returned) := by
        change s.stepLoad task = _
        simp [stepLoad, hload, hnotify]
      have hstranded : (s.setLoad task .returned).Stranded task :=
        ⟨h.reachable.step trivial hstep, h.exited, h.stopping, h.queued⟩
      exact .of_step hstep (hstranded.leads_of_returned (by simp [setLoad]))

/-- As long as the queues are drained no future hangs behind `stop`. A worker that leaves tasks
behind as the last one, and a task that is pushed behind the last worker, leave a future that may
hang. -/
theorem nothingHangs_of_drains :
    (∀ s : Executor n τ, (machine n τ).Reaches Drains s → s.NothingHangs) ∧
    ∀ (s : Executor n τ) (a : Action n τ) (s' : Executor n τ), (machine n τ).Reachable s →
      s.step a = some s' → ¬ s.Drains a →
        (machine n τ).Leads (fun last => ¬ last.NothingHangs) s' := by
  constructor
  · intro s hs hstop task hload
    have hreachable : (machine n τ).Reachable s := hs.mono fun _ _ _ => trivial
    have hexited : s.AllExited := fun i =>
      (Reachable.parted hreachable).joined i (by simp [Joined, hstop])
    refine ready_of_emptied hreachable hexited (Reaches.emptied hs hexited) ?_
    rw [hload]
    trivial
  · intro s a s' hs hstep hok
    have hs' : (machine n τ).Reachable s' := hs.step trivial hstep
    cases step_cases hstep with
    | leave i hw hrunning =>
        simp only [Drains, not_forall] at hok
        obtain ⟨-, -, hothers, j, htasks⟩ := hok
        obtain ⟨task, htask⟩ := List.exists_mem_of_ne_nil _ htasks
        have hexited : ∀ k, (s.setWorker i .exited).worker k = .exited := by
          intro k
          by_cases hki : k = i
          · rw [hki, setWorker_self]
          · rw [setWorker_of_ne s _ hki]
            exact hothers k hki
        have hstranded : Stranded (s.setWorker i .exited) task :=
          ⟨hs', hexited, hrunning, j, htask⟩
        exact hstranded.leads
    | push task queue hl hlock =>
        simp only [Drains, not_forall, not_exists, not_not] at hok
        obtain ⟨-, hexited⟩ := hok
        have hstranded : Stranded (({ s with loaded := s.loaded ++ [task] }.setTasks queue
            (s.tasks queue ++ [task])).setLoad task (.pushed queue)) task := by
          refine ⟨hs', hexited, ?_, queue, ?_⟩
          · exact (Reachable.parted hs).exited queue (hexited queue)
          · simp [setLoad, Executor.setTasks]
        exact hstranded.leads
    | enter i hw hrunning => simp [Drains, hrunning] at hok
    | lock i hw | ready i hw | sleep i hw | block i hw | woken i hw | popEmpty i hw
    | pop i task rest hw | start i task stolen hw | finish i task stolen hw | search i hw
    | again i hw | attempt i k hw | giveUp i k hw | stealEmpty i k hw | steal i k task rest hw =>
        simp [Drains, hw] at hok
    | fetchAdd task queue hl | notifyOne task queue hl => simp [Drains, hl] at hok
    | tryLockFails i k hw | spurious i notified hw | stopCalled hs | store hs | finalize i hs
    | stopped i hs | joined i hs => simp [Drains] at hok

/-- A task is called and finished before the worker leaves. -/
theorem nothingHangs_one_task :
    ∃ s : Executor 1 ℕ, (machine 1 ℕ).run init
        [.load 5, .load 5, .load 5, .worker 0, .worker 0, .worker 0, .worker 0, .worker 0,
          .worker 0, .worker 0, .worker 0, .stop, .stop, .worker 0, .stop, .stop, .stop] =
        some s ∧
      s.stop = .returned ∧ s.load 5 = .returned ∧ s.Ready 5 := by
  have hmeets : (machine 1 ℕ).Meets Drains init
      [.load 5, .load 5, .load 5, .worker 0, .worker 0, .worker 0, .worker 0, .worker 0,
        .worker 0, .worker 0, .worker 0, .stop, .stop, .worker 0, .stop, .stop, .stop] := by
    decide
  refine ⟨_, rfl, rfl, rfl, ?_⟩
  exact nothingHangs_of_drains.1 _ (Machine.Reaches.init.run_of_meets hmeets rfl) rfl 5 rfl

/-- One task is queued behind another one when `stop` is called, and a third one is loaded behind
`stop`. -/
theorem queued_task_hangs :
    ∃ s : Executor 1 ℕ, (machine 1 ℕ).run init
        [.load 5, .load 5, .load 5, .load 6, .load 6, .load 6, .worker 0, .worker 0, .worker 0,
          .worker 0, .worker 0, .stop, .stop, .worker 0, .worker 0, .worker 0, .stop, .stop, .stop,
          .load 7, .load 7, .load 7] = some s ∧
      s.stop = .returned ∧ s.load 6 = .returned ∧ s.load 7 = .returned ∧ s.finished = [5] ∧
      s.tasks 0 = [6, 7] ∧ ¬ s.NothingHangs := by
  refine ⟨_, rfl, rfl, rfl, rfl, rfl, rfl, fun h => ?_⟩
  rcases h rfl 6 rfl with hfinished | hnowhere
  · exact absurd hfinished (by decide)
  · exact hnowhere (.queue 0) (by decide)

end Executor

end CommonLib.TaskExecutor
