import CommonLib.Verification.Runnable.Equations

/-! # Stopping the notified worker

The worker tests `_running` before it takes the lock, and not again before it blocks. A `stop`
between the two notifies nobody. -/

namespace CommonLib.Runnable

variable {δ ρ : Type*}

/-- Where a worker with this list of tasks will not block any more. -/
def Worker.Leaving (tasks : List (Task δ)) : Worker δ ρ → Prop
  | .waiting | .blocked false | .taking => False
  | .locking | .emptyTest => tasks ≠ []
  | _ => True

namespace ActiveRunnable

/-- `stop` has completed, there is no task, and the worker is blocked with no notification
pending. -/
def Missed (s : ActiveRunnable δ ρ) : Prop :=
  s.stopped = true ∧ s.tasks = [] ∧ s.worker = .blocked false

/-- `stop` does not take the lock between the worker's test of `_running` and its own locking, or
there is a task left that keeps the worker from blocking. -/
def InTime (s : ActiveRunnable δ ρ) (a : Action δ ρ) : Prop :=
  a = .stop → s.worker = .locking → s.tasks ≠ []

/-! ## The worker behind a `stop` -/

/-- Behind a `stop` the flag is down, and the worker leaves its loop at the next test. -/
def Halting (s : ActiveRunnable δ ρ) : Prop :=
  s.stopped = true → s.running = false ∧ s.worker.Leaving s.tasks

theorem halting_init : (init : ActiveRunnable δ ρ).Halting := by
  intro hstopped
  cases hstopped

/-- The worker moves on while flag and tasks stay as they are. -/
theorem Halting.setWorker {s : ActiveRunnable δ ρ} (h : s.Halting) {pc : Worker δ ρ}
    (hpc : s.stopped = true → s.running = false → s.worker.Leaving s.tasks → pc.Leaving s.tasks) :
    (s.setWorker pc).Halting := by
  intro hstopped
  obtain ⟨hrunning, hleaving⟩ := h hstopped
  exact ⟨hrunning, hpc hstopped hrunning hleaving⟩

theorem Halting.notify {s : ActiveRunnable δ ρ} (h : s.Halting) (data : δ) :
    (s.notify data).Halting := by
  intro hstopped
  rw [ActiveRunnable.notify, notifyOne_eq] at hstopped ⊢
  obtain ⟨hrunning, hleaving⟩ := h hstopped
  refine ⟨hrunning, ?_⟩
  rcases notifyOne_cases { s with
    tasks := s.tasks ++ [⟨data, s.entered.length⟩],
    entered := s.entered ++ [⟨data, s.entered.length⟩] } with ⟨heq, -⟩ | ⟨notified, -, heq⟩
  · rw [heq]
    change s.worker.Leaving (s.tasks ++ [_])
    cases hw : s.worker with
    | locking | emptyTest => simp [Worker.Leaving]
    | blocked notified => cases notified <;> simp_all [Worker.Leaving]
    | _ => simp_all [Worker.Leaving]
  · rw [heq]
    trivial

theorem halting_stop {s : ActiveRunnable δ ρ} (hlock : s.locked = false)
    (hok : s.worker = .locking → s.tasks ≠ []) : s.stop.Halting := by
  intro _
  rw [stop, notifyOne_eq]
  refine ⟨rfl, ?_⟩
  rcases notifyOne_cases { s with running := false, stopped := true } with
    ⟨heq, hnot⟩ | ⟨notified, -, heq⟩
  · rw [heq]
    change s.worker.Leaving s.tasks
    cases hw : s.worker with
    | locking => exact hok hw
    | blocked notified => exact absurd hw (hnot notified)
    | emptyTest | waiting | taking => simp [locked, hw] at hlock
    | _ => trivial
  · rw [heq]
    trivial

theorem Halting.step {s s' : ActiveRunnable δ ρ} {a : Action δ ρ} (h : s.Halting)
    (hok : s.InTime a) (hstep : Step s a s') : s'.Halting := by
  cases hstep with
  | run hw =>
      intro hstopped
      cases hstopped
  | notify data hlock => exact h.notify data
  | stop hlock => exact halting_stop hlock (hok rfl)
  | enter hw hrunning =>
      refine h.setWorker fun _ hdown _ => ?_
      rw [hrunning] at hdown
      cases hdown
  | goOn hw hrunning =>
      refine h.setWorker fun _ hdown _ => ?_
      rw [hrunning] at hdown
      cases hdown
  | lock hw | sleep hw htasks | block hw =>
      refine h.setWorker fun _ _ hleaving => ?_
      rw [hw] at hleaving
      simp_all [Worker.Leaving]
  | leave hw | ready hw htasks | woken hw | spurious notified hw | relock hw | «break» hw =>
      exact h.setWorker fun _ _ _ => trivial
  | crash hw htasks => exact h
  | take task rest hw htasks =>
      intro hstopped
      have hleaving := (h hstopped).2
      rw [hw] at hleaving
      exact hleaving.elim
  | work task hw =>
      exact Halting.setWorker (s := { s with worked := s.worked ++ [task] }) h fun _ _ _ => trivial
  | returns task result hw =>
      exact Halting.setWorker (s := { s with results := s.results ++ [(task, result)] }) h
        fun _ _ _ => trivial
  | throws task hw => exact h
  | answer task result hw =>
      exact Halting.setWorker
        (s := { s with completed := s.completed ++ [(task.promise, result)] }) h
        fun _ _ _ => trivial

/-! ## Every run -/

theorem Reaches.halting {s : ActiveRunnable δ ρ} (h : (machine δ ρ).Reaches InTime s) :
    s.Halting :=
  h.invariant halting_init fun _ _ _ hs hok hstep => hs.step hok (step_cases hstep).2

/-- As long as every `stop` comes in time, none is missed. One that does not finds a worker that
is on its way to block, and three steps later that worker has missed it. -/
theorem not_missed_of_inTime :
    (∀ s : ActiveRunnable δ ρ, (machine δ ρ).Reaches InTime s → ¬ s.Missed) ∧
    ∀ (s : ActiveRunnable δ ρ) (a : Action δ ρ) (s' : ActiveRunnable δ ρ),
      s.step a = some s' → ¬ s.InTime a →
        ∃ s'', (machine δ ρ).run s' [.worker, .worker, .worker] = some s'' ∧ s''.Missed := by
  constructor
  · intro s hs hmissed
    obtain ⟨hstopped, -, hblocked⟩ := hmissed
    have hleaving := (Reaches.halting hs hstopped).2
    rw [hblocked] at hleaving
    exact hleaving
  · intro s a s' hstep hok
    simp only [InTime, not_forall, not_not] at hok
    obtain ⟨rfl, hw, htasks⟩ := hok
    obtain ⟨⟨hcrashed, hterminated⟩, hrule⟩ := step_cases hstep
    cases hrule with
    | stop hlock =>
        refine ⟨s.stop.setWorker (.blocked false), ?_, ?_⟩
        · simp [Machine.run, machine, ActiveRunnable.step, stepWorker, stop, notifyOne, hw, htasks,
            hcrashed, hterminated, ActiveRunnable.setWorker]
        · simp [Missed, stop, notifyOne, hw, htasks, ActiveRunnable.setWorker]

/-- A worker that is blocked when `stop` notifies it. -/
theorem not_missed_blocked :
    ∃ s : ActiveRunnable ℕ ℕ, (machine ℕ ℕ).run init
        [.run, .worker, .worker, .worker, .worker, .stop] = some s ∧
      s.stopped = true ∧ s.tasks = [] ∧ s.worker = .blocked true ∧ ¬ s.Missed := by
  have hmeets : (machine ℕ ℕ).Meets InTime init
      [.run, .worker, .worker, .worker, .worker, .stop] := by
    simp [Machine.Meets, machine, ActiveRunnable.step, stepWorker, init, run, InTime,
      ActiveRunnable.setWorker]
  refine ⟨_, rfl, rfl, rfl, rfl, ?_⟩
  exact not_missed_of_inTime.1 _ (Machine.Reaches.init.run_of_meets hmeets rfl)

/-- `stop` comes when the worker has tested the flag and not yet locked. -/
theorem stop_before_lock_missed :
    ∃ s : ActiveRunnable ℕ ℕ, (machine ℕ ℕ).run init
        [.run, .worker, .stop, .worker, .worker, .worker] = some s ∧
      s.Missed ∧ s.step .worker = none :=
  ⟨_, rfl, ⟨rfl, rfl, rfl⟩, rfl⟩

end ActiveRunnable

end CommonLib.Runnable
