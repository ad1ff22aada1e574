import CommonLib.Verification.Runnable.Equations

/-! # What a wakeup of the notified worker implies

The worker blocks behind an `if` and not in a loop, so it believes every wakeup. Between its
return from `wait` and its look at `_tasks[0]` it holds the lock, and only the flag is tested. -/

namespace CommonLib.Runnable

variable {δ ρ : Type*}

/-- A worker that holds the lock on its way to `_tasks[0]` finds a task there. -/
def Worker.Justified (tasks : List (Task δ)) (running : Bool) : Worker δ ρ → Prop
  | .runTest => tasks ≠ [] ∨ running = false
  | .taking => tasks ≠ []
  | _ => True

namespace ActiveRunnable

/-- `wait` returns with the lock only where a notified task is in the list or `stop` has lowered
the flag. -/
def WakesJustified (s : ActiveRunnable δ ρ) (a : Action δ ρ) : Prop :=
  a = .worker → s.worker = .relocking → s.tasks ≠ [] ∨ s.running = false

instance decidableWakesJustified [DecidableEq δ] [DecidableEq ρ] (s : ActiveRunnable δ ρ)
    (a : Action δ ρ) : Decidable (s.WakesJustified a) :=
  inferInstanceAs (Decidable (a = .worker → s.worker = .relocking →
    s.tasks ≠ [] ∨ s.running = false))

def Justified (s : ActiveRunnable δ ρ) : Prop :=
  s.crashed = false ∧ s.worker.Justified s.tasks s.running

theorem Justified.setWorker {s : ActiveRunnable δ ρ} (h : s.Justified) {pc : Worker δ ρ}
    (hpc : s.worker.Justified s.tasks s.running → pc.Justified s.tasks s.running) :
    (s.setWorker pc).Justified :=
  ⟨h.1, hpc h.2⟩

/-- Without the lock the worker is not on its way to the list, and waking it does not send it
there. -/
theorem justified_notifyOne {s : ActiveRunnable δ ρ} (hcrashed : s.crashed = false)
    (hlock : s.locked = false) : s.notifyOne.Justified := by
  rcases notifyOne_cases s with ⟨heq, -⟩ | ⟨notified, -, heq⟩
  · rw [heq]
    refine ⟨hcrashed, ?_⟩
    cases hw : s.worker with
    | runTest | taking => simp [locked, hw] at hlock
    | _ => trivial
  · rw [heq]
    exact ⟨hcrashed, trivial⟩

theorem Justified.step {s s' : ActiveRunnable δ ρ} {a : Action δ ρ} (h : s.Justified)
    (hok : s.WakesJustified a) (hstep : Step s a s') : s'.Justified := by
  cases hstep with
  | run hw => exact ⟨h.1, trivial⟩
  | notify data hlock => exact justified_notifyOne h.1 hlock
  | stop hlock => exact justified_notifyOne h.1 hlock
  | enter hw | leave hw | lock hw | sleep hw | block hw | woken hw | spurious notified hw
  | «break» hw => exact h.setWorker fun _ => trivial
  | ready hw htasks => exact h.setWorker fun _ => .inl htasks
  | relock hw => exact h.setWorker fun _ => hok rfl hw
  | goOn hw hrunning =>
      -- the flag was found up, so the wakeup was justified by a task
      refine h.setWorker fun hjustified => ?_
      rw [hw, hrunning] at hjustified
      exact hjustified.resolve_right Bool.noConfusion
  | crash hw htasks =>
      have hjustified := h.2
      rw [hw] at hjustified
      exact absurd htasks hjustified
  | take task rest hw htasks | work task hw | returns task result hw | answer task result hw =>
      exact ⟨h.1, trivial⟩
  | throws task hw => exact h

theorem Reaches.justified {s : ActiveRunnable δ ρ}
    (h : (machine δ ρ).Reaches WakesJustified s) : s.Justified :=
  h.invariant ⟨rfl, trivial⟩ fun _ _ _ hs hok hstep => hs.step hok (step_cases hstep).2

/-- As long as every wakeup is justified, the worker never looks at `_tasks[0]` in vain. One that
is not lets it come to an empty list with its next step, and nobody can get in between. -/
theorem reads_task_of_wakesJustified :
    (∀ s : ActiveRunnable δ ρ, (machine δ ρ).Reaches WakesJustified s →
      s.crashed = false ∧ (s.worker = .taking → s.tasks ≠ [])) ∧
    ∀ (s : ActiveRunnable δ ρ) (a : Action δ ρ) (s' : ActiveRunnable δ ρ),
      s.step a = some s' → ¬ s.WakesJustified a →
        s'.locked = true ∧ ∃ s'', s'.step .worker = some s'' ∧
          s''.worker = .taking ∧ s''.tasks = [] ∧ s''.locked = true := by
  constructor
  · intro s hs
    obtain ⟨hcrashed, hjustified⟩ := Reaches.justified hs
    refine ⟨hcrashed, fun hw => ?_⟩
    rw [hw] at hjustified
    exact hjustified
  · intro s a s' hstep hok
    simp only [WakesJustified, not_forall, not_or, not_not, Bool.not_eq_false] at hok
    obtain ⟨rfl, hw, htasks, hrunning⟩ := hok
    obtain ⟨⟨hcrashed, hterminated⟩, -⟩ := step_cases hstep
    have hs' : s' = s.setWorker .runTest := by
      simpa [ActiveRunnable.step, stepWorker, hw, hcrashed, hterminated] using hstep.symm
    subst hs'
    refine ⟨rfl, (s.setWorker .runTest).setWorker .taking, ?_, rfl, htasks, rfl⟩
    simp [ActiveRunnable.step, stepWorker, ActiveRunnable.setWorker, hrunning, hcrashed,
      hterminated]

/-- A worker that is woken with a task. -/
theorem reads_task_notified :
    ∃ s : ActiveRunnable ℕ ℕ, (machine ℕ ℕ).run init
        [.run, .worker, .worker, .worker, .worker, .notify 5, .worker, .worker, .worker] = some s ∧
      s.worker = .taking ∧ s.tasks ≠ [] := by
  have hmeets : (machine ℕ ℕ).Meets WakesJustified init
      [.run, .worker, .worker, .worker, .worker, .notify 5, .worker, .worker, .worker] := by
    decide
  refine ⟨_, rfl, rfl, ?_⟩
  exact (reads_task_of_wakesJustified.1 _ (Machine.Reaches.init.run_of_meets hmeets rfl)).2 rfl

/-- The worker wakes up without a notification before there is any task. -/
theorem spurious_reads_empty :
    ∃ s : ActiveRunnable ℕ ℕ, (machine ℕ ℕ).run init
        [.run, .worker, .worker, .worker, .worker, .spurious, .worker, .worker] = some s ∧
      s.worker = .taking ∧ s.tasks = [] ∧ (s.step .worker).map crashed = some true :=
  ⟨_, rfl, rfl, rfl, rfl⟩

end ActiveRunnable

end CommonLib.Runnable
