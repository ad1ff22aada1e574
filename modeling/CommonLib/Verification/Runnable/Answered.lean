import CommonLib.Verification.Runnable.Order

/-! # Promises that are left behind

The worker leaves its loop when it finds the flag down, whatever is still in the list, and
`notify` does not ask whether there is a worker. A promise is completed only by the worker, so it
is the tasks in the list that are left without an answer. -/

namespace CommonLib.Runnable

variable {δ ρ : Type*}

namespace ActiveRunnable

/-- Once the loop was left, every promise that `notify` gave out is completed. -/
def Answered (s : ActiveRunnable δ ρ) : Prop :=
  s.worker = .exited → ∀ i < s.entered.length, ∃ r, (i, r) ∈ s.completed

/-- The worker leaves its loop only with an empty list, and nothing is notified behind it. -/
def LeavesNone (s : ActiveRunnable δ ρ) (a : Action δ ρ) : Prop :=
  (a = .worker → s.worker = .loopTest ∨ s.worker = .runTest → s.running = false →
    s.tasks = []) ∧
  ∀ data, a = .notify data → s.worker ≠ .exited

/-! ## The answers of a worker that has left -/

theorem InOrder.entered_of_exited {s : ActiveRunnable δ ρ} (h : s.InOrder)
    (hw : s.worker = .exited) : s.entered = s.worked ++ s.tasks := by
  have hentered := h.entered
  rw [hw] at hentered
  simpa [Worker.inHand] using hentered

/-- Every task that was passed to `__work` has its answer. -/
theorem InOrder.completed_of_exited {s : ActiveRunnable δ ρ} (h : s.InOrder)
    (hw : s.worker = .exited) : s.completed.map Prod.fst = s.worked.map Task.promise := by
  have hworked := h.worked
  have hanswered := h.answered
  rw [hw] at hworked hanswered
  simp only [Worker.inWork, Worker.inAnswer, List.append_nil] at hworked hanswered
  rw [hworked, ← hanswered]
  simp

theorem InOrder.map_promise_worked {s : ActiveRunnable δ ρ} (h : s.InOrder) :
    s.worked.map Task.promise = List.range s.worked.length := by
  have hprefix := h.worked_prefix.map Task.promise
  rw [h.numbered] at hprefix
  have htake := List.prefix_iff_eq_take.mp hprefix
  rw [List.take_range, List.length_map] at htake
  rw [htake, Nat.min_eq_left h.worked_prefix.length_le]

/-- Behind a worker that has left, exactly the tasks in the list are not answered. -/
theorem InOrder.answered_iff {s : ActiveRunnable δ ρ} (h : s.InOrder) :
    s.Answered ↔ (s.worker = .exited → s.tasks = []) := by
  refine forall_congr' fun hw => ?_
  have hanswered : ∀ i, (∃ r, (i, r) ∈ s.completed) ↔ i < s.worked.length := by
    intro i
    have hmem : i ∈ s.completed.map Prod.fst ↔ i < s.worked.length := by
      rw [h.completed_of_exited hw, h.map_promise_worked, List.mem_range]
    simpa using hmem
  simp only [hanswered, h.entered_of_exited hw, List.length_append]
  constructor
  · intro hall
    have hlength : ¬ s.worked.length < s.worked.length + s.tasks.length := fun hlt =>
      (hall _ hlt).false
    exact List.length_eq_zero_iff.mp (by omega)
  · intro htasks i hi
    simpa [htasks] using hi

/-! ## Every run -/

theorem notify_exited {s : ActiveRunnable δ ρ} (data : δ) (hw : s.worker = .exited) :
    (s.notify data).worker = .exited ∧ (s.notify data).tasks ≠ [] := by
  simp [notify, notifyOne, hw]

/-- A notification wakes the worker at most. -/
theorem notifyOne_exited {s : ActiveRunnable δ ρ} (hw : s.notifyOne.worker = .exited) :
    s.worker = .exited := by
  rcases notifyOne_cases s with ⟨heq, -⟩ | ⟨notified, -, heq⟩
  · rw [heq] at hw
    exact hw
  · rw [heq] at hw
    cases hw

theorem stop_exited {s : ActiveRunnable δ ρ} (hw : s.stop.worker = .exited) :
    s.worker = .exited :=
  notifyOne_exited (s := { s with running := false, stopped := true }) hw

theorem stop_tasks (s : ActiveRunnable δ ρ) : s.stop.tasks = s.tasks := by
  rw [stop, notifyOne_eq]
  rfl

/-- One step leaves a promise behind exactly if it breaks the condition. -/
theorem exited_tasks_step_iff {s s' : ActiveRunnable δ ρ} {a : Action δ ρ}
    (h : s.worker = .exited → s.tasks = []) (hstep : Step s a s') :
    (s'.worker = .exited → s'.tasks = []) ↔ s.LeavesNone a := by
  cases hstep with
  | notify data hlock =>
      constructor
      · intro hnone
        refine ⟨by simp, fun _ _ hw => ?_⟩
        obtain ⟨hexited, htasks⟩ := notify_exited data hw
        exact htasks (hnone hexited)
      · intro hok hexited
        exact absurd (notifyOne_exited hexited) (hok.2 data rfl)
  | stop hlock =>
      refine iff_of_true (fun hexited => ?_) (by simp [LeavesNone])
      rw [stop_tasks]
      exact h (stop_exited hexited)
  | leave hw hrunning | «break» hw hrunning =>
      simp [LeavesNone, ActiveRunnable.setWorker, hw, hrunning]
  | run hw | enter hw | lock hw | sleep hw | ready hw | block hw | woken hw | spurious _ hw
  | relock hw | goOn hw | crash hw | take _ _ hw | work _ hw | returns _ _ hw | throws _ hw
  | answer _ _ hw =>
      simp_all [LeavesNone, ActiveRunnable.setWorker, run]

/-- No promise is left behind in a run exactly if the worker never leaves tasks in the list and
nothing is notified behind it. -/
theorem answered_iff_leavesNone (actions : List (Action δ ρ)) :
    (machine δ ρ).Holds Answered init actions ↔ (machine δ ρ).Meets LeavesNone init actions := by
  refine Machine.holds_iff_meets (I := InOrder) (fun s a s' hs hstep => ?_)
    (fun s a s' hs hanswered hstep => ?_) inOrder_init (fun hw => by cases hw) actions
  · exact hs.step (step_cases hstep).2
  · have hrule := (step_cases hstep).2
    rw [(hs.step hrule).answered_iff]
    exact exited_tasks_step_iff (hs.answered_iff.mp hanswered) hrule

/-- `stop` comes while a task is in the list, and the worker finds the flag down. -/
theorem stop_leaves_promise :
    ∃ s : ActiveRunnable ℕ ℕ, (machine ℕ ℕ).run init [.run, .notify 5, .stop, .worker] = some s ∧
      s.worker = .exited ∧ s.entered.length = 1 ∧ s.completed = [] ∧ ¬ s.Answered := by
  refine ⟨_, rfl, rfl, rfl, rfl, fun h => ?_⟩
  obtain ⟨r, hr⟩ := h rfl 0 Nat.one_pos
  exact absurd hr List.not_mem_nil

end ActiveRunnable

end CommonLib.Runnable
