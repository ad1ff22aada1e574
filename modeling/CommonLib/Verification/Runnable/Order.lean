import CommonLib.Verification.Runnable.Equations
import Mathlib.Data.List.Range

/-! # Order and answers of the notified worker

A task is in exactly one place on its way from `_tasks` through the hands of the worker to its
promise, and no place is overtaken. Reading `_tasks[0]` is safe as long as nothing but `notify`
and `stop` wakes the worker. -/

namespace CommonLib.Runnable

variable {δ ρ : Type*}

/-- The task that was taken from the list and not yet passed to `__work`. -/
def Worker.inHand : Worker δ ρ → List (Task δ)
  | .holding task => [task]
  | _ => []

/-- The task that `__work` is running on. -/
def Worker.inWork : Worker δ ρ → List (Task δ)
  | .working task => [task]
  | _ => []

/-- The answer whose promise is about to be completed. -/
def Worker.inAnswer : Worker δ ρ → List (ℕ × ρ)
  | .answering task result => [(task.promise, result)]
  | _ => []

/-- A worker that goes on to `_tasks[0]` finds a task there. -/
def Worker.Supplied (tasks : List (Task δ)) (running : Bool) : Worker δ ρ → Prop
  | .blocked true | .relocking | .runTest => tasks ≠ [] ∨ running = false
  | .taking => tasks ≠ []
  | _ => True

namespace ActiveRunnable

/-- The condition variable does not wake the worker by itself. -/
def NoSpurious (_ : ActiveRunnable δ ρ) (a : Action δ ρ) : Prop :=
  a ≠ .spurious

/-! ## No read from an empty list -/

def Supplied (s : ActiveRunnable δ ρ) : Prop :=
  s.crashed = false ∧ s.worker.Supplied s.tasks s.running

/-- The worker moves on while flag and tasks stay as they are. -/
theorem Supplied.setWorker {s : ActiveRunnable δ ρ} (h : s.Supplied) {pc : Worker δ ρ}
    (hpc : s.worker.Supplied s.tasks s.running → pc.Supplied s.tasks s.running) :
    (s.setWorker pc).Supplied :=
  ⟨h.1, hpc h.2⟩

/-- `notify` leaves a task and `stop` a lowered flag, so that waking the worker is safe. -/
theorem supplied_notifyOne {s : ActiveRunnable δ ρ} (hcrashed : s.crashed = false)
    (hwake : s.tasks ≠ [] ∨ s.running = false) (htaking : s.worker = .taking → s.tasks ≠ []) :
    s.notifyOne.Supplied := by
  rcases notifyOne_cases s with ⟨heq, hnot⟩ | ⟨notified, -, heq⟩
  · rw [heq]
    refine ⟨hcrashed, ?_⟩
    cases hw : s.worker with
    | relocking | runTest => exact hwake
    | taking => exact htaking hw
    | blocked notified => exact absurd hw (hnot notified)
    | _ => trivial
  · rw [heq]
    exact ⟨hcrashed, hwake⟩

theorem Supplied.step {s s' : ActiveRunnable δ ρ} {a : Action δ ρ} (h : s.Supplied)
    (hok : s.NoSpurious a) (hstep : Step s a s') : s'.Supplied := by
  cases hstep with
  | run hw => exact ⟨h.1, trivial⟩
  | notify data hlock =>
      exact supplied_notifyOne h.1 (.inl (List.append_ne_nil_of_right_ne_nil _ (by simp)))
        fun _ => List.append_ne_nil_of_right_ne_nil _ (by simp)
  | stop hlock =>
      refine supplied_notifyOne h.1 (.inr rfl) fun hw => ?_
      change s.worker = .taking at hw
      simp [locked, hw] at hlock
  | enter hw | leave hw | lock hw | sleep hw | block hw | «break» hw =>
      exact h.setWorker fun _ => trivial
  | ready hw htasks => exact h.setWorker fun _ => .inl htasks
  | woken hw | relock hw =>
      refine h.setWorker fun hsupplied => ?_
      rw [hw] at hsupplied
      exact hsupplied
  | spurious notified hw => exact absurd rfl hok
  | goOn hw hrunning =>
      refine h.setWorker fun hsupplied => ?_
      rw [hw, hrunning] at hsupplied
      exact hsupplied.resolve_right Bool.noConfusion
  | crash hw htasks =>
      have hsupplied := h.2
      rw [hw] at hsupplied
      exact absurd htasks hsupplied
  | take task rest hw htasks | work task hw | returns task result hw | answer task result hw =>
      exact ⟨h.1, trivial⟩
  | throws task hw => exact h

theorem Reaches.supplied {s : ActiveRunnable δ ρ} (h : (machine δ ρ).Reaches NoSpurious s) :
    s.Supplied :=
  h.invariant ⟨rfl, trivial⟩ fun _ _ _ hs hok hstep => hs.step hok (step_cases hstep).2

/-! ## The way of a task -/

structure InOrder (s : ActiveRunnable δ ρ) : Prop where
  entered : s.entered = s.worked ++ s.worker.inHand ++ s.tasks
  numbered : s.entered.map Task.promise = List.range s.entered.length
  worked : s.worked = s.results.map Prod.fst ++ s.worker.inWork
  answered : s.results.map (fun x => (x.1.promise, x.2)) = s.completed ++ s.worker.inAnswer

theorem inOrder_init : (init : ActiveRunnable δ ρ).InOrder :=
  ⟨rfl, rfl, rfl, rfl⟩

/-- The worker moves on with the same things in its hands. -/
theorem InOrder.setWorker {s : ActiveRunnable δ ρ} (h : s.InOrder) {pc : Worker δ ρ}
    (hhand : pc.inHand = s.worker.inHand) (hwork : pc.inWork = s.worker.inWork)
    (hanswer : pc.inAnswer = s.worker.inAnswer) : (s.setWorker pc).InOrder :=
  ⟨hhand ▸ h.entered, h.numbered, hwork ▸ h.worked, hanswer ▸ h.answered⟩

theorem InOrder.notifyOne {s : ActiveRunnable δ ρ} (h : s.InOrder) : s.notifyOne.InOrder := by
  rcases notifyOne_cases s with ⟨heq, -⟩ | ⟨notified, hw, heq⟩
  · rw [heq]
    exact h
  · rw [heq]
    exact h.setWorker (by simp [hw, Worker.inHand]) (by simp [hw, Worker.inWork])
      (by simp [hw, Worker.inAnswer])

theorem InOrder.notify {s : ActiveRunnable δ ρ} (h : s.InOrder) (data : δ) :
    (s.notify data).InOrder := by
  apply InOrder.notifyOne
  refine ⟨?_, ?_, h.worked, h.answered⟩
  · change s.entered ++ [_] = s.worked ++ s.worker.inHand ++ (s.tasks ++ [_])
    rw [← List.append_assoc, ← h.entered]
  · change (s.entered ++ [_]).map Task.promise = List.range (s.entered ++ [_]).length
    simp [h.numbered, List.range_succ]

theorem InOrder.take {s : ActiveRunnable δ ρ} (h : s.InOrder) {task : Task δ}
    {rest : List (Task δ)} (hw : s.worker = .taking) (htasks : s.tasks = task :: rest) :
    ({ s with tasks := rest }.setWorker (.holding task)).InOrder := by
  refine ⟨?_, h.numbered, ?_, ?_⟩
  · have hentered := h.entered
    rw [hw, htasks] at hentered
    simpa [ActiveRunnable.setWorker, Worker.inHand] using hentered
  · simpa [hw, ActiveRunnable.setWorker, Worker.inWork] using h.worked
  · simpa [hw, ActiveRunnable.setWorker, Worker.inAnswer] using h.answered

theorem InOrder.work {s : ActiveRunnable δ ρ} (h : s.InOrder) {task : Task δ}
    (hw : s.worker = .holding task) :
    ({ s with worked := s.worked ++ [task] }.setWorker (.working task)).InOrder := by
  refine ⟨?_, h.numbered, ?_, ?_⟩
  · simpa [hw, ActiveRunnable.setWorker, Worker.inHand] using h.entered
  · have hworked := h.worked
    simp only [hw, Worker.inWork, List.append_nil] at hworked
    simp [ActiveRunnable.setWorker, Worker.inWork, hworked]
  · simpa [hw, ActiveRunnable.setWorker, Worker.inAnswer] using h.answered

theorem InOrder.returns {s : ActiveRunnable δ ρ} (h : s.InOrder) {task : Task δ} (result : ρ)
    (hw : s.worker = .working task) :
    ({ s with results := s.results ++ [(task, result)] }.setWorker
      (.answering task result)).InOrder := by
  refine ⟨?_, h.numbered, ?_, ?_⟩
  · simpa [hw, ActiveRunnable.setWorker, Worker.inHand] using h.entered
  · simpa [hw, ActiveRunnable.setWorker, Worker.inWork] using h.worked
  · have hanswered := h.answered
    simp only [hw, Worker.inAnswer, List.append_nil] at hanswered
    simp [ActiveRunnable.setWorker, Worker.inAnswer, hanswered]

theorem InOrder.answer {s : ActiveRunnable δ ρ} (h : s.InOrder) {task : Task δ} {result : ρ}
    (hw : s.worker = .answering task result) :
    ({ s with completed := s.completed ++ [(task.promise, result)] }.setWorker
      .loopTest).InOrder := by
  refine ⟨?_, h.numbered, ?_, ?_⟩
  · simpa [hw, ActiveRunnable.setWorker, Worker.inHand] using h.entered
  · simpa [hw, ActiveRunnable.setWorker, Worker.inWork] using h.worked
  · simpa [hw, ActiveRunnable.setWorker, Worker.inAnswer] using h.answered

theorem InOrder.step {s s' : ActiveRunnable δ ρ} {a : Action δ ρ} (h : s.InOrder)
    (hstep : Step s a s') : s'.InOrder := by
  cases hstep with
  | run hw =>
      exact InOrder.setWorker (s := { s with running := true, stopped := false })
        ⟨h.entered, h.numbered, h.worked, h.answered⟩ (by simp [hw, Worker.inHand])
        (by simp [hw, Worker.inWork]) (by simp [hw, Worker.inAnswer])
  | notify data hlock => exact h.notify data
  | stop hlock =>
      exact InOrder.notifyOne (s := { s with running := false, stopped := true })
        ⟨h.entered, h.numbered, h.worked, h.answered⟩
  | enter hw | leave hw | lock hw | sleep hw | ready hw | block hw | woken hw | spurious _ hw
  | relock hw | goOn hw | «break» hw =>
      exact h.setWorker (by simp [hw, Worker.inHand]) (by simp [hw, Worker.inWork])
        (by simp [hw, Worker.inAnswer])
  | crash hw htasks => exact ⟨h.entered, h.numbered, h.worked, h.answered⟩
  | take task rest hw htasks => exact h.take hw htasks
  | work task hw => exact h.work hw
  | returns task result hw => exact h.returns result hw
  | throws task hw => exact ⟨h.entered, h.numbered, h.worked, h.answered⟩
  | answer task result hw => exact h.answer hw

/-- This holds however the worker is woken, up to a read from an empty list. -/
theorem Reachable.inOrder {s : ActiveRunnable δ ρ} (h : (machine δ ρ).Reachable s) : s.InOrder :=
  h.invariant inOrder_init fun _ _ _ hs _ hstep => hs.step (step_cases hstep).2

/-! ## What callers can rely on -/

theorem getElem?_of_prefix {α : Type*} {xs ys : List α} (h : xs <+: ys) {i : ℕ} {x : α}
    (hx : xs[i]? = some x) : ys[i]? = some x := by
  obtain ⟨hi, rfl⟩ := List.getElem?_eq_some_iff.mp hx
  exact List.prefix_iff_getElem?.mp h i hi

theorem InOrder.worked_prefix {s : ActiveRunnable δ ρ} (h : s.InOrder) :
    s.worked <+: s.entered := by
  rw [h.entered, List.append_assoc]
  exact List.prefix_append _ _

theorem InOrder.results_prefix {s : ActiveRunnable δ ρ} (h : s.InOrder) :
    s.results.map Prod.fst <+: s.worked := by
  rw [h.worked]
  exact List.prefix_append _ _

/-- Promises are completed one after the other, in the order of their numbers. -/
theorem InOrder.completed_prefix {s : ActiveRunnable δ ρ} (h : s.InOrder) :
    s.completed <+: s.results.map fun x => (x.1.promise, x.2) := by
  rw [h.answered]
  exact List.prefix_append _ _

theorem InOrder.promise {s : ActiveRunnable δ ρ} (h : s.InOrder) {i : ℕ} {task : Task δ}
    (htask : s.entered[i]? = some task) : task.promise = i := by
  have hnumbered := congrArg (·[i]?) h.numbered
  simp only [List.getElem?_map, htask, Option.map_some] at hnumbered
  obtain ⟨_, heq⟩ := List.getElem?_eq_some_iff.mp hnumbered.symm
  simpa using heq.symm

theorem InOrder.nodup_completed {s : ActiveRunnable δ ρ} (h : s.InOrder) :
    (s.completed.map Prod.fst).Nodup := by
  have hpromises : s.completed.map Prod.fst <+: s.results.map fun x => x.1.promise := by
    simpa [Function.comp_def] using h.completed_prefix.map Prod.fst
  have hresults : s.results.map (fun x => x.1.promise) <+: s.entered.map Task.promise := by
    simpa [Function.comp_def] using
      (h.results_prefix.trans h.worked_prefix).map Task.promise
  rw [h.numbered] at hresults
  exact (hpromises.trans hresults).sublist.nodup List.nodup_range

/-- A promise is completed with what `__work` returned for the data of its own task. -/
theorem InOrder.own_result {s : ActiveRunnable δ ρ} (h : s.InOrder) {p : ℕ} {r : ρ}
    (hmem : (p, r) ∈ s.completed) :
    ∃ task, s.entered[p]? = some task ∧ s.results[p]? = some (task, r) := by
  obtain ⟨i, hi⟩ := List.mem_iff_getElem?.mp hmem
  have hresult := getElem?_of_prefix h.completed_prefix hi
  rw [List.getElem?_map, Option.map_eq_some_iff] at hresult
  obtain ⟨⟨task, result⟩, hresult, heq⟩ := hresult
  cases heq
  have hentered : s.entered[i]? = some task := by
    apply getElem?_of_prefix (h.results_prefix.trans h.worked_prefix)
    simp [hresult]
  cases h.promise hentered
  exact ⟨task, hentered, hresult⟩

/-- Notifications are worked off in order, each once, and answered with their own results. -/
theorem worked_off_in_order {s : ActiveRunnable δ ρ} (h : (machine δ ρ).Reaches NoSpurious s) :
    s.crashed = false ∧
    s.worked.map Task.data <+: s.entered.map Task.data ∧
    s.results.map Prod.fst <+: s.worked ∧
    (s.completed.map Prod.fst).Nodup ∧
    ∀ p r, (p, r) ∈ s.completed →
      ∃ task, s.entered[p]? = some task ∧ s.results[p]? = some (task, r) := by
  have hsupplied := Reaches.supplied h
  have horder := Reachable.inOrder (h.mono fun _ _ _ => trivial)
  exact ⟨hsupplied.1, horder.worked_prefix.map _, horder.results_prefix, horder.nodup_completed,
    fun _ _ hmem => horder.own_result hmem⟩

/-- One notification before `run` and one while the worker works on it. -/
theorem worked_off_two :
    ∃ s : ActiveRunnable ℕ ℕ, (machine ℕ ℕ).run init
        [.notify 5, .run, .worker, .worker, .worker, .worker, .worker, .worker, .notify 7,
          .returns 50, .worker, .worker, .worker, .worker, .worker, .worker, .worker,
          .returns 70, .worker] = some s ∧
      s.entered = [⟨5, 0⟩, ⟨7, 1⟩] ∧ s.completed = [(0, 50), (1, 70)] ∧
      s.worked.map Task.data <+: s.entered.map Task.data := by
  have hmeets : (machine ℕ ℕ).Meets NoSpurious init
      [.notify 5, .run, .worker, .worker, .worker, .worker, .worker, .worker, .notify 7,
        .returns 50, .worker, .worker, .worker, .worker, .worker, .worker, .worker,
        .returns 70, .worker] := by
    simp [Machine.Meets, NoSpurious]
  refine ⟨_, rfl, rfl, rfl, ?_⟩
  exact (worked_off_in_order (Machine.Reaches.init.run_of_meets hmeets rfl)).2.1

end ActiveRunnable

end CommonLib.Runnable
