import CommonLib.Model.Runnable

/-! Computation rules of the notified worker, and its steps as local rules. -/

namespace CommonLib.Runnable

namespace ActiveRunnable

variable {δ ρ : Type*}

/-- A notification wakes a blocked worker, and is lost otherwise. -/
theorem notifyOne_cases (s : ActiveRunnable δ ρ) :
    (s.notifyOne = s ∧ ∀ notified, s.worker ≠ .blocked notified) ∨
      ∃ notified, s.worker = .blocked notified ∧ s.notifyOne = s.setWorker (.blocked true) := by
  unfold notifyOne
  split
  · exact .inr ⟨_, ‹_›, rfl⟩
  · exact .inl ⟨rfl, ‹_›⟩

/-- Nothing but the worker's place is touched. -/
theorem notifyOne_eq (s : ActiveRunnable δ ρ) : s.notifyOne = s.setWorker s.notifyOne.worker := by
  rcases notifyOne_cases s with ⟨heq, -⟩ | ⟨notified, -, heq⟩
  · rw [heq]
    rfl
  · rw [heq]
    rfl

/-- The rules by which callers and worker move, one for each branch of the code. -/
inductive Step (s : ActiveRunnable δ ρ) : Action δ ρ → ActiveRunnable δ ρ → Prop
  | run (hw : s.worker = .none) : Step s .run s.run
  | notify (data) (hlock : s.locked = false) : Step s (.notify data) (s.notify data)
  | stop (hlock : s.locked = false) : Step s .stop s.stop
  | enter (hw : s.worker = .loopTest) (hrunning : s.running = true) :
      Step s .worker (s.setWorker .locking)
  | leave (hw : s.worker = .loopTest) (hrunning : s.running = false) :
      Step s .worker (s.setWorker .exited)
  | lock (hw : s.worker = .locking) : Step s .worker (s.setWorker .emptyTest)
  | sleep (hw : s.worker = .emptyTest) (htasks : s.tasks = []) :
      Step s .worker (s.setWorker .waiting)
  | ready (hw : s.worker = .emptyTest) (htasks : s.tasks ≠ []) :
      Step s .worker (s.setWorker .runTest)
  | block (hw : s.worker = .waiting) : Step s .worker (s.setWorker (.blocked false))
  | woken (hw : s.worker = .blocked true) : Step s .worker (s.setWorker .relocking)
  | spurious (notified) (hw : s.worker = .blocked notified) :
      Step s .spurious (s.setWorker .relocking)
  | relock (hw : s.worker = .relocking) : Step s .worker (s.setWorker .runTest)
  | goOn (hw : s.worker = .runTest) (hrunning : s.running = true) :
      Step s .worker (s.setWorker .taking)
  | break (hw : s.worker = .runTest) (hrunning : s.running = false) :
      Step s .worker (s.setWorker .exited)
  | crash (hw : s.worker = .taking) (htasks : s.tasks = []) :
      Step s .worker { s with crashed := true }
  | take (task rest) (hw : s.worker = .taking) (htasks : s.tasks = task :: rest) :
      Step s .worker ({ s with tasks := rest }.setWorker (.holding task))
  | work (task) (hw : s.worker = .holding task) :
      Step s .worker ({ s with worked := s.worked ++ [task] }.setWorker (.working task))
  | returns (task result) (hw : s.worker = .working task) :
      Step s (.returns result)
        ({ s with results := s.results ++ [(task, result)] }.setWorker (.answering task result))
  | throws (task) (hw : s.worker = .working task) : Step s .throws { s with terminated := true }
  | answer (task result) (hw : s.worker = .answering task result) :
      Step s .worker
        ({ s with completed := s.completed ++ [(task.promise, result)] }.setWorker .loopTest)

theorem Step.of_stepWorker {s s' : ActiveRunnable δ ρ} (h : s.stepWorker = some s') :
    Step s .worker s' := by
  unfold stepWorker at h
  split at h
  · rename_i hw
    cases h
    cases hrunning : s.running with
    | true => exact .enter hw hrunning
    | false => exact .leave hw hrunning
  · cases h
    exact .lock ‹_›
  · rename_i hw
    cases h
    by_cases htasks : s.tasks = []
    · simpa [htasks] using Step.sleep hw htasks
    · simpa [htasks] using Step.ready hw htasks
  · cases h
    exact .block ‹_›
  · cases h
    exact .woken ‹_›
  · cases h
    exact .relock ‹_›
  · rename_i hw
    cases h
    cases hrunning : s.running with
    | true => exact .goOn hw hrunning
    | false => exact .break hw hrunning
  · rename_i hw
    split at h <;> cases h
    · exact .crash hw ‹_›
    · exact .take _ _ hw ‹_›
  · cases h
    exact .work _ ‹_›
  · cases h
    exact .answer _ _ ‹_›
  all_goals cases h

/-- Every enabled action moves callers and worker by one of the rules. -/
theorem step_cases {s s' : ActiveRunnable δ ρ} {a : Action δ ρ} (h : s.step a = some s') :
    (s.crashed = false ∧ s.terminated = false) ∧ Step s a s' := by
  unfold step at h
  split at h
  · cases h
  · rename_i hlive
    refine ⟨by simpa using hlive, ?_⟩
    cases a with
    | run =>
        simp only at h
        split at h <;> cases h
        exact .run ‹_›
    | notify data =>
        simp only at h
        split at h <;> cases h
        exact .notify data (Bool.eq_false_iff.mpr ‹_›)
    | stop =>
        simp only at h
        split at h <;> cases h
        exact .stop (Bool.eq_false_iff.mpr ‹_›)
    | worker => exact .of_stepWorker h
    | returns result =>
        simp only at h
        split at h <;> cases h
        exact .returns _ result ‹_›
    | throws =>
        simp only at h
        split at h <;> cases h
        exact .throws _ ‹_›
    | spurious =>
        simp only at h
        split at h <;> cases h
        exact .spurious _ ‹_›

end ActiveRunnable

end CommonLib.Runnable
