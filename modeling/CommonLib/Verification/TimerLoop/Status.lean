import CommonLib.Verification.TimerLoop.Equations

/-! # What the status of a timer says

Only `stop` lowers the flag. A loop that ends because the function returned false leaves it up, and
the timer answers as if it were running. -/

namespace CommonLib.TimerLoop

/-- How many futures the thread still owes. -/
def Worker.owed : Worker → ℕ
  | checking _ | blocked _ | testing | entering | calling | leaving => 1
  | none | unregistering | complete => 0

/-- How many futures the thread owes that a call of `start` is about to make. -/
def Starter.owed : Starter → ℕ
  | creating => 1
  | idle | storing | assigning => 0

namespace TimerDetail

/-- Once the future of the last start is ready, the timer is not running and can be started. -/
def Truthful (s : TimerDetail) : Prop :=
  0 < s.starts → s.fulfilled = s.starts → s.status = false ∧ ∃ s', s.start = .ok s'

/-- The promise of the last start is set behind a `stop` that came since. -/
def AnswersStopped (s : TimerDetail) (a : Action) : Prop :=
  a = .worker → s.worker = .leaving → s.starter ≠ .creating → s.running = false

/-- `start` throws exactly where the status is true. -/
theorem start_ok_iff (s : TimerDetail) : (∃ s', s.start = .ok s') ↔ s.status = false := by
  cases hrunning : s.running <;> simp [start, status, hrunning]

theorem truthful_iff (s : TimerDetail) :
    s.Truthful ↔ (0 < s.starts → s.fulfilled = s.starts → s.running = false) := by
  simp only [Truthful, start_ok_iff, status, and_self]

/-- Every start has its future, which is ready or owed. -/
def Counted (s : TimerDetail) : Prop :=
  s.fulfilled + s.worker.owed + s.starter.owed = s.starts

theorem counted_init : init.Counted :=
  rfl

theorem Counted.step {s s' : TimerDetail} {a : Action} (h : s.Counted) (hstep : Step s a s') :
    s'.Counted := by
  cases hstep with
  | create hs hw =>
      rcases hw with hw | hw <;>
      · simp only [Counted, hs, hw, Worker.owed, Starter.owed] at h ⊢
        exact h
  | store hs =>
      simp only [Counted, hs, Starter.owed] at h ⊢
      omega
  | start hs | assign hs =>
      simp only [Counted, hs, Starter.owed] at h ⊢
      exact h
  | startThrows | stop => exact h
  | fulfil hw =>
      simp only [Counted, setWorker, hw, Worker.owed] at h ⊢
      omega
  | block first hw | released first hw | timeout first hw | wake first hw | enter hw | leave hw
  | call hw | again hw | «break» hw | finish hw =>
      simp only [Counted, setWorker, hw, Worker.owed] at h ⊢
      exact h

theorem Reachable.counted {s : TimerDetail} (h : machine.Reachable s) : s.Counted :=
  h.invariant counted_init fun _ _ _ hs _ hstep => hs.step (step_cases hstep)

/-- One step sets the promise of the last start with the flag up exactly if it breaks the
condition. -/
theorem Counted.truthful_step_iff {s s' : TimerDetail} {a : Action} (h : s.Counted)
    (hs : s.Truthful) (hstep : Step s a s') : s'.Truthful ↔ s.AnswersStopped a := by
  rw [truthful_iff] at hs ⊢
  have hother : ∀ {a}, (a = .worker → s.worker ≠ .leaving) → s.AnswersStopped a :=
    fun hne ha hw => absurd hw (hne ha)
  cases hstep with
  | start _ hrunning => exact iff_of_true (fun _ _ => hrunning) (hother (by simp))
  | startThrows => exact iff_of_true hs (hother (by simp))
  | store hstarter =>
      refine iff_of_true (fun _ hready => ?_) (hother (by simp))
      simp only [Counted, hstarter, Starter.owed] at h hready
      omega
  | create | assign => exact iff_of_true hs (hother (by simp))
  | stop => exact iff_of_true (fun _ _ => rfl) (hother (by simp))
  | fulfil hw =>
      simp only [Counted, hw, Worker.owed] at h
      cases hstarter : s.starter with
      | creating =>
          simp only [hstarter, Starter.owed] at h
          refine iff_of_true (fun _ hready => ?_) (fun _ _ hne => absurd hstarter hne)
          simp only [setWorker] at hready
          omega
      | idle | storing | assigning =>
          simp only [hstarter, Starter.owed] at h
          simp only [setWorker, AnswersStopped, hw, hstarter, ne_eq, reduceCtorEq,
            not_false_eq_true, forall_const]
          exact ⟨fun htruth => htruth (by omega) (by omega), fun hrunning _ _ => hrunning⟩
  | block first hw | released first hw | timeout first hw | wake first hw | enter hw | leave hw
  | call hw | again hw | «break» hw | finish hw =>
      exact iff_of_true hs (hother (by simp [hw]))

/-- In a run the status is truthful, if and only if every promise of a last start is set behind
a `stop`. -/
theorem truthful_iff_answersStopped (actions : List Action) :
    machine.Holds Truthful init actions ↔ machine.Meets AnswersStopped init actions :=
  Machine.holds_iff_meets (I := Counted) (fun _ _ _ hs hstep => hs.step (step_cases hstep))
    (fun _ _ _ hI hs hstep => hI.truthful_step_iff hs (step_cases hstep)) counted_init
    (fun hstarts => absurd hstarts (Nat.lt_irrefl 0)) actions

/-- The function returns false at its first call. -/
theorem status_up_behind_false :
    ∃ s, machine.run init [.start, .starter, .starter, .starter, .worker, .timeout, .worker,
        .worker, .returns false, .worker, .worker] = some s ∧
      s.fulfilled = s.starts ∧ s.worker = .complete ∧ s.status = true ∧
      s.start = .error .alreadyRunning ∧ ¬ s.Truthful := by
  refine ⟨_, rfl, rfl, rfl, rfl, rfl, fun h => ?_⟩
  exact absurd (h Nat.one_pos rfl).1 Bool.noConfusion

end TimerDetail

end CommonLib.TimerLoop
