import CommonLib.Verification.TaskExecutor.Equations

/-! # Stopping wakes the workers

`stop` clears `_running` and notifies without holding the mutex of the queue. A worker that has
found its predicate false and has not blocked yet hears nothing of either. -/

namespace CommonLib.TaskExecutor

namespace Executor

variable {n : ℕ} {τ : Type*}

/-- `stop` has called `finalize` on the queue. -/
def Finalized (s : Executor n τ) (i : Fin n) : Prop :=
  match s.stop with
  | .idle | .storing => False
  | .finalizing j => i < j
  | .waiting j => i ≤ j
  | .returned => True

/-- The worker is blocked for good, and `stop` waits for it. -/
def Lost (s : Executor n τ) (i : Fin n) : Prop :=
  s.running = false ∧ s.Finalized i ∧ s.worker i = .blocked false

/-- `finalize` on a queue does not fall between the predicate test of its worker and the
moment at which that worker blocks. -/
def InTime (s : Executor n τ) (a : Action n τ) : Prop :=
  ∀ i : Fin n, a = .stop → s.stop = .finalizing i → s.worker i ≠ .popWait

instance [DecidableEq τ] (s : Executor n τ) (a : Action n τ) : Decidable (s.InTime a) :=
  inferInstanceAs (Decidable (∀ i : Fin n, a = .stop → s.stop = .finalizing i → s.worker i ≠ .popWait))

/-! ## The flag -/

/-- `_running` is cleared once, on the way to the first `finalize`. -/
def FlagFollows (s : Executor n τ) : Prop :=
  s.running = true ↔ s.stop = .idle ∨ s.stop = .storing

theorem FlagFollows.cleared {s : Executor n τ} (h : s.FlagFollows)
    (hs : ¬ (s.stop = .idle ∨ s.stop = .storing)) : s.running = false :=
  Bool.eq_false_iff.mpr fun hrunning => hs (h.mp hrunning)

theorem FlagFollows.of_finalized {s : Executor n τ} (h : s.FlagFollows) {i : Fin n}
    (hi : s.Finalized i) : s.running = false := by
  apply h.cleared
  rintro (hs | hs) <;> simp [Finalized, hs] at hi

theorem FlagFollows.step [DecidableEq τ] {s s' : Executor n τ} {a : Action n τ} (h : s.FlagFollows)
    (hstep : Step s a s') : s'.FlagFollows := by
  cases hstep with
  | notifyOne task queue hl => simpa [FlagFollows, setLoad] using h
  | stopCalled hs =>
      have hrunning : s.running = true := h.mpr (.inl hs)
      simp [FlagFollows, hrunning]
  | store hs => simp [FlagFollows]
  | finalize i hs | joined i hs | stopped i hs =>
      have hrunning : s.running = false := h.cleared (by simp [hs])
      simp [FlagFollows, hrunning]
  | _ => exact h

/-! ## The workers -/

/-- Behind the `finalize` of its queue a worker is not about to block and not left blocked. -/
structure Woken (s : Executor n τ) : Prop where
  flag : s.FlagFollows
  awake : ∀ i, s.Finalized i → s.worker i ≠ .popWait ∧ s.worker i ≠ .blocked false

theorem woken_init : (init : Executor n τ).Woken :=
  ⟨by simp [FlagFollows, init], fun i hi => by simp [Finalized, init] at hi⟩

/-- A worker moves to a place where it neither is about to block nor blocks. -/
theorem Woken.setWorker {s : Executor n τ} (h : s.Woken) {i : Fin n} {pc : Worker τ}
    (hpc : s.Finalized i → pc ≠ .popWait ∧ pc ≠ .blocked false) : (s.setWorker i pc).Woken := by
  refine ⟨h.flag, fun j hj => ?_⟩
  by_cases hji : j = i
  · subst hji
    rw [setWorker_self]
    exact hpc hj
  · rw [setWorker_of_ne s pc hji]
    exact h.awake j hj

theorem Woken.notify {s : Executor n τ} (h : s.Woken) (i : Fin n) : (s.notify i).Woken :=
  notify_of h fun _ _ => h.setWorker (by simp)

/-- The notification of a worker that is not about to block leaves it awake. -/
theorem awake_notify {s : Executor n τ} {i : Fin n} (hi : s.worker i ≠ .popWait) :
    (s.notify i).worker i ≠ .popWait ∧ (s.notify i).worker i ≠ .blocked false := by
  refine ⟨?_, notify_self s i⟩
  exact notify_of (P := fun t => t.worker i ≠ .popWait) hi fun _ _ => by simp

variable [DecidableEq τ]

theorem Woken.step {s s' : Executor n τ} {a : Action n τ} (h : s.Woken) (hok : s.InTime a)
    (hstep : Step s a s') : s'.Woken := by
  have hflag := h.flag.step hstep
  cases hstep with
  | enter i hw | leave i hw | lock i hw | ready i hw | woken i hw | spurious i notified hw
  | popEmpty i hw | search i hw | again i hw | attempt i k hw | giveUp i k hw
  | tryLockFails i k hw | stealEmpty i k hw => exact h.setWorker (by simp)
  | sleep i hw htasks hrunning =>
      refine h.setWorker fun hi => ?_
      rw [h.flag.of_finalized hi] at hrunning
      cases hrunning
  | block i hw => exact h.setWorker fun hi => absurd hw (h.awake i hi).1
  | pop i task rest hw htasks =>
      exact Woken.setWorker (s := s.setTasks i rest) ⟨h.flag, h.awake⟩ (by simp)
  | steal i k task rest hw hlock htasks =>
      exact Woken.setWorker (s := s.setTasks (target i k) rest) ⟨h.flag, h.awake⟩ (by simp)
  | start i task stolen hw =>
      exact Woken.setWorker (s := { s with started := s.started ++ [task] }) ⟨h.flag, h.awake⟩
        (by simp)
  | finish i task stolen hw =>
      refine Woken.setWorker (s := { s with finished := s.finished ++ [task] }) ⟨h.flag, h.awake⟩ ?_
      cases stolen <;> simp
  | fetchAdd task queue hl hqueue => exact ⟨h.flag, h.awake⟩
  | push task queue hl hlock => exact ⟨h.flag, h.awake⟩
  | notifyOne task queue hl => exact ⟨hflag, (h.notify queue).awake⟩
  | stopCalled hs =>
      refine ⟨hflag, fun i hi => ?_⟩
      have hrunning : s.running = true := h.flag.mpr (.inl hs)
      simp [Finalized, hrunning] at hi
  | store hs => exact ⟨hflag, fun i hi => absurd hi (by simp [Finalized])⟩
  | finalize i hs =>
      refine ⟨hflag, fun j hj => ?_⟩
      change (s.notify i).worker j ≠ .popWait ∧ (s.notify i).worker j ≠ .blocked false
      by_cases hji : j = i
      · subst hji
        exact awake_notify (hok j rfl hs)
      · rw [notify_of_ne s hji]
        apply h.awake j
        simp only [Finalized, hs]
        exact Nat.lt_of_le_of_ne hj fun heq => hji (Fin.ext heq)
  | stopped i hs hi =>
      refine ⟨hflag, fun j _ => h.awake j ?_⟩
      simp only [Finalized, hs]
      exact Nat.lt_of_lt_of_le j.isLt hi
  | joined i hs hw =>
      refine ⟨hflag, fun j hj => h.awake j ?_⟩
      simp only [Finalized, hs]
      exact Nat.lt_succ_iff.mp hj

/-! ## Every run -/

theorem Reaches.woken {s : Executor n τ} (h : (machine n τ).Reaches InTime s) : s.Woken :=
  h.invariant woken_init fun _ _ _ hs hok hstep => hs.step hok (step_cases hstep)

theorem Reachable.flagFollows {s : Executor n τ} (h : (machine n τ).Reachable s) :
    s.FlagFollows :=
  h.invariant (woken_init (n := n) (τ := τ)).flag fun _ _ _ hs _ hstep => hs.step (step_cases hstep)

/-- As long as every `finalize` comes in time, no worker is lost. One that does not come in time
finds its worker about to block, and that worker is lost as soon as it does. -/
theorem not_lost_of_inTime :
    (∀ s : Executor n τ, (machine n τ).Reaches InTime s → ∀ i, ¬ s.Lost i) ∧
    ∀ (s : Executor n τ) (a : Action n τ) (s' : Executor n τ), (machine n τ).Reachable s →
      s.step a = some s' → ¬ s.InTime a →
        ∃ i s'', s'.step (.worker i) = some s'' ∧ s''.Lost i := by
  constructor
  · rintro s hs i ⟨-, hfinalized, hblocked⟩
    exact ((Reaches.woken hs).awake i hfinalized).2 hblocked
  · intro s a s' hs hstep hok
    simp only [InTime, not_forall, not_not] at hok
    obtain ⟨i, rfl, hstop, hw⟩ := hok
    have hrunning : s.running = false := (Reachable.flagFollows hs).cleared (by simp [hstop])
    have hnotify : s.notify i = s := by
      rcases notify_cases s i with ⟨heq, -⟩ | ⟨notified, hblocked, -⟩
      · exact heq
      · rw [hw] at hblocked
        cases hblocked
    have hs' : s' = { s with stop := .waiting i } := by
      simp only [step, stepStop, hstop, i.isLt, dite_true, Fin.eta, Option.some.injEq] at hstep
      rw [← hstep, hnotify]
    refine ⟨i, s'.setWorker i (.blocked false), ?_, ?_, ?_, setWorker_self _ _ _⟩
    · rw [hs']
      simp [step, stepWorker, hw]
    · rw [hs']
      exact hrunning
    · rw [hs']
      exact Nat.le_refl i

/-- A worker that is blocked when `stop` notifies it. -/
theorem not_lost_one_worker :
    ∃ s : Executor 1 ℕ, (machine 1 ℕ).run init
        [.worker 0, .worker 0, .worker 0, .worker 0, .stop, .stop, .stop] = some s ∧
      s.Finalized 0 ∧ s.worker 0 = .blocked true ∧ ¬ s.Lost 0 := by
  have hmeets : (machine 1 ℕ).Meets InTime init
      [.worker 0, .worker 0, .worker 0, .worker 0, .stop, .stop, .stop] := by decide
  refine ⟨_, rfl, Nat.le_refl 0, rfl, ?_⟩
  exact not_lost_of_inTime.1 _ (Machine.Reaches.init.run_of_meets hmeets rfl) 0

/-- A worker that has seen `_running` set and an empty queue, and blocks after `finalize`. -/
theorem finalize_before_block_loses_worker :
    ∃ s : Executor 1 ℕ, (machine 1 ℕ).run init
        [.worker 0, .worker 0, .worker 0, .stop, .stop, .stop, .worker 0] = some s ∧
      s.Lost 0 ∧ s.step .stop = none ∧ s.step (.worker 0) = none :=
  ⟨_, rfl, ⟨rfl, Nat.le_refl 0, rfl⟩, rfl, rfl⟩

end Executor

end CommonLib.TaskExecutor
