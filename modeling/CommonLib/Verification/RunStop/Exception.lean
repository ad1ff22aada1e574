import CommonLib.Verification.RunStop.StopSticks
import CommonLib.Verification.Thread.Phases

/-! # Exceptions of the work

Neither the loop of `run` nor the lambda of `ThreadDetail::start` catches anything, so an exception of
the work leaves the thread's function, and the process is terminated. -/

namespace CommonLib

namespace RunStop.Runnable

variable {ι : Type*} [DecidableEq ι] {kind : Kind} {s : Runnable ι} {k n : ℕ}

/-- `__work` of the worker has returned `n` times and has thrown then. -/
def Thrown (kind : Kind) (s : Runnable ι) (k n : ℕ) : Prop :=
  ∃ before w, (machine ι kind).Reachable before ∧ before.workers[k]? = some w ∧ w.works = n + 1 ∧
    before.step kind (.throws k) = some s

/-- The process lives, the future of the worker is ready, and `status()` of its thread is false. -/
structure Delivered (s : Runnable ι) (k : ℕ) : Prop where
  lives : s.terminated = false
  ready : ∃ w p, s.workers[k]? = some w ∧ (s.details w.detail).promise = some p ∧
    p ∈ s.completed
  status : ∀ w, s.workers[k]? = some w → (s.details w.detail).started = false

theorem Thrown.terminated (h : s.Thrown kind k n) : s.terminated = true := by
  obtain ⟨before, w, -, -, -, hstep⟩ := h
  obtain ⟨-, hthrows⟩ := step_cases hstep
  cases hthrows
  rfl

theorem step_of_terminated (h : s.terminated = true) (a : Action ι) : s.step kind a = none := by
  simp [Runnable.step, h]

theorem Thrown.not_delivered (h : s.Thrown kind k n) :
    ¬ (machine ι kind).Leads (fun t => t.Delivered k) s := by
  intro hleads
  have hdelivered := hleads.of_stuck (step_of_terminated h.terminated)
  cases hdelivered.lives.symm.trans h.terminated

/-- The loop comes round any number of times. -/
theorem GoesOn.leads_works {w : Worker} (h : s.GoesOn k w) (hp : w.place.inLoop = true) (n : ℕ) :
    (machine ι kind).Leads (fun t => ∃ v, t.GoesOn k v ∧ v.place = .working ∧
      v.works = w.works + n + 1) s := by
  induction n with
  | zero =>
      exact (h.leads_work hp).imp fun t ht => ⟨w.work, ht, rfl, rfl⟩
  | succ n ih =>
      refine ih.trans fun t ⟨v, ht, hplace, hworks⟩ => ?_
      have hloop : v.place.inLoop = true := by rw [hplace]; rfl
      exact (ht.leads_work hloop).imp fun u hu => ⟨v.work, hu, rfl, congrArg (· + 1) hworks⟩

/-- For each `n` there is a run with one call in which `__work` throws after `n` returns. -/
theorem exists_thrown (kind : Kind) (n : ℕ) : ∃ s : Runnable Unit, s.Thrown kind 0 n := by
  have hany : (((machine Unit kind).run init
      (List.replicate 9 (.call ()) ++ List.replicate 5 (.worker 0) ++ [.call ()])).any fun s =>
        decide (s.crashed = false ∧ s.terminated = false ∧ s.running = true ∧
          s.workers = [⟨.loopTest, 0, 0, none⟩])) = true := by
    cases kind <;> decide +kernel
  obtain ⟨start, hrun, h⟩ := (Option.any_eq_true _ _).mp hany
  obtain ⟨hcrashed, hterminated, hrunning, hworkers⟩ := of_decide_eq_true h
  have hgoes : start.GoesOn 0 ⟨.loopTest, 0, 0, none⟩ :=
    ⟨hcrashed, hterminated, hrunning, by rw [hworkers]; rfl⟩
  have hleads : (machine Unit kind).Leads (fun t => ∃ v, t.GoesOn 0 v ∧ v.place = .working ∧
      v.works = 0 + n + 1) start := hgoes.leads_works rfl n
  obtain ⟨actions, before, hturns, w, hbefore, hplace, hworks⟩ := hleads
  refine ⟨{ before with terminated := true }, before, w, ?_, hbefore.worker, ?_, ?_⟩
  · exact (Machine.reachable_of_run hrun).run hturns
  · simpa using hworks
  · simp [Runnable.step, hbefore.crashed, hbefore.terminated, hbefore.worker, hplace]

end RunStop.Runnable

namespace Thread.ThreadDetail

/-- The function of a start has thrown. -/
def Thrown (s : ThreadDetail) (k : ℕ) : Prop :=
  ∃ before, machine.Reachable before ∧ before.step (.throws k) = some s

/-- The process lives, the future of the start is ready, and `status()` is false. -/
structure Delivered (s : ThreadDetail) (k : ℕ) : Prop where
  lives : s.terminated = false
  ready : k ∈ s.completed ∨ k ∈ s.abandoned
  status : s.started = false

variable {s : ThreadDetail} {k : ℕ}

/-- `_started` stays up as well. -/
theorem Thrown.terminated (h : s.Thrown k) : s.terminated = true ∧ s.started = true := by
  obtain ⟨before, hbefore, hstep⟩ := h
  obtain ⟨-, hthrows⟩ := step_cases hstep
  cases hthrows with
  | throws _ hworking => exact ⟨rfl, (Reachable.ordered hbefore).flag k _ hworking rfl⟩

theorem step_of_terminated (h : s.terminated = true) (a : Action) : s.step a = none := by
  simp [ThreadDetail.step, h]

theorem Thrown.not_delivered (h : s.Thrown k) :
    ¬ machine.Leads (fun t => t.Delivered k) s := by
  intro hleads
  have hdelivered := hleads.of_stuck (step_of_terminated h.terminated.1)
  cases hdelivered.status.symm.trans h.terminated.2

theorem exists_thrown : ∃ s : ThreadDetail, s.Thrown 0 := by
  have hany : ((machine.run init ([.start] ++ List.replicate 4 .caller ++
      List.replicate 5 (.thread 0))).any fun s => (s.step (.throws 0)).isSome) = true := by
    decide +kernel
  obtain ⟨before, hrun, hsome⟩ := (Option.any_eq_true _ _).mp hany
  obtain ⟨s, hstep⟩ := Option.isSome_iff_exists.mp hsome
  exact ⟨s, before, Machine.reachable_of_run hrun, hstep⟩

end Thread.ThreadDetail

/-! ## No exception arrives -/

open RunStop

/-- Whether `__work` throws in its first call or after any number of returns, and whenever a function
given to `start` throws, no run goes on to a state in which the exception has been delivered. -/
theorem exception_never_delivered (ι : Type*) [DecidableEq ι] (n : ℕ) :
    ((∃ s : Runnable Unit, s.Thrown .runnable 0 n) ∧
      ∀ (s : Runnable ι) (k : ℕ), s.Thrown .runnable k n →
        ¬ (Runnable.machine ι .runnable).Leads (fun t => t.Delivered k) s) ∧
    ((∃ s : Thread.ThreadDetail, s.Thrown 0) ∧
      ∀ (s : Thread.ThreadDetail) (k : ℕ), s.Thrown k →
        ¬ Thread.ThreadDetail.machine.Leads (fun t => t.Delivered k) s) :=
  ⟨⟨Runnable.exists_thrown .runnable n, fun _ _ h => h.not_delivered⟩,
    Thread.ThreadDetail.exists_thrown, fun _ _ h => h.not_delivered⟩

theorem exception_after_two_returns :
    ∃ s : Runnable Unit, s.Thrown .runnable 0 2 ∧
      ¬ (Runnable.machine Unit .runnable).Leads (fun t => t.Delivered 0) s := by
  obtain ⟨⟨⟨s, hthrown⟩, hnever⟩, -⟩ := exception_never_delivered Unit 2
  exact ⟨s, hthrown, hnever s 0 hthrown⟩

/-- The very first `__work` throws: the process ends, with the future not ready and `status()`
true. -/
theorem exception_terminates :
    ∃ s : Runnable Unit, s.Thrown .runnable 0 0 ∧ s.terminated = true ∧ s.completed = [] ∧
      (s.details 0).started = true ∧
      ¬ (Runnable.machine Unit .runnable).Leads (fun t => t.Delivered 0) s := by
  have hany : (((Runnable.machine Unit .runnable).run Runnable.init
      (List.replicate 9 (.call ()) ++ List.replicate 5 (.worker 0) ++
        [.call (), .worker 0, .worker 0])).any fun s =>
        decide (s.crashed = false ∧ s.terminated = false ∧ s.completed = [] ∧
          (s.details 0).started = true ∧ s.workers = [⟨.working, 0, 1, none⟩])) = true := by
    decide +kernel
  obtain ⟨before, hrun, h⟩ := (Option.any_eq_true _ _).mp hany
  obtain ⟨hcrashed, hterminated, hcompleted, hstarted, hworkers⟩ := of_decide_eq_true h
  have hthrown : ({ before with terminated := true } : Runnable Unit).Thrown .runnable 0 0 := by
    refine ⟨before, ⟨.working, 0, 1, none⟩, Machine.reachable_of_run hrun, ?_, rfl, ?_⟩
    · simp [hworkers]
    · simp [Runnable.step, hcrashed, hterminated, hworkers]
  exact ⟨_, hthrown, rfl, hcompleted, hstarted, hthrown.not_delivered⟩

end CommonLib
