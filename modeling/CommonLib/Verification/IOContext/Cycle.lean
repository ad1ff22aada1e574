import CommonLib.Verification.IOContext.FirstCycle
import CommonLib.Verification.TaskExecutor.Shutdown

/-! # Running the context again

`stop` takes down the work guard and the workers, and `run` builds up neither: it loads its tasks
into an executor that has no workers any more. -/

namespace CommonLib.IOContext

open TaskExecutor List

/-- The executor has been stopped. -/
def Dead (e : Executor executorCount RunTask) : Prop :=
  e.running = false ∧ e.AllExited

variable {e e' : Executor executorCount RunTask}

/-- No call brings a worker back. -/
theorem Dead.step {b : TaskExecutor.Action executorCount RunTask} (h : Dead e)
    (hstep : e.Step b e') : Dead e' := by
  cases hstep with
  | enter i hw | leave i hw | lock i hw | ready i hw | sleep i hw | block i hw | woken i hw
  | spurious i notified hw | popEmpty i hw | pop i task rest hw | start i task stolen hw
  | finish i task stolen hw | search i hw | again i hw | attempt i k hw | giveUp i k hw
  | tryLockFails i k hw | stealEmpty i k hw | steal i k task rest hw => cases (h.2 i).symm.trans hw
  | notifyOne task queue =>
      rw [Executor.notify_of_exited (h.2 queue)]
      exact h
  | finalize i =>
      rw [Executor.notify_of_exited (h.2 i)]
      exact h
  | store => exact ⟨rfl, h.2⟩
  | fetchAdd | push | stopCalled | stopped | joined => exact h

/-- `load` leaves the flag and `stop` alone. -/
theorem sameFlags_of_load {task : RunTask} (hstep : e.Step (.load task) e') :
    e'.running = e.running ∧ e'.stop = e.stop := by
  cases hstep with
  | fetchAdd | push | notifyOne => simp [Executor.setLoad, Executor.setTasks]

theorem reachable_step {b : TaskExecutor.Action executorCount RunTask}
    (he : (Executor.machine executorCount RunTask).Reachable e) (hstep : e.step b = some e') :
    (Executor.machine executorCount RunTask).Reachable e' :=
  Machine.Reaches.step he trivial hstep

theorem dead_of_returned (he : (Executor.machine executorCount RunTask).Reachable e)
    (hstop : e.stop = .returned) : Dead e := by
  have hparted := Executor.Reachable.parted he
  have hexited : e.AllExited := fun i => hparted.joined i (by simp [Executor.Joined, hstop])
  exact ⟨hparted.exited 0 (hexited 0), hexited⟩

namespace Context

/-- The worker is inside a task, or on its way to the one at the front of its queue. -/
def Works (s : Context) (i : Fin executorCount) (task : RunTask) : Prop :=
  (∃ stolen, s.executor.worker i = .holding task stolen ∨ s.executor.worker i = .busy task stolen) ∨
    s.executor.running = true ∧ Collecting (s.executor.worker i) ∧
      ∃ rest, s.executor.tasks i = task :: rest

/-- The context has a work guard and is not stopped, and every worker is alive and in a task of the
last `run`, or on its way there. -/
structure Serving (s : Context) : Prop where
  workGuard : s.workGuard = true
  stopped : s.stopped = false
  live : ∀ i, s.executor.worker i ≠ .exited
  works : ∀ i, ∃ k, s.Works i ⟨s.runs, k⟩

/-! ## The phases of a run -/

/-- What holds up to the first `stop`, with the loop of the first `run` at task `k`. -/
structure Cycling (s : Context) (k : ℕ) : Prop where
  workGuard : s.workGuard = true
  stopped : s.stopped = false
  reachable : (Executor.machine executorCount RunTask).Reachable s.executor
  running : s.executor.running = true
  stop : s.executor.stop = .idle
  placed : AllPlaced 1 s.executor
  loaded : Loaded 1 s.executor k

inductive Phase (s : Context) : Prop
  | fresh (h : s.Cycling 0) (hc : s.caller = .idle ∨ s.caller = .storing)
      (hrunning : s.running = false) (hruns : s.runs = 0) (hcalls : Call.run ∉ s.calls)
  | loading (k : ℕ) (h : s.Cycling k) (hk : k ≤ executorCount) (hc : s.caller = .loading k)
      (hrunning : s.running = true) (hruns : s.runs = 1) (hcalls : Call.run ∉ s.calls)
  | served (h : s.Cycling executorCount) (hc : s.caller = .idle ∨ s.caller = .resetting)
      (hrunning : s.running = true) (hruns : s.runs = 1) (hrun : Call.run ∈ s.calls)
      (hcalls : ¬ [Call.run, Call.stop] <+ s.calls)
  | stopping (hc : s.caller = .stopping ∧ s.executor.stop = .idle ∨ s.caller = .joining)
      (he : (Executor.machine executorCount RunTask).Reachable s.executor)
      (hrun : Call.run ∈ s.calls)
  | dead (h : Dead s.executor) (hrun : Call.run ∈ s.calls)
      (hcalls : s.caller = .restarting ∨ s.caller = .clearing ∨
        [Call.run, Call.stop] <+ s.calls)

theorem phase_init : init.Phase := by
  refine .fresh ⟨rfl, rfl, .init, rfl, rfl, fun i => ?_, ⟨by simp, fun _ _ => rfl, .inl ⟨rfl, rfl⟩⟩⟩
    (.inl rfl) rfl rfl (by simp [init])
  exact .unloaded (.inl rfl) rfl trivial

/-- A worker moves. -/
theorem Cycling.work {s : Context} {k : ℕ} (h : s.Cycling k)
    {b : TaskExecutor.Action executorCount RunTask} (hb : OfWorker b)
    {executor : Executor executorCount RunTask} (hstep : s.executor.step b = some executor)
    (hbusy : ∀ i task stolen, b = .worker i → s.executor.worker i ≠ .busy task stolen) :
    ({ s with executor := executor } : Context).Cycling k := by
  have hrule := Executor.step_cases hstep
  have hsame := sameLoads_of_worker hb hrule
  exact ⟨h.workGuard, h.stopped, reachable_step h.reachable hstep, hsame.running.trans h.running,
    hsame.stop.trans h.stop, h.placed.work h.running hb hrule hbusy, h.loaded.of_same hsame⟩

theorem Cycling.not_open {s : Context} {k : ℕ} (h : s.Cycling k) :
    ¬ (s.stopped = true ∨ s.workGuard = false) := by
  simp [h.workGuard, h.stopped]

theorem sublist_concat {calls : List Call} (h : Call.run ∈ calls) :
    [Call.run, Call.stop] <+ calls ++ [Call.stop] :=
  (List.singleton_sublist.mpr h).append (List.Sublist.refl [Call.stop])

/-- A `stop` comes behind a `run` only when it is the call that returns. -/
theorem sublist_of_concat {calls : List Call} {call : Call}
    (h : [Call.run, Call.stop] <+ calls ++ [call]) :
    [Call.run, Call.stop] <+ calls ∨ call = .stop ∧ Call.run ∈ calls := by
  obtain ⟨front, back, heq, hfront, hback⟩ := List.sublist_append_iff.mp h
  cases front with
  | nil =>
      obtain rfl : [Call.run, Call.stop] = back := heq
      simpa using hback.length_le
  | cons c front =>
      obtain ⟨rfl, hrest⟩ : Call.run = c ∧ [Call.stop] = front ++ back := by simpa using heq
      cases front with
      | nil =>
          obtain rfl : [Call.stop] = back := hrest
          exact .inr ⟨(List.mem_singleton.mp (List.singleton_sublist.mp hback)).symm,
            hfront.subset (by simp)⟩
      | cons d front =>
          obtain ⟨rfl, hnil⟩ : Call.stop = d ∧ [] = front ++ back := by simpa using hrest
          obtain ⟨rfl, rfl⟩ := List.append_eq_nil_iff.mp hnil.symm
          exact .inl hfront

/-- Only the fields of the calling thread change. -/
theorem Cycling.congr {s s' : Context} {k : ℕ} (h : s.Cycling k)
    (hworkGuard : s'.workGuard = s.workGuard) (hstopped : s'.stopped = s.stopped)
    (hexecutor : s'.executor = s.executor) : s'.Cycling k := by
  refine ⟨hworkGuard.trans h.workGuard, hstopped.trans h.stopped, ?_, ?_, ?_, ?_, ?_⟩ <;>
    rw [hexecutor]
  · exact h.reachable
  · exact h.running
  · exact h.stop
  · exact h.placed
  · exact h.loaded

variable {s s' : Context} {a : Action}

/-- Before the first `run` has set the flag. -/
theorem phase_of_fresh (h : s.Cycling 0) (hcaller : s.caller = .idle ∨ s.caller = .storing)
    (hfresh : s.running = false) (hruns : s.runs = 0) (hcalls : Call.run ∉ s.calls)
    (hstep : Step s a s') : s'.Phase := by
  cases hstep with
  | runIgnored hc hrunning | stop hc hrunning => cases hfresh.symm.trans hrunning
  | run => exact .fresh (h.congr rfl rfl rfl) (.inr rfl) hfresh hruns hcalls
  | stopIgnored =>
      exact .fresh (h.congr rfl rfl rfl) (.inl rfl) hfresh hruns
        (by simpa [finish, setCaller] using hcalls)
  | store =>
      exact .loading 0 (h.congr rfl rfl rfl) (Nat.zero_le _) rfl rfl (congrArg (· + 1) hruns) hcalls
  | load i executor hc | loaded i hc | reset hc | stopContext hc | join executor hc | restart hc
  | clear hc => simp [hc] at hcaller
  | work _ b executor hb hexecutor hbusy =>
      exact .fresh (h.work hb hexecutor hbusy) hcaller hfresh hruns hcalls
  | workReturns _ b executor hb hexecutor hopen => exact absurd hopen h.not_open

/-- In the loop of the first `run`. -/
theorem phase_of_loading {k : ℕ} (h : s.Cycling k) (hk : k ≤ executorCount)
    (hcaller : s.caller = .loading k) (hrunning : s.running = true) (hruns : s.runs = 1)
    (hcalls : Call.run ∉ s.calls) (hstep : Step s a s') : s'.Phase := by
  cases hstep with
  | runIgnored hc | run hc | stopIgnored hc | stop hc | store hc | reset hc | stopContext hc
  | join executor hc | restart hc | clear hc => cases hc.symm.trans hcaller
  | load i executor hc hi hexecutor =>
      cases hc.symm.trans hcaller
      rw [hruns] at hexecutor ⊢
      have hreachable := reachable_step h.reachable hexecutor
      have hrule := Executor.step_cases hexecutor
      have hsame : executor.running = true ∧ executor.stop = .idle := by
        rw [← h.running, ← h.stop]
        exact sameFlags_of_load hrule
      obtain ⟨hplaced, hloaded⟩ := Loaded.load (k := ⟨k, hi⟩) h.loaded h.placed hrule
      rcases hloaded with ⟨hreturned, hloaded⟩ | ⟨hnot, hloaded⟩
      · refine .loading (k + 1) ⟨h.workGuard, h.stopped, hreachable, hsame.1, hsame.2, hplaced,
          hloaded⟩ hi ?_ hrunning rfl hcalls
        exact if_pos hreturned
      · refine .loading k ⟨h.workGuard, h.stopped, hreachable, hsame.1, hsame.2, hplaced,
          hloaded⟩ hk ?_ hrunning rfl hcalls
        exact if_neg hnot
  | loaded i hc hi =>
      cases hc.symm.trans hcaller
      obtain rfl : k = executorCount := Nat.le_antisymm hk hi
      refine .served (h.congr rfl rfl rfl) (.inl rfl) hrunning hruns
        (by simp [finish, setCaller]) fun hsub => ?_
      rcases sublist_of_concat hsub with hsub | ⟨hstop, -⟩
      · exact hcalls (hsub.subset (by simp))
      · cases hstop
  | work _ b executor hb hexecutor hbusy =>
      exact .loading k (h.work hb hexecutor hbusy) hk hcaller hrunning hruns hcalls
  | workReturns _ b executor hb hexecutor hopen => exact absurd hopen h.not_open

/-- Between the first `run` and the first `stop` behind it. -/
theorem phase_of_served (h : s.Cycling executorCount)
    (hcaller : s.caller = .idle ∨ s.caller = .resetting) (hserved : s.running = true)
    (hruns : s.runs = 1) (hrun : Call.run ∈ s.calls) (hcalls : ¬ [Call.run, Call.stop] <+ s.calls)
    (hstep : Step s a s') : s'.Phase := by
  cases hstep with
  | run hc hrunning | stopIgnored hc hrunning => cases hserved.symm.trans hrunning
  | runIgnored =>
      refine .served (h.congr rfl rfl rfl) (.inl rfl) hserved hruns
        (List.mem_append_left _ hrun) fun hsub => ?_
      rcases sublist_of_concat hsub with hsub | ⟨hstop, -⟩
      · exact hcalls hsub
      · cases hstop
  | stop => exact .served (h.congr rfl rfl rfl) (.inr rfl) hserved hruns hrun hcalls
  | reset => exact .stopping (.inl ⟨rfl, h.stop⟩) h.reachable hrun
  | store hc | load i executor hc | loaded i hc | stopContext hc | join executor hc | restart hc
  | clear hc => simp [hc] at hcaller
  | work _ b executor hb hexecutor hbusy =>
      exact .served (h.work hb hexecutor hbusy) hcaller hserved hruns hrun hcalls
  | workReturns _ b executor hb hexecutor hopen => exact absurd hopen h.not_open

/-- In the first `stop` that takes effect, until the workers are joined. -/
theorem phase_of_stopping
    (hcaller : s.caller = .stopping ∧ s.executor.stop = .idle ∨ s.caller = .joining)
    (he : (Executor.machine executorCount RunTask).Reachable s.executor)
    (hrun : Call.run ∈ s.calls) (hstep : Step s a s') : s'.Phase := by
  cases hstep with
  | runIgnored hc | run hc | stopIgnored hc | stop hc | store hc | load i executor hc
  | loaded i hc | reset hc | restart hc | clear hc => simp [hc] at hcaller
  | stopContext hc =>
      have hstop : s.executor.stop = .idle := by simpa [hc] using hcaller
      refine .stopping (.inr rfl) ?_ hrun
      rw [← hstop]
      exact he
  | join executor hc hexecutor =>
      have hreachable := reachable_step he hexecutor
      by_cases hstop : executor.stop = .returned
      · exact .dead (dead_of_returned hreachable hstop) hrun (.inl (if_pos hstop))
      · exact .stopping (.inr (if_neg hstop)) hreachable hrun
  | work _ b executor hb hexecutor | workReturns _ b executor hb hexecutor =>
      have hsame := sameLoads_of_worker hb (Executor.step_cases hexecutor)
      exact .stopping (hcaller.imp_left fun h => ⟨h.1, hsame.stop.trans h.2⟩)
        (reachable_step he hexecutor) hrun

/-- From then on. -/
theorem phase_of_dead (h : Dead s.executor) (hrun : Call.run ∈ s.calls)
    (hcalls : s.caller = .restarting ∨ s.caller = .clearing ∨ [Call.run, Call.stop] <+ s.calls)
    (hstep : Step s a s') : s'.Phase := by
  cases hstep with
  | runIgnored hc | stopIgnored hc | loaded _ hc =>
      have hsub : [Call.run, Call.stop] <+ s.calls := by simpa [hc] using hcalls
      exact .dead h (List.mem_append_left _ hrun)
        (.inr (.inr (hsub.trans (List.sublist_append_left _ _))))
  | run hc | stop hc | store hc | reset hc | stopContext hc =>
      have hsub : [Call.run, Call.stop] <+ s.calls := by simpa [hc] using hcalls
      exact .dead h hrun (.inr (.inr hsub))
  | load _ executor hc _ hexecutor | join executor hc hexecutor =>
      have hsub : [Call.run, Call.stop] <+ s.calls := by simpa [hc] using hcalls
      exact .dead (h.step (Executor.step_cases hexecutor)) hrun (.inr (.inr hsub))
  | restart => exact .dead h hrun (.inr (.inl rfl))
  | clear => exact .dead h (List.mem_append_left _ hrun) (.inr (.inr (sublist_concat hrun)))
  | work _ b executor hb hexecutor | workReturns _ b executor hb hexecutor =>
      exact .dead (h.step (Executor.step_cases hexecutor)) hrun hcalls

theorem Phase.step (h : s.Phase) (hstep : Step s a s') : s'.Phase := by
  cases h with
  | fresh h hc hrunning hruns hcalls => exact phase_of_fresh h hc hrunning hruns hcalls hstep
  | loading k h hk hc hrunning hruns hcalls =>
      exact phase_of_loading h hk hc hrunning hruns hcalls hstep
  | served h hc hrunning hruns hrun hcalls =>
      exact phase_of_served h hc hrunning hruns hrun hcalls hstep
  | stopping hc he hrun => exact phase_of_stopping hc he hrun hstep
  | dead h hrun hcalls => exact phase_of_dead h hrun hcalls hstep

theorem Reachable.phase (hs : machine.Reachable s) : s.Phase :=
  hs.invariant phase_init fun _ _ _ h _ hstep => h.step (step_cases hstep)

/-! ## What the calls leave behind -/

/-- Task `i` is with its worker, or the worker is on its way to it. -/
theorem Cycling.works (h : s.Cycling executorCount) (hruns : s.runs = 1)
    (i : Fin executorCount) : s.Works i ⟨s.runs, i⟩ := by
  have hreturned := h.loaded.before i i.isLt
  rw [hruns]
  cases h.placed i with
  | unloaded hload =>
      rcases hload with hload | ⟨queue, hload⟩ <;> cases hreturned.symm.trans hload
  | queued _ htasks hw =>
      rcases hw with hw | ⟨hload, -⟩
      · exact .inr ⟨h.running, hw, [], htasks⟩
      · exact absurd hreturned hload
  | taken _ _ hw => exact .inl ⟨false, hw⟩

theorem Works.live {i : Fin executorCount} {task : RunTask} (h : s.Works i task) :
    s.executor.worker i ≠ .exited := by
  intro hw
  rcases h with ⟨stolen, hworker | hworker⟩ | ⟨-, hcollecting, -⟩
  · cases hw.symm.trans hworker
  · cases hw.symm.trans hworker
  · rw [hw] at hcollecting
    exact hcollecting

/-- Whenever the one thread is out of `run` and `stop` with the flag set, the context serves exactly
if no `stop` has come behind a `run` so far. -/
theorem serving_iff (hs : machine.Reachable s) (hc : s.caller = .idle)
    (hrunning : s.running = true) : s.Serving ↔ ¬ [Call.run, Call.stop] <+ s.calls := by
  cases Reachable.phase hs with
  | fresh _ _ hfresh => cases hrunning.symm.trans hfresh
  | loading k _ _ hloading => cases hc.symm.trans hloading
  | served h _ _ hruns _ hcalls =>
      refine iff_of_true ⟨h.workGuard, h.stopped, fun i => ?_, fun i => ?_⟩ hcalls
      · exact (h.works hruns i).live
      · exact ⟨i, h.works hruns i⟩
  | stopping hstopping => simp [hc] at hstopping
  | dead h _ hcalls =>
      have hsub : [Call.run, Call.stop] <+ s.calls := by simpa [hc] using hcalls
      exact iff_of_false (fun hserving => hserving.live 0 (h.2 0)) (not_not_intro hsub)

/-- One call of `run`. -/
def firstRun : List Action :=
  .run :: replicate 14 .caller

/-- `run`, `stop` and `run` again, with workers that have not moved before `stop` comes. -/
def cycle : List Action :=
  firstRun ++ .stop :: replicate 5 .caller ++
    [.worker 0, .caller, .caller, .worker 1, .caller, .caller, .worker 2, .caller, .caller,
      .worker 3, .caller, .caller, .caller, .caller] ++ firstRun

theorem serving_after_run :
    ∃ s, machine.run init firstRun = some s ∧ s.calls = [.run] ∧ s.Serving := by
  have hany : ((machine.run init firstRun).any fun s =>
      decide (s.caller = .idle ∧ s.running = true ∧ s.calls = [.run])) = true := by
    decide +kernel
  obtain ⟨s, hrun, h⟩ := (Option.any_eq_true _ _).mp hany
  obtain ⟨hc, hrunning, hcalls⟩ := of_decide_eq_true h
  refine ⟨s, hrun, hcalls, ?_⟩
  rw [serving_iff (Machine.reachable_of_run hrun) hc hrunning, hcalls]
  decide

/-- The second `run` sets `_running` and loads its tasks, and nobody is there to run them. -/
theorem cycled_not_serving :
    ∃ s, machine.run init cycle = some s ∧ s.caller = .idle ∧ s.running = true ∧
      s.calls = [.run, .stop, .run] ∧ s.workGuard = false ∧
      (∀ i, s.executor.worker i = .exited) ∧ ¬ s.Serving := by
  have hany : ((machine.run init cycle).any fun s =>
      decide (s.caller = .idle ∧ s.running = true ∧ s.calls = [.run, .stop, .run] ∧
        s.workGuard = false ∧ ∀ i, s.executor.worker i = .exited)) = true := by
    decide +kernel
  obtain ⟨s, hrun, h⟩ := (Option.any_eq_true _ _).mp hany
  obtain ⟨hc, hrunning, hcalls, hguard, hexited⟩ := of_decide_eq_true h
  exact ⟨s, hrun, hc, hrunning, hcalls, hguard, hexited, fun hserving =>
    hserving.live 0 (hexited 0)⟩

end Context

end CommonLib.IOContext
