import CommonLib.Model.IOContext

/-! The steps of the calling thread and of the workers of an `IOContext` as local rules. -/

namespace CommonLib.IOContext

open TaskExecutor

/-- An action of the executor that is taken by a worker. -/
def OfWorker : TaskExecutor.Action executorCount RunTask → Prop
  | .worker _ | .tryLockFails _ | .spurious _ => True
  | .load _ | .stop => False

namespace Context

/-- The rules by which callers and workers move, one for each branch of the code. -/
inductive Step (s : Context) : Action → Context → Prop
  | runIgnored (hc : s.caller = .idle) (hrunning : s.running = true) : Step s .run (s.finish .run)
  | run (hc : s.caller = .idle) (hrunning : s.running = false) :
      Step s .run (s.setCaller .storing)
  | stopIgnored (hc : s.caller = .idle) (hrunning : s.running = false) :
      Step s .stop (s.finish .stop)
  | stop (hc : s.caller = .idle) (hrunning : s.running = true) :
      Step s .stop (s.setCaller .resetting)
  | store (hc : s.caller = .storing) :
      Step s .caller ({ s with running := true, runs := s.runs + 1 }.setCaller (.loading 0))
  | load (i executor) (hc : s.caller = .loading i) (hi : i < executorCount)
      (hstep : s.executor.step (.load ⟨s.runs, i⟩) = some executor) :
      Step s .caller ({ s with executor := executor }.setCaller
        (if executor.load ⟨s.runs, i⟩ = Load.returned then .loading (i + 1) else .loading i))
  | loaded (i) (hc : s.caller = .loading i) (hi : executorCount ≤ i) :
      Step s .caller (s.finish .run)
  | reset (hc : s.caller = .resetting) :
      Step s .caller ({ s with workGuard := false }.setCaller .stopping)
  | stopContext (hc : s.caller = .stopping) :
      Step s .caller ({ s with
        stopped := true, executor := { s.executor with stop := .idle } }.setCaller .joining)
  | join (executor) (hc : s.caller = .joining) (hstep : s.executor.step .stop = some executor) :
      Step s .caller ({ s with executor := executor }.setCaller
        (if executor.stop = Stop.returned then .restarting else .joining))
  | restart (hc : s.caller = .restarting) :
      Step s .caller ({ s with stopped := false }.setCaller .clearing)
  | clear (hc : s.caller = .clearing) : Step s .caller ({ s with running := false }.finish .stop)
  | work (a b executor) (hb : OfWorker b) (hstep : s.executor.step b = some executor)
      (hbusy : ∀ i task stolen, b = .worker i → s.executor.worker i ≠ .busy task stolen) :
      Step s a { s with executor := executor }
  | workReturns (a b executor) (hb : OfWorker b) (hstep : s.executor.step b = some executor)
      (hopen : s.stopped = true ∨ s.workGuard = false) :
      Step s a { s with executor := executor, stopped := true }

theorem Step.of_stepCaller {s s' : Context} (h : s.stepCaller = some s') : Step s .caller s' := by
  unfold stepCaller at h
  split at h
  · cases h
  · rename_i hc
    cases h
    exact .store hc
  · rename_i i hc
    split at h
    · rename_i hi
      obtain ⟨executor, hexecutor, rfl⟩ := Option.map_eq_some_iff.mp h
      exact .load i executor hc hi hexecutor
    · cases h
      exact .loaded i hc (Nat.not_lt.mp ‹_›)
  · rename_i hc
    cases h
    exact .reset hc
  · rename_i hc
    cases h
    exact .stopContext hc
  · rename_i hc
    obtain ⟨executor, hexecutor, rfl⟩ := Option.map_eq_some_iff.mp h
    exact .join executor hc hexecutor
  · rename_i hc
    cases h
    exact .restart hc
  · rename_i hc
    cases h
    exact .clear hc

theorem Step.of_stepWorker {s s' : Context} {i : Fin executorCount}
    (h : s.stepWorker i = some s') : Step s (.worker i) s' := by
  unfold stepWorker at h
  split at h
  · split at h
    · rename_i hopen
      obtain ⟨executor, hexecutor, rfl⟩ := Option.map_eq_some_iff.mp h
      exact .workReturns _ (.worker i) executor trivial hexecutor
        (by simpa using hopen)
    · cases h
  · rename_i hbusy
    obtain ⟨executor, hexecutor, rfl⟩ := Option.map_eq_some_iff.mp h
    refine .work _ (.worker i) executor trivial hexecutor fun j task stolen hj => ?_
    cases hj
    exact hbusy task stolen

/-- Every enabled action moves the context by one of the rules. -/
theorem step_cases {s s' : Context} {a : Action} (h : s.step a = some s') : Step s a s' := by
  cases a with
  | run =>
      simp only [step] at h
      split_ifs at h with hc hrunning <;> cases h
      · exact .runIgnored hc hrunning
      · exact .run hc (Bool.eq_false_iff.mpr hrunning)
  | stop =>
      simp only [step] at h
      split_ifs at h with hc hrunning <;> cases h
      · exact .stop hc hrunning
      · exact .stopIgnored hc (Bool.eq_false_iff.mpr hrunning)
  | caller => exact .of_stepCaller h
  | worker i => exact .of_stepWorker h
  | tryLockFails i =>
      obtain ⟨executor, hexecutor, rfl⟩ := Option.map_eq_some_iff.mp h
      exact .work _ (.tryLockFails i) executor trivial hexecutor (by simp)
  | spurious i =>
      obtain ⟨executor, hexecutor, rfl⟩ := Option.map_eq_some_iff.mp h
      exact .work _ (.spurious i) executor trivial hexecutor (by simp)

end Context

end CommonLib.IOContext
