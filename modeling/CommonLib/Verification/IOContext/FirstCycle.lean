import CommonLib.Verification.IOContext.Equations
import CommonLib.Verification.TaskExecutor.Equations

/-! # The first cycle

Until the first `stop`, the worker of each queue waits for the one task that the first `run` puts
there, takes it and stays in it. No worker ever looks for something to steal. -/

namespace CommonLib.IOContext

open TaskExecutor

/-- The worker waits for the first task of its queue. -/
def Resting : Worker RunTask → Prop
  | .loopTest | .popLock | .popTest | .popWait | .blocked _ => True
  | _ => False

/-- The worker is on its way to take the task that is in its queue. -/
def Collecting : Worker RunTask → Prop
  | .loopTest | .popLock | .popTest | .popTake | .blocked true => True
  | _ => False

/-- Where a task is, given how far its `load` has got: not in the queue yet, in the queue with the
worker coming for it, or with the worker. -/
inductive Placed (task : RunTask) (load : Load executorCount) (tasks : List RunTask)
    (w : Worker RunTask) : Prop
  | unloaded (hload : load = .idle ∨ ∃ queue, load = .indexed queue) (htasks : tasks = [])
      (hw : Resting w)
  | queued (hload : load = .returned ∨ ∃ queue, load = .pushed queue) (htasks : tasks = [task])
      (hw : Collecting w ∨ load ≠ .returned ∧ w = .blocked false)
  | taken (hload : load = .returned ∨ ∃ queue, load = .pushed queue) (htasks : tasks = [])
      (hw : w = .holding task false ∨ w = .busy task false)

/-- The task with number `i` of a `run` is at its place around queue `i`. -/
def AllPlaced (call : ℕ) (e : Executor executorCount RunTask) : Prop :=
  ∀ i : Fin executorCount, Placed ⟨call, i⟩ (e.load ⟨call, i⟩) (e.tasks i) (e.worker i)

variable {call : ℕ} {e e' : Executor executorCount RunTask}

/-- A worker without a task goes on. -/
theorem Placed.goOn {task : RunTask} {load : Load executorCount} {tasks : List RunTask}
    {w w' : Worker RunTask} (h : Placed task load tasks w)
    (hfree : w ≠ .holding task false ∧ w ≠ .busy task false) (hresting : tasks = [] → Resting w')
    (hcollecting : tasks ≠ [] → Collecting w') : Placed task load tasks w' := by
  cases h with
  | unloaded hload htasks => exact .unloaded hload htasks (hresting htasks)
  | queued hload htasks =>
      have hne : tasks ≠ [] := by simp [htasks]
      exact .queued hload htasks (.inl (hcollecting hne))
  | taken hload htasks htaken => exact (htaken.elim hfree.1 hfree.2).elim

theorem AllPlaced.setWorker (h : AllPlaced call e) {i : Fin executorCount} {w : Worker RunTask}
    (hi : Placed ⟨call, i⟩ (e.load ⟨call, i⟩) (e.tasks i) w) : AllPlaced call (e.setWorker i w) := by
  intro j
  by_cases hji : j = i
  · subst hji
    rw [Executor.setWorker_self]
    exact hi
  · rw [Executor.setWorker_of_ne e w hji]
    exact h j

/-- What the rules of a worker leave alone. -/
structure SameLoads (e e' : Executor executorCount RunTask) : Prop where
  running : e'.running = e.running
  stop : e'.stop = e.stop
  load : e'.load = e.load
  index : e'.index = e.index

theorem sameLoads_of_worker {b : TaskExecutor.Action executorCount RunTask} (hb : OfWorker b)
    (hstep : e.Step b e') : SameLoads e e' := by
  cases hstep with
  | fetchAdd | push | notifyOne | stopCalled | store | finalize | stopped | joined => cases hb
  | _ => exact ⟨rfl, rfl, rfl, rfl⟩

/-- A worker that does not come back from `_context.run()` moves towards its task. -/
theorem AllPlaced.work (h : AllPlaced call e) (hrunning : e.running = true)
    {b : TaskExecutor.Action executorCount RunTask} (hb : OfWorker b) (hstep : e.Step b e')
    (hbusy : ∀ i task stolen, b = .worker i → e.worker i ≠ .busy task stolen) :
    AllPlaced call e' := by
  cases hstep with
  | fetchAdd | push | notifyOne | stopCalled | store | finalize | stopped | joined => cases hb
  | finish i task stolen hw => exact absurd hw (hbusy i task stolen rfl)
  | leave i hw hrunning' => cases hrunning.symm.trans hrunning'
  | enter i hw | lock i hw | woken i hw | spurious i notified hw =>
      exact h.setWorker ((h i).goOn (by simp [hw]) (fun _ => trivial) fun _ => trivial)
  | ready i hw hready =>
      refine h.setWorker ((h i).goOn (by simp [hw]) (fun hempty => ?_) fun _ => trivial)
      rcases hready with hready | hrunning'
      · exact absurd hempty hready
      · cases hrunning.symm.trans hrunning'
  | sleep i hw hempty =>
      exact h.setWorker ((h i).goOn (by simp [hw]) (fun _ => trivial) fun hne => absurd hempty hne)
  | block i hw =>
      apply h.setWorker
      cases h i with
      | unloaded hload htasks => exact .unloaded hload htasks trivial
      | queued hload htasks hcollecting => simp [hw, Collecting] at hcollecting
      | taken hload htasks htaken => simp [hw] at htaken
  | popEmpty i hw hempty =>
      cases h i with
      | unloaded hload htasks hresting => simp [hw, Resting] at hresting
      | queued hload htasks => cases hempty.symm.trans htasks
      | taken hload htasks htaken => simp [hw] at htaken
  | pop i task rest hw hfront =>
      cases h i with
      | unloaded hload htasks => cases hfront.symm.trans htasks
      | queued hload htasks =>
          obtain ⟨rfl, rfl⟩ : task = ⟨call, i⟩ ∧ rest = [] := by
            simpa using hfront.symm.trans htasks
          intro j
          by_cases hji : j = i
          · subst hji
            rw [Executor.setWorker_self]
            exact .taken hload (by simp [Executor.setWorker, Executor.setTasks]) (.inl rfl)
          · rw [Executor.setWorker_of_ne _ _ hji]
            simpa [Executor.setWorker, Executor.setTasks, hji] using h j
      | taken hload htasks => cases hfront.symm.trans htasks
  | start i task stolen hw =>
      refine AllPlaced.setWorker (e := { e with started := e.started ++ [task] }) h ?_
      cases h i with
      | unloaded hload htasks hresting => simp [hw, Resting] at hresting
      | queued hload htasks hcollecting => simp [hw, Collecting] at hcollecting
      | taken hload htasks htaken =>
          obtain ⟨rfl, rfl⟩ : task = ⟨call, i⟩ ∧ stolen = false := by simpa [hw] using htaken
          exact .taken hload htasks (.inr rfl)
  | search i hw | again i hw | attempt i k hw | giveUp i k hw | tryLockFails i k hw
  | stealEmpty i k hw | steal i k task rest hw =>
      cases h i with
      | unloaded hload htasks hresting => simp [hw, Resting] at hresting
      | queued hload htasks hcollecting => simp [hw, Collecting] at hcollecting
      | taken hload htasks htaken => simp [hw] at htaken

/-! ## The loop of `run` -/

/-- The loop of `run` has come to the task with number `k`. -/
structure Loaded (call : ℕ) (e : Executor executorCount RunTask) (k : ℕ) : Prop where
  before : ∀ i < k, e.load ⟨call, i⟩ = .returned
  after : ∀ i, k < i → e.load ⟨call, i⟩ = .idle
  current : e.load ⟨call, k⟩ = .idle ∧ e.index.toNat = k ∨
    ∃ hk : k < executorCount, (e.load ⟨call, k⟩ = .indexed ⟨k, hk⟩ ∨
      e.load ⟨call, k⟩ = .pushed ⟨k, hk⟩) ∧ e.index.toNat = k + 1

theorem Loaded.of_same {k : ℕ} (h : Loaded call e k) (hsame : SameLoads e e') :
    Loaded call e' k := by
  refine ⟨?_, ?_, ?_⟩
  · rw [hsame.load]
    exact h.before
  · rw [hsame.load]
    exact h.after
  · rw [hsame.load, hsame.index]
    exact h.current

/-- Nothing but the load of task `k` changes, from one phase to the next. -/
theorem Loaded.setLoad {k : ℕ} (h : Loaded call e k) {phase : Load executorCount}
    (hload : e'.load = Function.update e.load ⟨call, k⟩ phase)
    (hcurrent : phase = .idle ∧ e'.index.toNat = k ∨
      ∃ hk : k < executorCount, (phase = .indexed ⟨k, hk⟩ ∨ phase = .pushed ⟨k, hk⟩) ∧
        e'.index.toNat = k + 1) : Loaded call e' k := by
  refine ⟨fun i hi => ?_, fun i hi => ?_, ?_⟩
  · rw [hload, Function.update_of_ne (by simp [Nat.ne_of_lt hi])]
    exact h.before i hi
  · rw [hload, Function.update_of_ne (by simp [Nat.ne_of_gt hi])]
    exact h.after i hi
  · rw [hload, Function.update_self]
    exact hcurrent

theorem Loaded.next {k : ℕ} (h : Loaded call e k)
    (hload : e'.load = Function.update e.load ⟨call, k⟩ .returned)
    (hindex : e'.index.toNat = k + 1) : Loaded call e' (k + 1) := by
  refine ⟨fun i hi => ?_, fun i hi => ?_, .inl ⟨?_, hindex⟩⟩
  · rw [hload]
    rcases Nat.lt_succ_iff_lt_or_eq.mp hi with hlt | rfl
    · rw [Function.update_of_ne (by simp [Nat.ne_of_lt hlt])]
      exact h.before i hlt
    · rw [Function.update_self]
  · have hlt : k < i := Nat.lt_of_succ_lt hi
    rw [hload, Function.update_of_ne (by simp [Nat.ne_of_gt hlt])]
    exact h.after i hlt
  · rw [hload, Function.update_of_ne (by simp)]
    exact h.after (k + 1) (Nat.lt_succ_self k)

/-- Only what belongs to queue `k` changes. -/
theorem AllPlaced.update (h : AllPlaced call e) (k : Fin executorCount)
    {phase : Load executorCount} (hload : e'.load = Function.update e.load ⟨call, k⟩ phase)
    (hsame : ∀ j, j ≠ k → e'.tasks j = e.tasks j ∧ e'.worker j = e.worker j)
    (hk : Placed ⟨call, k⟩ phase (e'.tasks k) (e'.worker k)) : AllPlaced call e' := by
  intro j
  by_cases hjk : j = k
  · subst hjk
    rw [hload, Function.update_self]
    exact hk
  · have hne : (⟨call, j⟩ : RunTask) ≠ ⟨call, k⟩ := by simpa [Fin.ext_iff] using hjk
    rw [hload, Function.update_of_ne hne, (hsame j hjk).1, (hsame j hjk).2]
    exact h j

/-- Round robin: the task with number `k` goes to queue `k`. -/
theorem index_and (k : Fin executorCount) : (k : ℕ) &&& (executorCount - 1) = k := by
  revert k
  decide

/-- Until it is pushed, the task is nowhere and the worker waits. -/
theorem Placed.resting {task : RunTask} {load : Load executorCount} {tasks : List RunTask}
    {w : Worker RunTask} (h : Placed task load tasks w)
    (hload : load = .idle ∨ ∃ queue, load = .indexed queue) : tasks = [] ∧ Resting w := by
  cases h with
  | unloaded _ htasks hw => exact ⟨htasks, hw⟩
  | queued hl | taken hl =>
      rcases hload with rfl | ⟨queue, rfl⟩ <;> rcases hl with hl | ⟨q, hl⟩ <;> cases hl

/-- A task that comes into the queue finds the worker on its way, or blocked. -/
theorem Placed.push {task : RunTask} {load : Load executorCount} {tasks : List RunTask}
    {w : Worker RunTask} (h : Placed task load tasks w) {queue : Fin executorCount}
    (hload : load = .indexed queue) (hlock : w ≠ .popTest ∧ w ≠ .popWait) :
    Placed task (.pushed queue) (tasks ++ [task]) w := by
  obtain ⟨htasks, hw⟩ := h.resting (.inr ⟨queue, hload⟩)
  refine .queued (.inr ⟨queue, rfl⟩) (by simp [htasks]) ?_
  cases w with
  | blocked notified => cases notified <;> simp [Collecting]
  | popTest => exact absurd rfl hlock.1
  | popWait => exact absurd rfl hlock.2
  | loopTest | popLock => exact .inl trivial
  | popTake | holding | busy | emptyTest | stealTest | stealTry | exited => cases hw

theorem Placed.notify {i : Fin executorCount} {load : Load executorCount}
    (h : Placed ⟨call, i⟩ load (e.tasks i) (e.worker i)) (hload : load = .pushed i) :
    Placed ⟨call, i⟩ .returned ((e.notify i).tasks i) ((e.notify i).worker i) := by
  subst hload
  rcases Executor.notify_cases e i with ⟨heq, hnot⟩ | ⟨notified, hw, heq⟩
  · rw [heq]
    cases h with
    | unloaded hl => rcases hl with hl | ⟨q, hl⟩ <;> cases hl
    | queued hl htasks hw =>
        exact .queued (.inl rfl) htasks (.inl (hw.resolve_right fun hb => hnot false hb.2))
    | taken hl htasks hw => exact .taken (.inl rfl) htasks hw
  · rw [heq, Executor.setWorker_self]
    cases h with
    | unloaded hl => rcases hl with hl | ⟨q, hl⟩ <;> cases hl
    | queued hl htasks => exact .queued (.inl rfl) htasks (.inl trivial)
    | taken hl htasks htaken => simp [hw] at htaken

theorem Loaded.queue {k : ℕ} (h : Loaded call e k) {queue : Fin executorCount}
    (hl : e.load ⟨call, k⟩ = .indexed queue ∨ e.load ⟨call, k⟩ = .pushed queue) :
    (queue : ℕ) = k ∧ e.index.toNat = k + 1 := by
  rcases h.current with ⟨hidle, -⟩ | ⟨hk, hload, hindex⟩
  · rcases hl with hl | hl <;> cases hidle.symm.trans hl
  · rcases hl with hl | hl <;> rcases hload with hload | hload <;> cases hl.symm.trans hload <;>
      exact ⟨rfl, hindex⟩

/-- One step of `load` brings task `k` one phase on. -/
theorem Loaded.load {k : Fin executorCount} (h : Loaded call e k) (hplaced : AllPlaced call e)
    (hstep : e.Step (.load ⟨call, k⟩) e') :
    AllPlaced call e' ∧ (e'.load ⟨call, k⟩ = .returned ∧ Loaded call e' (k + 1) ∨
      e'.load ⟨call, k⟩ ≠ .returned ∧ Loaded call e' k) := by
  have hk := hplaced k
  cases hstep with
  | fetchAdd _ queue hl hqueue =>
      have hindex : e.index.toNat = k := by
        rcases h.current with hcurrent | ⟨_, hload, -⟩
        · exact hcurrent.2
        · rcases hload with hload | hload <;> cases hl.symm.trans hload
      obtain rfl : queue = k := by
        rw [hindex, index_and k] at hqueue
        exact Fin.ext hqueue
      have hnext : (e.index + 1).toNat = queue + 1 := by
        have hsmall : (queue : ℕ) + 1 < 2 ^ 32 :=
          Nat.lt_trans (Nat.succ_lt_succ queue.isLt) (by decide)
        rw [UInt32.toNat_add, hindex]
        exact Nat.mod_eq_of_lt hsmall
      obtain ⟨htasks, hw⟩ := hk.resting (.inl hl)
      refine ⟨hplaced.update queue rfl (fun _ _ => ⟨rfl, rfl⟩)
        (.unloaded (.inr ⟨_, rfl⟩) htasks hw), .inr ⟨?_, ?_⟩⟩
      · simp [Executor.setLoad]
      · exact h.setLoad rfl (.inr ⟨queue.isLt, .inl rfl, hnext⟩)
  | push _ queue hl hlock =>
      obtain ⟨hqueue, hindex⟩ := h.queue (.inl hl)
      obtain rfl := Fin.ext hqueue
      have hfree : e.worker queue ≠ .popTest ∧ e.worker queue ≠ .popWait := by
        constructor <;> intro hw <;> simp [Executor.locked, hw] at hlock
      have hload := Eq.refl (Function.update e.load ⟨call, queue⟩ (Load.pushed queue))
      refine ⟨hplaced.update queue hload (fun j hj => ?_) ?_, .inr ⟨?_, ?_⟩⟩
      · simp [Executor.setLoad, Executor.setTasks, hj]
      · simpa [Executor.setLoad, Executor.setTasks] using hk.push hl hfree
      · simp [Executor.setLoad]
      · exact h.setLoad hload (.inr ⟨queue.isLt, .inr rfl, hindex⟩)
  | notifyOne _ queue hl =>
      obtain ⟨hqueue, hindex⟩ := h.queue (.inr hl)
      obtain rfl := Fin.ext hqueue
      have hload : ((e.notify queue).setLoad ⟨call, queue⟩ .returned).load =
          Function.update e.load ⟨call, queue⟩ .returned := by
        simp [Executor.setLoad]
      refine ⟨hplaced.update queue hload (fun j hj => ⟨?_, ?_⟩) (hk.notify hl), .inl ⟨?_, ?_⟩⟩
      · simp [Executor.setLoad]
      · exact Executor.notify_of_ne e hj
      · simp [Executor.setLoad]
      · exact h.next hload (by simpa [Executor.setLoad] using hindex)

end CommonLib.IOContext
