import CommonLib.Verification.TaskExecutor.Idle
import CommonLib.Verification.TaskExecutor.Shutdown
import Mathlib.Algebra.BigOperators.Group.Finset.Piecewise

/-! # The executor settles

Whatever order the workers take their steps in: without spurious wakeups, and with nothing new
pushed, they are all asleep after a bounded number of steps, and then every task is finished. -/

namespace CommonLib.TaskExecutor

variable {n : ℕ} {τ : Type*}

/-- A bound for the steps that a worker takes before it sleeps or takes a task. -/
def Worker.work (n : ℕ) : Worker τ → ℕ
  | exited | blocked false => 0
  | popWait | popTake => 1
  | popTest => 2
  | popLock => 3
  | loopTest | blocked true => 4
  | stealTest i => 5 + 2 * (n - i)
  | stealTry i => 6 + 2 * (n - (i + 1))
  | emptyTest => 4 + 2 * n
  | busy _ _ => 5 + 2 * n
  | holding _ _ => 6 + 2 * n

/-- The task is in its queue, and its notification comes next. -/
def Load.notifying : Load n → Bool
  | pushed _ => true
  | idle | indexed _ | returned => false

theorem sum_update_add {ι : Type*} [Fintype ι] [DecidableEq ι] (f : ι → ℕ) (i : ι) (b : ℕ) :
    ∑ j, Function.update f i b j + f i = ∑ j, f j + b := by
  rw [Finset.sum_update_of_mem (Finset.mem_univ i), ← Finset.erase_eq,
    ← Finset.add_sum_erase Finset.univ f (Finset.mem_univ i)]
  omega

namespace Executor

/-! ## A worker about to take a task -/

/-- A worker that has found the predicate of `wait` true finds a task, unless the executor stops. -/
def Poised (s : Executor n τ) : Prop :=
  ∀ i, s.worker i = .popTake → s.running = true → s.tasks i ≠ []

theorem poised_init : (init : Executor n τ).Poised := by
  intro i hi
  cases hi

theorem Poised.setWorker {s : Executor n τ} (h : s.Poised) {i : Fin n} {pc : Worker τ}
    (hpc : pc = .popTake → s.running = true → s.tasks i ≠ []) : (s.setWorker i pc).Poised := by
  intro j hj hrunning
  by_cases hji : j = i
  · subst hji
    rw [setWorker_self] at hj
    exact hpc hj hrunning
  · rw [setWorker_of_ne s pc hji] at hj
    exact h j hj hrunning

theorem Poised.notify {s : Executor n τ} (h : s.Poised) (i : Fin n) : (s.notify i).Poised :=
  notify_of h fun _ _ => h.setWorker (by simp)

/-- A worker takes a task out of a queue whose own worker does not look at its front. -/
theorem Poised.takes {s : Executor n τ} (h : s.Poised) {i j : Fin n} {rest : List τ} {task : τ}
    {stolen : Bool} (hj : j ≠ i → s.worker j ≠ .popTake) :
    ((s.setTasks j rest).setWorker i (.holding task stolen)).Poised := by
  intro v hv hrunning
  have hvi : v ≠ i := by
    intro heq
    rw [heq, setWorker_self] at hv
    cases hv
  rw [setWorker_of_ne _ _ hvi] at hv
  have hvj : v ≠ j := by
    intro heq
    subst heq
    exact hj hvi hv
  change Function.update s.tasks j rest v ≠ []
  rw [Function.update_of_ne hvj]
  exact h v hv hrunning

variable [DecidableEq τ]

theorem Poised.step {s s' : Executor n τ} {a : Action n τ} (h : s.Poised) (hstep : Step s a s') :
    s'.Poised := by
  cases hstep with
  | enter i hw | leave i hw | lock i hw | sleep i hw | block i hw | woken i hw
  | spurious i notified hw | popEmpty i hw | search i hw | again i hw | attempt i k hw
  | giveUp i k hw | tryLockFails i k hw | stealEmpty i k hw => exact h.setWorker (by simp)
  | ready i hw htasks =>
      refine h.setWorker fun _ hrunning => htasks.resolve_right ?_
      rw [hrunning]
      simp
  | pop i task rest hw htasks => exact h.takes fun hne => absurd rfl hne
  | steal i k task rest hw hlock htasks =>
      refine h.takes fun _ htake => ?_
      simp [locked, htake] at hlock
  | start i task stolen hw =>
      exact Poised.setWorker (s := { s with started := s.started ++ [task] }) h (by simp)
  | finish i task stolen hw =>
      refine Poised.setWorker (s := { s with finished := s.finished ++ [task] }) h ?_
      cases stolen <;> simp
  | fetchAdd task queue hl hqueue => exact h
  | push task queue hl hlock =>
      intro i hi hrunning
      change Function.update s.tasks queue (s.tasks queue ++ [task]) i ≠ []
      by_cases hiq : i = queue
      · subst hiq
        simp
      · rw [Function.update_of_ne hiq]
        exact h i hi hrunning
  | notifyOne task queue hl => exact h.notify queue
  | finalize i hs => exact h.notify i
  | store hs => exact fun _ _ hrunning => by cases hrunning
  | stopCalled hs | stopped i hs hi | joined i hs hw => exact h

theorem Reachable.poised {s : Executor n τ} (h : (machine n τ).Reachable s) : s.Poised :=
  h.invariant poised_init fun _ _ _ hs _ hstep => hs.step (step_cases hstep)

/-! ## What is left to do -/

omit [DecidableEq τ] in
def queued (s : Executor n τ) : ℕ :=
  ∑ i, (s.tasks i).length

/-- The pushes whose notification is still to come. -/
def pending (s : Executor n τ) : List τ :=
  s.loaded.filter fun task => (s.load task).notifying

def places (s : Executor n τ) : ℕ :=
  ∑ i, (s.worker i).work n

def distance (s : Executor n τ) : ℕ :=
  (6 + 2 * n) * s.queued + 5 * s.pending.length + s.places

omit [DecidableEq τ] in
theorem places_setWorker (s : Executor n τ) (i : Fin n) (pc : Worker τ) :
    (s.setWorker i pc).places + (s.worker i).work n = s.places + pc.work n := by
  have hplaces : (s.setWorker i pc).places =
      ∑ j, Function.update (fun j => (s.worker j).work n) i (pc.work n) j := by
    refine Finset.sum_congr rfl fun j _ => ?_
    by_cases hj : j = i
    · subst hj
      rw [setWorker_self, Function.update_self]
    · rw [setWorker_of_ne s pc hj, Function.update_of_ne hj]
  rw [hplaces]
  exact sum_update_add _ i _

omit [DecidableEq τ] in
theorem queued_setTasks (s : Executor n τ) (i : Fin n) (tasks : List τ) :
    (s.setTasks i tasks).queued + (s.tasks i).length = s.queued + tasks.length := by
  have hqueued : (s.setTasks i tasks).queued =
      ∑ j, Function.update (fun j => (s.tasks j).length) i tasks.length j := by
    refine Finset.sum_congr rfl fun j _ => ?_
    by_cases hj : j = i
    · subst hj
      simp [setTasks]
    · simp [setTasks, hj]
  rw [hqueued]
  exact sum_update_add _ i _

omit [DecidableEq τ] in
theorem distance_setWorker {s : Executor n τ} {i : Fin n} {pc : Worker τ}
    (h : pc.work n < (s.worker i).work n) : (s.setWorker i pc).distance < s.distance := by
  have hplaces := places_setWorker s i pc
  change (6 + 2 * n) * s.queued + 5 * s.pending.length + (s.setWorker i pc).places < s.distance
  rw [distance]
  omega

omit [DecidableEq τ] in
/-- A task that is taken pays for the way of its worker back to sleep. -/
theorem distance_takes {s : Executor n τ} {i j : Fin n} {rest : List τ} {task : τ} {stolen : Bool}
    (hlength : (s.tasks j).length = rest.length + 1) (hwork : 0 < (s.worker i).work n) :
    ((s.setTasks j rest).setWorker i (.holding task stolen)).distance < s.distance := by
  have hplaces : ((s.setTasks j rest).setWorker i (.holding task stolen)).places +
      (s.worker i).work n = s.places + (6 + 2 * n) := places_setWorker (s.setTasks j rest) i _
  have hqueued := queued_setTasks s j rest
  have hless : s.queued = (s.setTasks j rest).queued + 1 := by omega
  change (6 + 2 * n) * (s.setTasks j rest).queued + 5 * s.pending.length +
    ((s.setTasks j rest).setWorker i (.holding task stolen)).places < s.distance
  rw [distance, hless, Nat.mul_succ]
  omega

theorem distance_notifyOne {s : Executor n τ} {task : τ} {queue : Fin n}
    (hl : s.load task = .pushed queue) (hmem : task ∈ s.loaded) :
    ((s.notify queue).setLoad task .returned).distance < s.distance := by
  have hpending : ((s.notify queue).setLoad task .returned).pending.length < s.pending.length := by
    have hfilter : ((s.notify queue).setLoad task .returned).pending =
        s.pending.filter fun t => decide (t ≠ task) := by
      change (s.notify queue).loaded.filter _ = _
      rw [notify_loaded, pending, List.filter_filter]
      refine List.filter_congr fun t _ => ?_
      by_cases ht : t = task
      · subst ht
        simp [setLoad, Load.notifying]
      · simp [setLoad, ht]
    rw [hfilter]
    refine List.length_filter_lt_length_iff_exists.mpr ⟨task, ?_, by simp⟩
    exact List.mem_filter.mpr ⟨hmem, by rw [hl]; rfl⟩
  have hplaces : (s.notify queue).places ≤ s.places + 4 := by
    refine notify_of (P := fun t => t.places ≤ s.places + 4) (Nat.le_add_right _ _) fun _ _ => ?_
    have hsum := places_setWorker s queue (.blocked true)
    simp only [Worker.work] at hsum
    omega
  have hqueued : (s.notify queue).queued = s.queued := by
    rw [queued, notify_tasks, queued]
  change (6 + 2 * n) * (s.notify queue).queued +
    5 * ((s.notify queue).setLoad task .returned).pending.length + (s.notify queue).places < s.distance
  rw [distance, hqueued]
  omega

/-! ## One step, and all of them -/

/-- What happens without anybody's doing: steps of the workers, and the rest of the pushes whose
tasks are in their queues. -/
def Unprompted (s : Executor n τ) : Action n τ → Prop
  | .worker _ | .tryLockFails _ => True
  | .load task => task ∈ s.loaded
  | .spurious _ | .stop => False

/-- What can have become of `s` without anybody's doing. -/
structure Later (s s' : Executor n τ) : Prop where
  reachable : (machine n τ).Reachable s'
  running : s'.running = true
  loaded : s'.loaded = s.loaded

theorem Later.distance {s s' next : Executor n τ} {a : Action n τ} (h : Later s s')
    (ha : s.Unprompted a) (hstep : Step s' a next) : next.distance < s'.distance := by
  cases hstep with
  | enter i hw | lock i hw | ready i hw | sleep i hw | block i hw | woken i hw =>
      refine distance_setWorker ?_
      rw [hw]
      simp [Worker.work]
  | leave i hw hrunning =>
      rw [h.running] at hrunning
      cases hrunning
  | spurious => exact absurd ha id
  | popEmpty i hw htasks => exact absurd htasks (Reachable.poised h.reachable i hw h.running)
  | pop i task rest hw htasks => exact distance_takes (by rw [htasks]; rfl) (by rw [hw]; simp [Worker.work])
  | start i task stolen hw =>
      refine distance_setWorker (s := { s' with started := s'.started ++ [task] }) ?_
      simp [hw, Worker.work]
  | finish i task stolen hw =>
      refine distance_setWorker (s := { s' with finished := s'.finished ++ [task] }) ?_
      cases stolen <;> simp only [hw, Worker.work, if_true, Bool.false_eq_true, if_false] <;> omega
  | search i hw | again i hw =>
      have hi := i.pos
      refine distance_setWorker ?_
      rw [hw]
      simp only [Worker.work]
      omega
  | attempt i k hw hk =>
      refine distance_setWorker ?_
      rw [hw]
      simp only [Worker.work]
      omega
  | giveUp i k hw | tryLockFails i k hw | stealEmpty i k hw =>
      refine distance_setWorker ?_
      rw [hw]
      simp only [Worker.work]
      omega
  | steal i k task rest hw hlock htasks =>
      exact distance_takes (by simp [htasks]) (by rw [hw]; simp [Worker.work])
  | fetchAdd task queue hl | push task queue hl =>
      have hpushed := ((Reachable.conserved h.reachable).pushed task).mp (h.loaded ▸ ha)
      rw [hl] at hpushed
      exact absurd hpushed id
  | notifyOne task queue hl => exact distance_notifyOne hl (h.loaded ▸ ha)
  | stopCalled | store | finalize | stopped | joined => exact absurd ha id

theorem Later.step {s s' next : Executor n τ} {a : Action n τ} (h : Later s s')
    (ha : s.Unprompted a) (hstep : (machine n τ).step s' a = some next) : Later s next := by
  have hreachable := h.reachable.step trivial hstep
  cases step_cases hstep with
  | stopCalled | store | finalize | stopped | joined | spurious => exact absurd ha id
  | fetchAdd task queue hl | push task queue hl =>
      have hpushed := ((Reachable.conserved h.reachable).pushed task).mp (h.loaded ▸ ha)
      rw [hl] at hpushed
      exact absurd hpushed id
  | notifyOne task queue hl =>
      exact ⟨hreachable, (notify_running s' queue).trans h.running,
        (notify_loaded s' queue).trans h.loaded⟩
  | _ => exact ⟨hreachable, h.running, h.loaded⟩

/-- Where nothing happens any more, the workers sleep on empty queues. -/
theorem Later.asleep {s s' : Executor n τ} (h : Later s s')
    (hstuck : ∀ a, s.Unprompted a → s'.step a = none) (i : Fin n) :
    s'.worker i = .blocked false ∧ s'.tasks i = [] := by
  have hstep : s'.stepWorker i = none := hstuck (.worker i) trivial
  have hblocked : s'.worker i = .blocked false := by
    cases hw : s'.worker i with
    | blocked notified =>
        cases notified with
        | false => rfl
        | true => simp [stepWorker, hw] at hstep
    | exited =>
        have hrunning := (Reachable.parted h.reachable).exited i hw
        rw [h.running] at hrunning
        cases hrunning
    | stealTry k =>
        have hfails : s'.step (.tryLockFails i) = none := hstuck (.tryLockFails i) trivial
        simp [Executor.step, hw] at hfails
    | loopTest | popLock | popTest | popWait | popTake | holding | busy | emptyTest | stealTest =>
        simp [stepWorker, hw] at hstep
  refine ⟨hblocked, ?_⟩
  by_contra htasks
  obtain ⟨task, htask⟩ := (Reachable.settled h.reachable).blocked i hblocked htasks
  have hmem : task ∈ s.loaded := by
    rw [← h.loaded, (Reachable.conserved h.reachable).pushed, htask]
    trivial
  have hnotify : s'.stepLoad task = none := hstuck (.load task) hmem
  simp [stepLoad, htask] at hnotify

/-- Before `stop`, and with no wakeup without a notification: the workers come to rest after a
bounded number of steps, in whatever order they take them and whichever locks they miss. Then all
of them sleep, and every task that has been pushed is finished. -/
theorem settles {s s' : Executor n τ} (h : (machine n τ).Reachable s) (hrunning : s.running = true)
    {actions : List (Action n τ)} (hactions : ∀ a ∈ actions, s.Unprompted a)
    (hrun : (machine n τ).run s actions = some s') :
    actions.length ≤ s.distance ∧
      ((∀ a, s.Unprompted a → s'.step a = none) →
        s'.finished.Perm s.loaded ∧ ∀ i, s'.worker i = .blocked false) := by
  have hstep : ∀ (t : Executor n τ) (a : Action n τ) (t' : Executor n τ), s.Unprompted a →
      Later s t → (machine n τ).step t a = some t' → Later s t' ∧ t'.distance < t.distance :=
    fun _ _ _ ha ht hs => ⟨ht.step ha hs, ht.distance ha (step_cases hs)⟩
  have hstart : Later s s := ⟨h, hrunning, rfl⟩
  obtain ⟨hend, hlength⟩ := Machine.run_length_le Executor.distance hstep hactions hstart hrun
  refine ⟨by omega, fun hstuck => ⟨?_, fun i => (hend.asleep hstuck i).1⟩⟩
  have hall : ∑ k, s'.content k = s'.content .finished := by
    refine Finset.sum_eq_single Place.finished (fun k _ hk => ?_) fun hnot => ?_
    · cases k with
      | queue i => simp [content, (hend.asleep hstuck i).2]
      | hands i => simp [content, (hend.asleep hstuck i).1, Worker.hands]
      | finished => exact absurd rfl hk
    · exact absurd (Finset.mem_univ _) hnot
  rw [← hend.loaded, ← Multiset.coe_eq_coe, ← (Reachable.conserved hend.reachable).total, hall]
  rfl

/-- The worker runs the task, searches and sleeps before the push notifies it. -/
def nap : List (Action 1 ℕ) :=
  List.replicate 12 (.worker ⟨0, Nat.one_pos⟩) ++
    .load 5 :: List.replicate 4 (.worker ⟨0, Nat.one_pos⟩)

theorem settles_nap :
    ∃ s s' : Executor 1 ℕ, (machine 1 ℕ).run init [.load 5, .load 5] = some s ∧
      (machine 1 ℕ).run s nap = some s' ∧ nap.length ≤ s.distance ∧ s'.finished.Perm [5] ∧
      ∀ i, s'.worker i = .blocked false := by
  obtain ⟨s, s', hinit, hrun, hrunning, hloaded, hworker, hload⟩ : ∃ s s' : Executor 1 ℕ,
      (machine 1 ℕ).run init [.load 5, .load 5] = some s ∧ (machine 1 ℕ).run s nap = some s' ∧
      s.running = true ∧ s.loaded = [5] ∧ s'.worker 0 = .blocked false ∧ s'.load 5 = .returned :=
    ⟨_, _, rfl, rfl, rfl, rfl, rfl, rfl⟩
  have hactions : ∀ a ∈ nap, s.Unprompted a := by simp [nap, Unprompted, hloaded]
  have hstuck : ∀ a, s.Unprompted a → s'.step a = none := by
    intro a ha
    cases a with
    | worker i | tryLockFails i =>
        obtain rfl : i = 0 := Subsingleton.elim i 0
        simp [Executor.step, stepWorker, hworker]
    | load task =>
        obtain rfl : task = 5 := by simpa [Unprompted, hloaded] using ha
        simp [Executor.step, stepLoad, hload]
    | spurious | stop => exact absurd ha id
  obtain ⟨hlength, hend⟩ := settles (Machine.reachable_of_run hinit) hrunning hactions hrun
  exact ⟨s, s', hinit, hrun, hlength, hloaded ▸ (hend hstuck).1, (hend hstuck).2⟩

end Executor

end CommonLib.TaskExecutor
