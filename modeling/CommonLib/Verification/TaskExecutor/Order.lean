import CommonLib.Verification.TaskExecutor.Equations
import Mathlib.Data.List.Perm.Basic

/-! # The order in which tasks are started

A worker takes the tasks of its queue from the front, a thief from the back. What is not stolen is
started in the order in which it was pushed. -/

namespace CommonLib.TaskExecutor

variable {n : ℕ} {τ : Type*}

/-- What can be said of a queue: a task is put in, is stolen, or is started by the worker of the
queue, which has popped it. -/
inductive Entry (n : ℕ) (τ : Type*)
  | pushed (queue : Fin n) (task : τ)
  | stolen (queue : Fin n) (task : τ)
  | started (queue : Fin n) (task : τ)
  deriving DecidableEq

namespace Entry

def pushed? (q : Fin n) : Entry n τ → Option τ
  | pushed queue task => if queue = q then some task else none
  | stolen _ _ | started _ _ => none

def stolen? (q : Fin n) : Entry n τ → Option τ
  | stolen queue task => if queue = q then some task else none
  | pushed _ _ | started _ _ => none

def started? (q : Fin n) : Entry n τ → Option τ
  | started queue task => if queue = q then some task else none
  | pushed _ _ | stolen _ _ => none

end Entry

/-- The task that a worker has popped from its own queue and is about to start. -/
def Worker.popped : Worker τ → List τ
  | holding task false => [task]
  | _ => []

/-- The task whose body a worker is executing. -/
def Worker.current : Worker τ → List τ
  | busy task _ => [task]
  | _ => []

/-- A place of a worker that has nobody to steal from. -/
def Worker.alone : Worker τ → Bool
  | stealTest k => k ≠ 0
  | stealTry _ | holding _ true => false
  | _ => true

namespace Executor

def record? (s : Executor n τ) : Action n τ → Option (Entry n τ)
  | .load task =>
      match s.load task with
      | .indexed queue => some (.pushed queue task)
      | _ => none
  | .worker i =>
      match s.worker i with
      | .stealTry k => (s.tasks (target i k)).getLast?.map (.stolen (target i k))
      | .holding task false => some (.started i task)
      | _ => none
  | _ => none

/-- The tasks of the queue that were not stolen, the ones started first. -/
def line (s : Executor n τ) (history : List (Entry n τ)) (q : Fin n) : List τ :=
  history.filterMap (Entry.started? q) ++ (s.worker q).popped ++ s.tasks q

/-- What was not stolen from a queue is in the order of its pushes. -/
structure InOrder (s : Executor n τ) (history : List (Entry n τ)) : Prop where
  sublist : ∀ q, (s.line history q).Sublist (history.filterMap (Entry.pushed? q))
  perm : ∀ q, (s.line history q ++ history.filterMap (Entry.stolen? q)).Perm
    (history.filterMap (Entry.pushed? q))

theorem inOrder_init : (init : Executor n τ).InOrder [] :=
  ⟨fun _ => List.Sublist.refl _, fun _ => .refl _⟩

/-! ## One step -/

theorem InOrder.of_line {s s' : Executor n τ} {history : List (Entry n τ)} (h : s.InOrder history)
    (hline : ∀ q, s'.line history q = s.line history q) : s'.InOrder history := by
  constructor
  · intro q
    rw [hline]
    exact h.sublist q
  · intro q
    rw [hline]
    exact h.perm q

theorem line_setWorker (s : Executor n τ) (i : Fin n) (pc : Worker τ) (history : List (Entry n τ))
    (q : Fin n) : (s.setWorker i pc).line history q =
      history.filterMap (Entry.started? q) ++
        (if q = i then pc.popped else (s.worker q).popped) ++ s.tasks q := by
  by_cases hq : q = i
  · subst hq
    rw [line, setWorker_self, if_pos rfl]
    rfl
  · rw [line, setWorker_of_ne s pc hq, if_neg hq]
    rfl

theorem setTasks_tasks (s : Executor n τ) (i : Fin n) (tasks : List τ) (q : Fin n) :
    (s.setTasks i tasks).tasks q = if q = i then tasks else s.tasks q := by
  simp [setTasks, Function.update_apply]

/-- A worker moves on with the same in its hands. -/
theorem InOrder.setWorker {s : Executor n τ} {history : List (Entry n τ)} (h : s.InOrder history)
    {i : Fin n} {pc : Worker τ} (hpc : pc.popped = (s.worker i).popped) :
    (s.setWorker i pc).InOrder history := by
  refine h.of_line fun q => ?_
  rw [line_setWorker, line]
  by_cases hq : q = i
  · rw [if_pos hq, hpc, hq]
  · rw [if_neg hq]

theorem InOrder.notify {s : Executor n τ} {history : List (Entry n τ)} (h : s.InOrder history)
    (i : Fin n) : (s.notify i).InOrder history :=
  notify_of (P := fun t => t.InOrder history) h fun _ hw => h.setWorker (by rw [hw]; rfl)

theorem InOrder.pop {s : Executor n τ} {history : List (Entry n τ)} (h : s.InOrder history)
    {i : Fin n} {task : τ} {rest : List τ} (hw : (s.worker i).popped = [])
    (htasks : s.tasks i = task :: rest) :
    ((s.setTasks i rest).setWorker i (.holding task false)).InOrder history := by
  refine h.of_line fun q => ?_
  rw [line_setWorker, line, setTasks_tasks]
  by_cases hq : q = i
  · subst hq
    rw [hw, htasks]
    simp [Worker.popped]
  · simp [setTasks, hq]

theorem InOrder.start {s : Executor n τ} {history : List (Entry n τ)} (h : s.InOrder history)
    {i : Fin n} {task : τ} (hw : s.worker i = .holding task false) :
    ({ s with started := s.started ++ [task] }.setWorker i (.busy task false)).InOrder
      (history ++ [Entry.started i task]) := by
  have hline : ∀ q, line ({ s with started := s.started ++ [task] }.setWorker i (.busy task false))
      (history ++ [Entry.started i task]) q = s.line history q := by
    intro q
    rw [line_setWorker, line]
    by_cases hq : q = i
    · subst hq
      simp [hw, Worker.popped, Entry.started?]
    · simp [hq, Ne.symm hq, Entry.started?]
  constructor
  · intro q
    rw [hline]
    simpa [List.filterMap_cons, Entry.pushed?] using h.sublist q
  · intro q
    rw [hline]
    simpa [List.filterMap_cons, Entry.pushed?, Entry.stolen?] using h.perm q

/-- What a thief takes stood at the end of the line. -/
theorem InOrder.steal {s : Executor n τ} {history : List (Entry n τ)} (h : s.InOrder history)
    {i j : Fin n} {task : τ} {rest : List τ} (hw : (s.worker i).popped = [])
    (htasks : s.tasks j = rest ++ [task]) :
    ((s.setTasks j rest).setWorker i (.holding task true)).InOrder
      (history ++ [Entry.stolen j task]) := by
  have hline : ∀ q, s.line history q =
      ((s.setTasks j rest).setWorker i (.holding task true)).line (history ++ [Entry.stolen j task]) q ++
        (if q = j then [task] else []) := by
    intro q
    have hpopped : (if q = i then Worker.popped (.holding task true) else (s.worker q).popped) =
        (s.worker q).popped := by
      by_cases hq : q = i
      · rw [if_pos hq, hq, hw]
        rfl
      · rw [if_neg hq]
    rw [line_setWorker, line, setTasks_tasks]
    change _ = _ ++ (if q = i then _ else (s.worker q).popped) ++ _ ++ _
    rw [hpopped]
    by_cases hq : q = j
    · subst hq
      simp [htasks, List.filterMap_cons, Entry.started?]
    · simp [hq, List.filterMap_cons, Entry.started?]
  constructor
  · intro q
    have hall := h.sublist q
    rw [hline] at hall
    simpa [List.filterMap_cons, Entry.pushed?] using (List.sublist_append_left _ _).trans hall
  · intro q
    have hall := h.perm q
    rw [hline] at hall
    by_cases hq : q = j
    · subst hq
      have hback : (history.filterMap (Entry.stolen? q) ++ [task]).Perm
          (task :: history.filterMap (Entry.stolen? q)) := List.perm_append_singleton _ _
      simp only [if_true, List.append_assoc, List.singleton_append] at hall
      simpa [List.filterMap_cons, Entry.pushed?, Entry.stolen?] using (hback.append_left _).trans hall
    · simpa [List.filterMap_cons, Entry.pushed?, Entry.stolen?, hq, Ne.symm hq] using hall

variable [DecidableEq τ]

theorem InOrder.push {s : Executor n τ} {history : List (Entry n τ)} (h : s.InOrder history)
    (task : τ) (queue : Fin n) :
    (({ s with loaded := s.loaded ++ [task] }.setTasks queue
      (s.tasks queue ++ [task])).setLoad task (.pushed queue)).InOrder
        (history ++ [Entry.pushed queue task]) := by
  have hline : ∀ q, (({ s with loaded := s.loaded ++ [task] }.setTasks queue
      (s.tasks queue ++ [task])).setLoad task (.pushed queue)).line
        (history ++ [Entry.pushed queue task]) q =
      s.line history q ++ (if q = queue then [task] else []) := by
    intro q
    by_cases hq : q = queue
    · subst hq
      simp [line, setLoad, setTasks, List.filterMap_cons, Entry.started?]
    · simp [line, setLoad, setTasks, hq, List.filterMap_cons, Entry.started?]
  have hpushed : ∀ q, (history ++ [Entry.pushed queue task]).filterMap (Entry.pushed? q) =
      history.filterMap (Entry.pushed? q) ++ (if q = queue then [task] else []) := by
    intro q
    by_cases hq : q = queue
    · subst hq
      simp [Entry.pushed?]
    · simp [Entry.pushed?, hq, Ne.symm hq]
  refine ⟨fun q => ?_, fun q => ?_⟩
  · rw [hline, hpushed]
    exact (h.sublist q).append_right _
  · rw [hline, hpushed, List.filterMap_append]
    change (_ ++ (_ ++ [])).Perm _
    rw [List.append_nil, List.append_assoc]
    refine (List.perm_append_comm.append_left _).trans ?_
    rw [← List.append_assoc]
    exact (h.perm q).append_right _

theorem InOrder.step {s s' : Executor n τ} {a : Action n τ} {history : List (Entry n τ)}
    (h : s.InOrder history) (hstep : Step s a s') :
    s'.InOrder (history ++ (s.record? a).toList) := by
  have hquiet : s'.InOrder history → s.record? a = none →
      s'.InOrder (history ++ (s.record? a).toList) := by
    intro hs hnone
    rw [hnone]
    simpa using hs
  cases hstep with
  | enter i hw | leave i hw | lock i hw | ready i hw | sleep i hw | block i hw | woken i hw
  | popEmpty i hw | search i hw | again i hw | attempt i k hw | giveUp i k hw =>
      exact hquiet (h.setWorker (by rw [hw]; rfl)) (by simp [record?, hw])
  | spurious i notified hw | tryLockFails i k hw =>
      exact hquiet (h.setWorker (by rw [hw]; rfl)) rfl
  | stealEmpty i k hw hlock htasks =>
      exact hquiet (h.setWorker (by rw [hw]; rfl)) (by simp [record?, hw, htasks])
  | pop i task rest hw htasks =>
      exact hquiet (h.pop (by rw [hw]; rfl) htasks) (by simp [record?, hw])
  | start i task stolen hw =>
      cases stolen with
      | true =>
          refine hquiet ?_ (by simp [record?, hw])
          exact InOrder.setWorker (s := { s with started := s.started ++ [task] })
            ⟨h.sublist, h.perm⟩ (by simp [hw, Worker.popped])
      | false =>
          have hrecord : s.record? (.worker i) = some (.started i task) := by simp [record?, hw]
          rw [hrecord]
          exact h.start hw
  | finish i task stolen hw =>
      refine hquiet ?_ (by simp [record?, hw])
      refine InOrder.setWorker (s := { s with finished := s.finished ++ [task] })
        ⟨h.sublist, h.perm⟩ ?_
      cases stolen <;> simp [hw, Worker.popped]
  | steal i k task rest hw hlock htasks =>
      have hrecord : s.record? (.worker i) = some (.stolen (target i k) task) := by
        simp [record?, hw, htasks]
      rw [hrecord]
      exact h.steal (by rw [hw]; rfl) htasks
  | fetchAdd task queue hl =>
      exact hquiet ⟨h.sublist, h.perm⟩ (by simp [record?, hl])
  | push task queue hl hlock =>
      have hrecord : s.record? (.load task) = some (.pushed queue task) := by simp [record?, hl]
      rw [hrecord]
      exact h.push task queue
  | notifyOne task queue hl =>
      have hnotify := h.notify queue
      exact hquiet ⟨hnotify.sublist, hnotify.perm⟩ (by simp [record?, hl])
  | finalize i hs =>
      have hnotify := h.notify i
      exact hquiet ⟨hnotify.sublist, hnotify.perm⟩ rfl
  | stopCalled hs | store hs | stopped i hs | joined i hs =>
      exact hquiet ⟨h.sublist, h.perm⟩ rfl

/-! ## Every run -/

/-- In every run, whatever is stolen from a queue: the tasks that its own worker has started, the
one it is about to start and the ones that still wait there are in the order of their pushes, and
all the others were stolen. -/
theorem starts_in_order {s : Executor n τ} {history : List (Entry n τ)}
    (hs : ((machine n τ).recorded record?).Reachable (s, history)) (q : Fin n) :
    (history.filterMap (Entry.started? q) ++ (s.worker q).popped ++ s.tasks q).Sublist
        (history.filterMap (Entry.pushed? q)) ∧
      (history.filterMap (Entry.started? q) ++ (s.worker q).popped ++ s.tasks q ++
        history.filterMap (Entry.stolen? q)).Perm (history.filterMap (Entry.pushed? q)) := by
  have horder : s.InOrder history := by
    refine hs.invariant (P := fun s => s.1.InOrder s.2) inOrder_init ?_
    rintro ⟨s, history⟩ a _ h - hboth
    obtain ⟨next, hnext, rfl⟩ := Option.map_eq_some_iff.mp hboth
    exact h.step (step_cases hnext)
  exact ⟨horder.sublist q, horder.perm q⟩

/-- Three tasks in one queue of two; the last of them is stolen. -/
theorem starts_in_order_stolen :
    ∃ (s : Executor 2 ℕ) (history : List (Entry 2 ℕ)),
      ((machine 2 ℕ).recorded record?).run (init, [])
        [.load 5, .load 5, .load 6, .load 6, .load 7, .load 7, .worker 0, .worker 0, .worker 0,
          .worker 0, .worker 0, .worker 1, .worker 1, .worker 1, .worker 1, .worker 1, .worker 1,
          .worker 1, .worker 1, .worker 1] = some (s, history) ∧
      history.filterMap (Entry.pushed? 0) = [5, 7] ∧ history.filterMap (Entry.stolen? 0) = [7] ∧
      (history.filterMap (Entry.started? 0) ++ (s.worker 0).popped ++ s.tasks 0).Sublist [5, 7] := by
  obtain ⟨s, history, hrun, hpushed, hstolen⟩ : ∃ (s : Executor 2 ℕ) (history : List (Entry 2 ℕ)),
      ((machine 2 ℕ).recorded record?).run (init, [])
        [.load 5, .load 5, .load 6, .load 6, .load 7, .load 7, .worker 0, .worker 0, .worker 0,
          .worker 0, .worker 0, .worker 1, .worker 1, .worker 1, .worker 1, .worker 1, .worker 1,
          .worker 1, .worker 1, .worker 1] = some (s, history) ∧
      history.filterMap (Entry.pushed? 0) = [5, 7] ∧ history.filterMap (Entry.stolen? 0) = [7] :=
    ⟨_, _, rfl, rfl, rfl⟩
  have horder := (starts_in_order (Machine.reachable_of_run hrun) 0).1
  exact ⟨s, history, hrun, hpushed, hstolen, hpushed ▸ horder⟩

/-! ## One worker -/

/-- With a single worker the tasks pass through its queue and its hands. -/
structure Serial (s : Executor 1 τ) : Prop where
  alone : (s.worker 0).alone = true
  loaded : s.started ++ (s.worker 0).popped ++ s.tasks 0 = s.loaded
  started : s.finished ++ (s.worker 0).current = s.started

omit [DecidableEq τ] in
theorem serial_init : (init : Executor 1 τ).Serial :=
  ⟨rfl, rfl, rfl⟩

omit [DecidableEq τ] in
theorem Serial.setWorker {s : Executor 1 τ} (h : s.Serial) {i : Fin 1} {pc : Worker τ}
    (halone : pc.alone = true) (hpopped : pc.popped = (s.worker i).popped)
    (hcurrent : pc.current = (s.worker i).current) : (s.setWorker i pc).Serial := by
  obtain rfl : i = 0 := Subsingleton.elim i 0
  constructor
  · rwa [setWorker_self]
  · rw [setWorker_self, hpopped]
    exact h.loaded
  · rw [setWorker_self, hcurrent]
    exact h.started

omit [DecidableEq τ] in
theorem Serial.notify {s : Executor 1 τ} (h : s.Serial) (i : Fin 1) : (s.notify i).Serial :=
  notify_of h fun _ hw => h.setWorker rfl (by rw [hw]; rfl) (by rw [hw]; rfl)

theorem Serial.step {s s' : Executor 1 τ} {a : Action 1 τ} (h : s.Serial) (hstep : Step s a s') :
    s'.Serial := by
  have hplace := h.alone
  have hloaded := h.loaded
  have hstarted := h.started
  cases hstep with
  | enter i hw | leave i hw | lock i hw | ready i hw | sleep i hw | block i hw | woken i hw
  | spurious i notified hw | popEmpty i hw | search i hw | again i hw | giveUp i k hw =>
      exact h.setWorker rfl (by rw [hw]; rfl) (by rw [hw]; rfl)
  | attempt i k hw hk =>
      obtain rfl : i = 0 := Subsingleton.elim i 0
      rw [hw] at hplace
      simp only [Worker.alone, decide_eq_true_eq] at hplace
      omega
  | tryLockFails i k hw | stealEmpty i k hw | steal i k task rest hw =>
      obtain rfl : i = 0 := Subsingleton.elim i 0
      rw [hw] at hplace
      cases hplace
  | pop i task rest hw htasks =>
      obtain rfl : i = 0 := Subsingleton.elim i 0
      rw [hw, htasks] at hloaded
      rw [hw] at hstarted
      refine ⟨by rw [setWorker_self]; rfl, ?_, by rw [setWorker_self]; exact hstarted⟩
      rw [setWorker_self]
      change s.started ++ [task] ++ Function.update s.tasks 0 rest 0 = s.loaded
      rw [Function.update_self, ← hloaded]
      simp [Worker.popped]
  | start i task stolen hw =>
      obtain rfl : i = 0 := Subsingleton.elim i 0
      cases stolen with
      | true =>
          rw [hw] at hplace
          cases hplace
      | false =>
          rw [hw] at hloaded hstarted
          refine ⟨by rw [setWorker_self]; rfl, ?_, ?_⟩
          · rw [setWorker_self]
            change s.started ++ [task] ++ [] ++ s.tasks 0 = s.loaded
            simpa [Worker.popped] using hloaded
          · rw [setWorker_self]
            change s.finished ++ [task] = s.started ++ [task]
            simpa [Worker.current] using hstarted
  | finish i task stolen hw =>
      obtain rfl : i = 0 := Subsingleton.elim i 0
      rw [hw] at hloaded hstarted
      refine ⟨?_, ?_, ?_⟩
      · rw [setWorker_self]
        cases stolen <;> rfl
      · rw [setWorker_self]
        cases stolen <;> exact hloaded
      · rw [setWorker_self]
        change s.finished ++ [task] ++ _ = s.started
        rw [← hstarted]
        cases stolen <;> exact List.append_nil _
  | push task queue hl hlock =>
      obtain rfl : queue = 0 := Subsingleton.elim queue 0
      refine ⟨hplace, ?_, hstarted⟩
      change s.started ++ (s.worker 0).popped ++ Function.update s.tasks 0 (s.tasks 0 ++ [task]) 0 =
        s.loaded ++ [task]
      rw [Function.update_self, ← hloaded, ← List.append_assoc]
  | notifyOne task queue hl =>
      have hnotify := h.notify queue
      exact ⟨hnotify.alone, hnotify.loaded, hnotify.started⟩
  | finalize i hs =>
      have hnotify := h.notify i
      exact ⟨hnotify.alone, hnotify.loaded, hnotify.started⟩
  | fetchAdd | stopCalled | store | stopped | joined => exact ⟨hplace, hloaded, hstarted⟩

/-- An executor with one worker runs the tasks one at a time, in the order in which they entered
its queue: the ones that were started, the one about to be and the ones that wait make up that
order, and of those that were started all but the last are finished. -/
theorem runs_one_by_one {s : Executor 1 τ} (h : (machine 1 τ).Reachable s) :
    s.started ++ (s.worker 0).popped ++ s.tasks 0 = s.loaded ∧
      s.finished ++ (s.worker 0).current = s.started := by
  have hserial : s.Serial :=
    h.invariant serial_init fun _ _ _ hs _ hstep => hs.step (step_cases hstep)
  exact ⟨hserial.loaded, hserial.started⟩

theorem runs_one_by_one_two :
    ∃ s : Executor 1 ℕ, (machine 1 ℕ).run init
        [.load 5, .load 6, .load 6, .load 5, .worker 0, .worker 0, .worker 0, .worker 0,
          .worker 0] = some s ∧
      s.started = [6] ∧ s.loaded = [6, 5] ∧ [6] ++ (s.worker 0).popped ++ s.tasks 0 = [6, 5] := by
  obtain ⟨s, hrun, hstarted, hloaded⟩ : ∃ s : Executor 1 ℕ, (machine 1 ℕ).run init
        [.load 5, .load 6, .load 6, .load 5, .worker 0, .worker 0, .worker 0, .worker 0,
          .worker 0] = some s ∧
      s.started = [6] ∧ s.loaded = [6, 5] := ⟨_, rfl, rfl, rfl⟩
  have horder := (runs_one_by_one (Machine.reachable_of_run hrun)).1
  rw [hstarted, hloaded] at horder
  exact ⟨s, hrun, hstarted, hloaded, horder⟩

end Executor

end CommonLib.TaskExecutor
