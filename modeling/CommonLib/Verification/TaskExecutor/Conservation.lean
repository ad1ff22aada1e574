import CommonLib.Library.Places
import CommonLib.Verification.TaskExecutor.Equations
import Mathlib.Data.Fintype.Sum
import Mathlib.Tactic.DeriveFintype

/-! # Tasks are neither lost nor duplicated

Queues, hands of workers and the finished tasks are the places of a task. Every step moves at
most one task from one place to another, and only `push` brings one in. -/

namespace CommonLib.TaskExecutor

variable {n : ℕ} {τ : Type*}

/-! ## Places -/

inductive Place (n : ℕ)
  | queue (i : Fin n)
  | hands (i : Fin n)
  | finished
  deriving DecidableEq, Fintype

/-- The task that a worker has popped or stolen and has not finished. -/
def Worker.hands : Worker τ → Multiset τ
  | holding task _ | busy task _ => {task}
  | _ => 0

/-- The task whose body a worker is executing. -/
def Worker.calling : Worker τ → Multiset τ
  | busy task _ => {task}
  | _ => 0

/-- The task has been pushed to a queue. -/
def Load.Pushed : Load n → Prop
  | idle | indexed _ => False
  | pushed _ | returned => True

namespace Executor

def content (s : Executor n τ) : Place n → Multiset τ
  | .queue i => s.tasks i
  | .hands i => (s.worker i).hands
  | .finished => s.finished

/-- The tasks whose body has been started, by place. -/
def begun (s : Executor n τ) : Place n → Multiset τ
  | .queue _ => 0
  | .hands i => (s.worker i).calling
  | .finished => s.finished

theorem begun_le_content (s : Executor n τ) (k : Place n) : s.begun k ≤ s.content k := by
  cases k with
  | queue i => exact Multiset.zero_le _
  | hands i => cases h : s.worker i <;> simp [begun, content, h, Worker.calling, Worker.hands]
  | finished => exact le_rfl

theorem content_setWorker (s : Executor n τ) (i : Fin n) (pc : Worker τ) :
    (s.setWorker i pc).content = Function.update s.content (.hands i) pc.hands := by
  funext k
  by_cases hk : k = .hands i
  · subst hk
    simp [content]
  · rw [Function.update_of_ne hk]
    cases k with
    | hands j => exact congrArg Worker.hands (setWorker_of_ne s pc (by simpa using hk))
    | queue j | finished => rfl

theorem begun_setWorker (s : Executor n τ) (i : Fin n) (pc : Worker τ) :
    (s.setWorker i pc).begun = Function.update s.begun (.hands i) pc.calling := by
  funext k
  by_cases hk : k = .hands i
  · subst hk
    simp [begun]
  · rw [Function.update_of_ne hk]
    cases k with
    | hands j => exact congrArg Worker.calling (setWorker_of_ne s pc (by simpa using hk))
    | queue j | finished => rfl

theorem content_setTasks (s : Executor n τ) (i : Fin n) (tasks : List τ) :
    (s.setTasks i tasks).content = Function.update s.content (.queue i) ↑tasks := by
  funext k
  by_cases hk : k = .queue i
  · subst hk
    simp [content, setTasks]
  · rw [Function.update_of_ne hk]
    cases k with
    | queue j =>
        have hj : j ≠ i := fun heq => hk (heq ▸ rfl)
        simp [content, setTasks, hj]
    | hands j | finished => rfl

@[simp] theorem begun_setTasks (s : Executor n τ) (i : Fin n) (tasks : List τ) :
    (s.setTasks i tasks).begun = s.begun := by
  funext k
  cases k <;> rfl

theorem content_finished (s : Executor n τ) (finished : List τ) :
    ({ s with finished := finished } : Executor n τ).content =
      Function.update s.content .finished ↑finished := by
  funext k
  cases k <;> simp [content]

theorem begun_finished (s : Executor n τ) (finished : List τ) :
    ({ s with finished := finished } : Executor n τ).begun =
      Function.update s.begun .finished ↑finished := by
  funext k
  cases k <;> simp [begun]

/-- Every loaded task is in one place, once, and the started ones are accounted for. -/
structure Conserved (s : Executor n τ) : Prop where
  total : ∑ k, s.content k = s.loaded
  once : s.loaded.Nodup
  pushed : ∀ task, task ∈ s.loaded ↔ (s.load task).Pushed
  started : ∑ k, s.begun k = s.started

theorem conserved_init : (init : Executor n τ).Conserved where
  total := by
    refine Finset.sum_eq_zero fun k _ => ?_
    cases k <;> rfl
  once := List.nodup_nil
  pushed task := by simp [init, Load.Pushed]
  started := by
    refine Finset.sum_eq_zero fun k _ => ?_
    cases k <;> rfl

/-! ## One step -/

/-- A worker moves on with the same hands. -/
theorem Conserved.quiet {s : Executor n τ} (h : s.Conserved) {i : Fin n} {pc : Worker τ}
    (hhands : pc.hands = (s.worker i).hands) (hcalling : pc.calling = (s.worker i).calling) :
    (s.setWorker i pc).Conserved := by
  have hcontent : (s.setWorker i pc).content = s.content := by
    rw [content_setWorker, hhands]
    exact Function.update_eq_self _ _
  have hbegun : (s.setWorker i pc).begun = s.begun := by
    rw [begun_setWorker, hcalling]
    exact Function.update_eq_self _ _
  exact ⟨hcontent ▸ h.total, h.once, h.pushed, hbegun ▸ h.started⟩

/-- A worker takes a task out of a queue. -/
theorem Conserved.takes {s : Executor n τ} (h : s.Conserved) {i j : Fin n} {task : τ}
    {rest : List τ} {stolen : Bool} (hhands : (s.worker i).hands = 0)
    (hcalling : (s.worker i).calling = 0) (htasks : (s.tasks j).Perm (task :: rest)) :
    ((s.setTasks j rest).setWorker i (.holding task stolen)).Conserved := by
  have hne : Place.queue j ≠ Place.hands i := by simp
  have hfrom : s.content (.queue j) = task ::ₘ ↑rest := Multiset.coe_eq_coe.mpr htasks
  have hto : s.content (.hands i) = 0 := hhands
  have hbegun : ((s.setTasks j rest).setWorker i (.holding task stolen)).begun = s.begun := by
    rw [begun_setWorker, begun_setTasks]
    exact Function.update_eq_self_iff.mpr hcalling.symm
  refine ⟨.trans ?_ h.total, h.once, h.pushed, hbegun ▸ h.started⟩
  rw [content_setWorker, content_setTasks]
  refine sum_move hne (x := task) ?_ ?_ fun k hk hk' => ?_
  · rw [hfrom, Function.update_of_ne hne, Function.update_self]
  · rw [hto, Function.update_self]
    rfl
  · rw [Function.update_of_ne hk', Function.update_of_ne hk]

theorem Conserved.start {s : Executor n τ} (h : s.Conserved) {i : Fin n} {task : τ}
    {stolen : Bool} (hw : s.worker i = .holding task stolen) :
    ({ s with started := s.started ++ [task] }.setWorker i (.busy task stolen)).Conserved := by
  have hcontent : ({ s with started := s.started ++ [task] }.setWorker i
      (.busy task stolen)).content = s.content := by
    rw [content_setWorker]
    apply Function.update_eq_self_iff.mpr
    change {task} = (s.worker i).hands
    rw [hw]
    rfl
  refine ⟨hcontent ▸ h.total, h.once, h.pushed, ?_⟩
  have hnone : s.begun (.hands i) = 0 := by
    change (s.worker i).calling = 0
    rw [hw]
    rfl
  calc ∑ k, ({ s with started := s.started ++ [task] }.setWorker i (.busy task stolen)).begun k
      = task ::ₘ ∑ k, s.begun k := by
        rw [begun_setWorker]
        refine sum_add_of_eq_off (k := .hands i) ?_ fun k hk => Function.update_of_ne hk _ _
        rw [Function.update_self, hnone]
        rfl
    _ = ↑(s.started ++ [task]) := by
        rw [h.started]
        exact Multiset.coe_eq_coe.mpr (List.perm_append_singleton task _).symm

theorem Conserved.finish {s : Executor n τ} (h : s.Conserved) {i : Fin n} {task : τ}
    {stolen : Bool} (hw : s.worker i = .busy task stolen) {pc : Worker τ} (hhands : pc.hands = 0)
    (hcalling : pc.calling = 0) :
    ({ s with finished := s.finished ++ [task] }.setWorker i pc).Conserved := by
  have hne : Place.hands i ≠ Place.finished := by simp
  have hconcat : (↑(s.finished ++ [task]) : Multiset τ) = task ::ₘ ↑s.finished :=
    Multiset.coe_eq_coe.mpr (List.perm_append_singleton task _)
  have hcontent : s.content (.hands i) = {task} := by
    change (s.worker i).hands = {task}
    rw [hw]
    rfl
  have hbegun : s.begun (.hands i) = {task} := by
    change (s.worker i).calling = {task}
    rw [hw]
    rfl
  refine ⟨.trans ?_ h.total, h.once, h.pushed, .trans ?_ h.started⟩
  · rw [content_setWorker, content_finished, hhands]
    refine sum_move hne (x := task) ?_ ?_ fun k hk hk' => ?_
    · rw [hcontent, Function.update_self]
      rfl
    · rw [Function.update_of_ne hne.symm, Function.update_self, hconcat]
      rfl
    · rw [Function.update_of_ne hk, Function.update_of_ne hk']
  · rw [begun_setWorker, begun_finished, hcalling]
    refine sum_move hne (x := task) ?_ ?_ fun k hk hk' => ?_
    · rw [hbegun, Function.update_self]
      rfl
    · rw [Function.update_of_ne hne.symm, Function.update_self, hconcat]
      rfl
    · rw [Function.update_of_ne hk, Function.update_of_ne hk']

theorem Conserved.notify {s : Executor n τ} (h : s.Conserved) (i : Fin n) :
    (s.notify i).Conserved :=
  notify_of h fun _ hw => h.quiet (by rw [hw]; rfl) (by rw [hw]; rfl)

variable [DecidableEq τ]

/-- A `load` call goes on without pushing its task. -/
theorem Conserved.setLoad {s : Executor n τ} (h : s.Conserved) {task : τ} {phase : Load n}
    (hphase : phase.Pushed ↔ (s.load task).Pushed) : (s.setLoad task phase).Conserved := by
  refine ⟨h.total, h.once, fun other => ?_, h.started⟩
  change other ∈ s.loaded ↔ (Function.update s.load task phase other).Pushed
  rw [h.pushed]
  by_cases hother : other = task
  · subst hother
    rw [Function.update_self, hphase]
  · rw [Function.update_of_ne hother]

/-- The task of a `load` call enters its queue, for the first time. -/
theorem Conserved.push {s : Executor n τ} (h : s.Conserved) {task : τ} {queue : Fin n}
    (hl : s.load task = .indexed queue) :
    (({ s with loaded := s.loaded ++ [task] }.setTasks queue
      (s.tasks queue ++ [task])).setLoad task (.pushed queue)).Conserved := by
  have hnew : task ∉ s.loaded := by
    rw [h.pushed, hl]
    exact id
  refine ⟨?_, ?_, fun other => ?_, h.started⟩
  · calc ∑ k, ({ s with loaded := s.loaded ++ [task] }.setTasks queue
          (s.tasks queue ++ [task])).content k
        = task ::ₘ ∑ k, s.content k := by
          rw [content_setTasks]
          refine sum_add_of_eq_off (k := .queue queue) ?_ fun k hk => Function.update_of_ne hk _ _
          rw [Function.update_self]
          exact Multiset.coe_eq_coe.mpr (List.perm_append_singleton task _)
      _ = ↑(s.loaded ++ [task]) := by
          rw [h.total]
          exact Multiset.coe_eq_coe.mpr (List.perm_append_singleton task _).symm
  · exact h.once.append (List.nodup_singleton task) (by simpa using hnew)
  · change other ∈ s.loaded ++ [task] ↔ (Function.update s.load task _ other).Pushed
    by_cases hother : other = task
    · subst hother
      simp [Load.Pushed]
    · rw [Function.update_of_ne hother]
      simpa [hother] using h.pushed other

theorem Conserved.step {s s' : Executor n τ} {a : Action n τ} (h : s.Conserved)
    (hstep : Step s a s') : s'.Conserved := by
  cases hstep with
  | enter i hw | leave i hw | lock i hw | ready i hw | sleep i hw | block i hw | woken i hw
  | spurious i notified hw | popEmpty i hw | search i hw | again i hw | attempt i k hw
  | giveUp i k hw | tryLockFails i k hw | stealEmpty i k hw =>
      exact h.quiet (by rw [hw]; rfl) (by rw [hw]; rfl)
  | pop i task rest hw htasks =>
      exact h.takes (by rw [hw]; rfl) (by rw [hw]; rfl) (by rw [htasks])
  | steal i k task rest hw hlock htasks =>
      apply h.takes (by rw [hw]; rfl) (by rw [hw]; rfl)
      rw [htasks]
      exact List.perm_append_singleton task rest
  | start i task stolen hw => exact h.start hw
  | finish i task stolen hw => exact h.finish hw (by cases stolen <;> rfl) (by cases stolen <;> rfl)
  | fetchAdd task queue hl hqueue =>
      exact Conserved.setLoad (s := { s with index := s.index + 1 })
        ⟨h.total, h.once, h.pushed, h.started⟩ (by simp [hl, Load.Pushed])
  | push task queue hl hlock => exact h.push hl
  | notifyOne task queue hl =>
      apply (h.notify queue).setLoad
      simp [hl, Load.Pushed]
  | finalize i hs =>
      have hnotify := h.notify i
      exact ⟨hnotify.total, hnotify.once, hnotify.pushed, hnotify.started⟩
  | stopCalled hs | store hs | stopped i hs | joined i hs =>
      exact ⟨h.total, h.once, h.pushed, h.started⟩

/-! ## Every run -/

theorem Reachable.conserved {s : Executor n τ} (h : (machine n τ).Reachable s) : s.Conserved :=
  h.invariant conserved_init fun _ _ _ hs _ hstep => hs.step (step_cases hstep)

omit [DecidableEq τ] in
/-- A task that has been pushed is in one place. -/
theorem Conserved.place {s : Executor n τ} (h : s.Conserved) {task : τ}
    (htask : (s.load task).Pushed) : ∃! k, task ∈ s.content k := by
  apply existsUnique_place
  · rw [h.total]
    exact Multiset.coe_nodup.mpr h.once
  · rw [h.total]
    exact (h.pushed task).mpr htask

omit [DecidableEq τ] in
theorem Conserved.pushed_of_mem {s : Executor n τ} (h : s.Conserved) {task : τ} {k : Place n}
    (hk : task ∈ s.content k) : (s.load task).Pushed := by
  have hmem : task ∈ ∑ k, s.content k := Multiset.mem_sum.mpr ⟨k, Finset.mem_univ k, hk⟩
  rw [h.total] at hmem
  exact (h.pushed task).mp hmem

/-- In every reachable state a task that has been pushed is in exactly one place, and once there:
a queue, the hands of a worker, or the finished tasks. One that has not is nowhere, and no body
is started twice. -/
theorem tasks_conserved {s : Executor n τ} (hs : (machine n τ).Reachable s) :
    (∀ task, (s.load task).Pushed → ∃! k, task ∈ s.content k) ∧
    (∀ k, (s.content k).Nodup) ∧
    (∀ task k, task ∈ s.content k → (s.load task).Pushed) ∧
    s.started.Nodup ∧
    ∀ task, task ∈ s.started ↔ (∃ i, task ∈ (s.worker i).calling) ∨ task ∈ s.finished := by
  have h := Reachable.conserved hs
  have hnodup : (∑ k, s.content k).Nodup := by
    rw [h.total]
    exact Multiset.coe_nodup.mpr h.once
  refine ⟨fun task htask => ?_, fun k => ?_, fun task k hk => ?_, ?_, fun task => ?_⟩
  · apply existsUnique_place hnodup
    rw [h.total]
    exact (h.pushed task).mpr htask
  · exact Multiset.nodup_of_le (Finset.single_le_sum (fun _ _ => Multiset.zero_le _)
      (Finset.mem_univ k)) hnodup
  · have hmem : task ∈ ∑ k, s.content k := Multiset.mem_sum.mpr ⟨k, Finset.mem_univ k, hk⟩
    rw [h.total] at hmem
    exact (h.pushed task).mp hmem
  · have hle : (s.started : Multiset τ) ≤ ∑ k, s.content k := by
      rw [← h.started]
      exact Finset.sum_le_sum fun k _ => begun_le_content s k
    exact Multiset.coe_nodup.mp (Multiset.nodup_of_le hle hnodup)
  · rw [← Multiset.mem_coe, ← h.started, Multiset.mem_sum]
    constructor
    · rintro ⟨k, -, hk⟩
      cases k with
      | queue i => simp [begun] at hk
      | hands i => exact .inl ⟨i, hk⟩
      | finished => exact .inr hk
    · rintro (⟨i, hi⟩ | hfinished)
      · exact ⟨.hands i, Finset.mem_univ _, hi⟩
      · exact ⟨.finished, Finset.mem_univ _, hfinished⟩

/-- Two tasks are pushed to two queues; worker 1 runs its own and then steals the other. -/
theorem tasks_conserved_steal :
    ∃ s : Executor 2 ℕ, (machine 2 ℕ).run init
        [.load 5, .load 5, .load 6, .load 6, .load 5, .worker 1, .worker 1, .worker 1, .worker 1,
          .worker 1, .worker 1, .worker 1, .worker 1, .worker 1] = some s ∧
      s.worker 1 = .holding 5 true ∧ s.finished = [6] ∧ (∃! k, 5 ∈ s.content k) ∧
      s.started.Nodup := by
  obtain ⟨s, hrun, hw, hfinished, hpushed⟩ : ∃ s : Executor 2 ℕ, (machine 2 ℕ).run init
        [.load 5, .load 5, .load 6, .load 6, .load 5, .worker 1, .worker 1, .worker 1, .worker 1,
          .worker 1, .worker 1, .worker 1, .worker 1, .worker 1] = some s ∧
      s.worker 1 = .holding 5 true ∧ s.finished = [6] ∧ (s.load 5).Pushed :=
    ⟨_, rfl, rfl, rfl, trivial⟩
  have h := tasks_conserved (Machine.reachable_of_run hrun)
  exact ⟨s, hrun, hw, hfinished, h.1 5 hpushed, h.2.2.2.1⟩

end Executor

end CommonLib.TaskExecutor
