import CommonLib.Verification.Misc.NextPower
import CommonLib.Verification.TaskExecutor.Equations
import Mathlib.Order.Interval.Finset.Nat

/-! # The queues that `load` picks

There is a power of two of queues. So the mask is a remainder, and the counter keeps its place in the
round when it wraps, since the power divides `2 ^ 32`. -/

namespace CommonLib.TaskExecutor

/-! ## Rounds -/

theorem map_mod_range'_congr {n a b : ℕ} (h : a % n = b % n) (len : ℕ) :
    (List.range' a len).map (· % n) = (List.range' b len).map (· % n) := by
  rw [List.range'_eq_map_range, List.range'_eq_map_range, List.map_map, List.map_map]
  apply List.map_congr_left
  intro i _
  simp only [Function.comp_apply]
  rw [Nat.add_mod, h, ← Nat.add_mod]

/-- Among `n` consecutive numbers every remainder occurs once. -/
theorem count_map_mod_range' {n r : ℕ} (start : ℕ) (hr : r < n) :
    ((List.range' start n).map (· % n)).count r = 1 := by
  have hinj := Nat.mod_injOn_Ico start n
  apply List.count_eq_one_of_mem
  · refine List.Nodup.map_on ?_ List.nodup_range'
    intro x hx y hy hxy
    apply hinj
    · simpa using hx
    · simpa using hy
    · exact hxy
  · have hmem : r ∈ (Finset.Ico start (start + n)).image (· % n) := by
      rw [Nat.image_Ico_mod]
      exact Finset.mem_range.mpr hr
    simpa using hmem

theorem land_mask {n k : ℕ} (hn : n = 2 ^ k) (x : ℕ) : x &&& (n - 1) = x % n := by
  rw [hn, Nat.and_two_pow_sub_one_eq_mod]

theorem wrap_mod {n k : ℕ} (hn : n = 2 ^ k) (hk : k ≤ 32) (x : ℕ) : x % 2 ^ 32 % n = x % n := by
  rw [hn, Nat.mod_mod_of_dvd _ (Nat.pow_dvd_pow 2 hk)]

namespace Executor

variable {n : ℕ} {τ : Type*}

/-- The queue that a step has picked for its task, if it is the first one of a `load`. -/
def ticket? (s s' : Executor n τ) : Action n τ → Option (Fin n)
  | .load task =>
      match s.load task, s'.load task with
      | .idle, .indexed queue => some queue
      | _, _ => none
  | _ => none

variable [DecidableEq τ]

/-- The queues that the calls of `load` pick in a run, in the order of their tickets. -/
def tickets (s : Executor n τ) : List (Action n τ) → List (Fin n)
  | [] => []
  | a :: actions =>
      match s.step a with
      | none => []
      | some s' => (s.ticket? s' a).toList ++ s'.tickets actions

/-- Only the step that picks a queue counts, and it picks the one of the counter. -/
theorem ticket_cases {s s' : Executor n τ} {a : Action n τ} (h : s.step a = some s') :
    (s.ticket? s' a = none ∧ s'.index = s.index) ∨
      ∃ queue, s.ticket? s' a = some queue ∧ queue.val = s.index.toNat &&& (n - 1) ∧
        s'.index = s.index + 1 := by
  cases step_cases h with
  | fetchAdd task queue hl hqueue => exact .inr ⟨queue, by simp [ticket?, hl, setLoad], hqueue, rfl⟩
  | push task queue hl hlock => simp [ticket?, hl, setLoad, setTasks]
  | notifyOne task queue hl => simp [ticket?, hl, setLoad]
  | _ => simp [ticket?, setWorker, setTasks]

/-- Each ticket is the remainder of its number, also behind the wrap of the counter. -/
theorem tickets_val {k : ℕ} (hn : n = 2 ^ k) (hk : k ≤ 32) (s : Executor n τ)
    (actions : List (Action n τ)) :
    (s.tickets actions).map Fin.val =
      (List.range' s.index.toNat (s.tickets actions).length).map (· % n) := by
  induction actions generalizing s with
  | nil => rfl
  | cons a actions ih =>
      cases hstep : s.step a with
      | none => simp [tickets, hstep]
      | some s' =>
          have hrest := ih s'
          rcases ticket_cases hstep with ⟨hticket, hindex⟩ | ⟨queue, hticket, hqueue, hindex⟩
          · rw [hindex] at hrest
            simpa [tickets, hstep, hticket] using hrest
          · have hfirst : queue.val = s.index.toNat % n := by rw [hqueue, land_mask hn]
            have hnext : s'.index.toNat % n = (s.index.toNat + 1) % n := by
              rw [hindex, UInt32.toNat_add, UInt32.toNat_one, wrap_mod hn hk]
            rw [map_mod_range'_congr hnext] at hrest
            simp [tickets, hstep, hticket, hfirst, hrest, List.range'_succ]

/-- A `load` that has not begun can always take its ticket. -/
theorem exists_ticket {s : Executor n τ} {task : τ} (hlt : s.index.toNat &&& (n - 1) < n)
    (hl : s.load task = .idle) :
    ∃ s' queue, s.step (.load task) = some s' ∧ s'.load task = .indexed queue ∧
      queue.val = s.index.toNat &&& (n - 1) := by
  refine ⟨{ s with index := s.index + 1 }.setLoad task (.indexed ⟨_, hlt⟩), ⟨_, hlt⟩, ?_, ?_, rfl⟩
  · simp [step, stepLoad, hl, hlt]
  · simp [setLoad]

/-- The task is pushed to the queue of its ticket. -/
theorem tasks_of_indexed {s s' : Executor n τ} {task : τ} {queue : Fin n}
    (hl : s.load task = .indexed queue) (h : s.step (.load task) = some s') :
    s'.tasks = Function.update s.tasks queue (s.tasks queue ++ [task]) := by
  cases step_cases h with
  | fetchAdd _ _ hidle => cases hidle.symm.trans hl
  | push _ queue' hindexed =>
      obtain rfl : queue' = queue := Load.indexed.inj (hindexed.symm.trans hl)
      rfl
  | notifyOne _ _ hpushed => cases hpushed.symm.trans hl

/-- A window of as many tickets as there are queues. -/
theorem count_window {k : ℕ} (hn : n = 2 ^ k) (hk : k ≤ 32) {s : Executor n τ}
    {actions : List (Action n τ)} {before window after : List (Fin n)}
    (h : s.tickets actions = before ++ window ++ after) (hlen : window.length = n)
    (queue : Fin n) : window.count queue = 1 := by
  have hval := tickets_val hn hk s actions
  rw [h, List.map_append, List.map_append, eq_comm, List.map_eq_append_iff] at hval
  obtain ⟨front, _, hrange, hfront, -⟩ := hval
  obtain ⟨_, numbers, rfl, -, hwindow⟩ := List.map_eq_append_iff.mp hfront
  obtain ⟨_, -, hfront, -⟩ := List.range'_eq_append_iff.mp hrange
  obtain ⟨_, -, -, rfl⟩ := List.range'_eq_append_iff.mp hfront.symm
  have hsize := congrArg List.length hwindow
  rw [List.length_map, List.length_map, List.length_range', hlen] at hsize
  rw [hsize] at hwindow
  rw [← List.count_map_of_injective window Fin.val Fin.val_injective, ← hwindow]
  exact count_map_mod_range' _ queue.isLt

theorem adjustedThreadCount_eq {threadCount : ℕ} (h : threadCount ≤ 2 ^ 31) :
    ∃ k ≤ 31, adjustedThreadCount threadCount = 2 ^ k := by
  have hleast := Utils.isLeast_nextPwrOf2 h
  obtain ⟨⟨k, hk⟩, -⟩ := hleast.1
  have hle : 2 ^ k ≤ 2 ^ 31 :=
    hk ▸ hleast.2 ⟨⟨31, rfl⟩, Nat.max_le.mpr ⟨h, Nat.one_le_two_pow⟩⟩
  exact ⟨k, (Nat.pow_le_pow_iff_right Nat.one_lt_two).mp hle, hk⟩

/-- There is a power of two of queues; whatever the counter is, the index that a `load` computes is
the one of a queue, which it picks and pushes its task to; and any window of as many tickets as there
are queues has each of them once. -/
theorem round_robin {threadCount : ℕ} (h : threadCount ≤ 2 ^ 31) :
    (∃ k, adjustedThreadCount threadCount = 2 ^ k) ∧
    (∀ s : Executor (adjustedThreadCount threadCount) τ,
      s.index.toNat &&& (adjustedThreadCount threadCount - 1) < adjustedThreadCount threadCount) ∧
    (∀ (s : Executor (adjustedThreadCount threadCount) τ) (task : τ), s.load task = .idle →
      ∃ s' queue, s.step (.load task) = some s' ∧ s'.load task = .indexed queue ∧
        queue.val = s.index.toNat &&& (adjustedThreadCount threadCount - 1)) ∧
    (∀ (s s' : Executor (adjustedThreadCount threadCount) τ) (task : τ)
      (queue : Fin (adjustedThreadCount threadCount)), s.load task = .indexed queue →
        s.step (.load task) = some s' →
          s'.tasks = Function.update s.tasks queue (s.tasks queue ++ [task])) ∧
    ∀ (actions : List (Action (adjustedThreadCount threadCount) τ))
      (before window after : List (Fin (adjustedThreadCount threadCount))),
      (create threadCount).tickets actions = before ++ window ++ after →
        window.length = adjustedThreadCount threadCount →
          ∀ queue, window.count queue = 1 := by
  obtain ⟨k, hk, hpow⟩ := adjustedThreadCount_eq h
  have hlt : ∀ s : Executor (adjustedThreadCount threadCount) τ,
      s.index.toNat &&& (adjustedThreadCount threadCount - 1) <
        adjustedThreadCount threadCount := by
    intro s
    rw [land_mask hpow]
    exact Nat.mod_lt _ (hpow ▸ Nat.two_pow_pos k)
  exact ⟨⟨k, hpow⟩, hlt, fun s task => exists_ticket (hlt s),
    fun s s' task queue => tasks_of_indexed,
    fun actions before window after htickets hlen => count_window hpow (by omega) htickets hlen⟩

/-- Three threads are asked for, and four are made; the window crosses from one round to the next. -/
theorem round_robin_three :
    ([⟨1, by decide⟩, ⟨2, by decide⟩, ⟨3, by decide⟩, ⟨0, by decide⟩] :
      List (Fin (adjustedThreadCount 3))).count ⟨0, by decide⟩ = 1 :=
  (round_robin (τ := ℕ) (by decide)).2.2.2.2 [.load 0, .load 1, .load 2, .load 3, .load 4]
    [⟨0, by decide⟩] _ [] (by rfl) rfl ⟨0, by decide⟩

end Executor

end CommonLib.TaskExecutor
