import CommonLib.Verification.Application.Life
import Mathlib.Data.List.Nodup

/-! # The audit of a strict build

`ResourceManager` holds the resources of the threads whose futures are not ready yet, so the audit
in the destructor of the application finds exactly those. -/

namespace CommonLib.Lifecycle

/-- The resource of the thread is in the set of the manager. -/
def Lambda.holds : Lambda → Bool
  | tracking | working | returned => true
  | absent | entered | released | completed | exited => false

/-- A step of a lambda concerns its own resource; the destructor erases what `release` has erased. -/
theorem Lambda.Moves.mem {κ : Type*} [DecidableEq κ] {strict : Bool} {resource : κ}
    {resources resources' : List κ} {l l' : Lambda}
    (h : Moves strict resource resources l l' resources') (hnodup : resources.Nodup)
    (hheld : resource ∈ resources ↔ strict = true ∧ l.holds = true) :
    resources'.Nodup ∧ (resource ∈ resources' ↔ strict = true ∧ l'.holds = true) ∧
      ∀ v, v ≠ resource → (v ∈ resources' ↔ v ∈ resources) := by
  cases h with
  | setInit | setValue => exact ⟨hnodup, hheld, fun _ _ => Iff.rfl⟩
  | track =>
      cases strict with
      | false => exact ⟨hnodup, by simpa [holds] using hheld, fun _ _ => Iff.rfl⟩
      | true =>
          refine ⟨List.Nodup.insert hnodup, by simp [holds], fun v hv => ?_⟩
          simp [List.mem_insert_iff, hv]
  | release | destroy =>
      cases strict with
      | false => exact ⟨hnodup, by simpa [holds] using hheld, fun _ _ => Iff.rfl⟩
      | true =>
          refine ⟨hnodup.erase _, ?_, fun v hv => List.mem_erase_of_ne hv⟩
          simp [holds, hnodup.not_mem_erase]

namespace Application

/-- The resource of that thread is in the set, the one of the application's thread for `none`. -/
def holds (s : Application) : Option ℕ → Bool
  | none => s.lambda.holds
  | some k => s.workers[k]?.any fun w => w.lambda.holds

/-- The set of the manager. -/
structure Tracked (strict : Bool) (s : Application) : Prop where
  nodup : s.resources.Nodup
  mem : ∀ thread, thread ∈ s.resources ↔ strict = true ∧ s.holds thread = true

theorem tracked_init (strict : Bool) : init.Tracked strict := by
  refine ⟨List.nodup_nil, fun thread => ?_⟩
  cases thread <;> simp [init, holds, Lambda.holds]

theorem Tracked.of_eq {strict : Bool} {s s' : Application} (h : s.Tracked strict)
    (hresources : s'.resources = s.resources) (hholds : ∀ thread, s'.holds thread = s.holds thread) :
    s'.Tracked strict := by
  refine ⟨hresources ▸ h.nodup, fun thread => ?_⟩
  rw [hresources, hholds]
  exact h.mem thread

theorem holds_set {s : Application} {k : ℕ} {w : Worker} (hw : s.workers[k]? = some w) (w' : Worker)
    (thread : Option ℕ) :
    holds { s with workers := s.workers.set k w' } thread =
      if thread = some k then w'.lambda.holds else s.holds thread := by
  cases thread with
  | none => rfl
  | some j =>
      by_cases hj : j = k
      · subst hj
        have hlt := (List.getElem?_eq_some_iff.mp hw).1
        simp [holds, hlt]
      · simp [holds, List.getElem?_set_ne (Ne.symm hj), hj]

/-- One thread takes a step, the others hold what they held. -/
theorem Tracked.moves {strict : Bool} {s s' : Application} (h : s.Tracked strict)
    {thread : Option ℕ} {l l' : Lambda}
    (hmoves : Lambda.Moves strict thread s.resources l l' s'.resources)
    (hold : s.holds thread = l.holds)
    (hnew : ∀ v, s'.holds v = if v = thread then l'.holds else s.holds v) : s'.Tracked strict := by
  have hheld := h.mem thread
  rw [hold] at hheld
  obtain ⟨hnodup, hself, hother⟩ := hmoves.mem h.nodup hheld
  refine ⟨hnodup, fun v => ?_⟩
  rw [hnew]
  by_cases hv : v = thread
  · subst hv
    rw [if_pos rfl]
    exact hself
  · rw [if_neg hv, hother v hv]
    exact h.mem v

theorem Tracked.step {strict : Bool} {s s' : Application} {a : Action} (h : s.Tracked strict)
    (hstep : Step strict s a s') : s'.Tracked strict := by
  cases hstep with
  | start hmain hlambda =>
      refine h.of_eq rfl fun thread => ?_
      cases thread with
      | none => rcases hlambda with hl | hl <;> simp [holds, hl, Lambda.holds]
      | some k => rfl
  | closed hplace =>
      refine h.of_eq rfl fun thread => ?_
      cases thread with
      | none => simp [holds, hplace.1, Lambda.holds]
      | some k => rfl
  | lambda next resources hnext =>
      have hnew : ∀ v, holds { s with lambda := next, resources := resources } v =
          if v = none then next.holds else s.holds v := by
        intro v
        cases v <;> rfl
      exact h.moves (Lambda.moves_of_next hnext) rfl hnew
  | spawn unblocked hmask =>
      refine h.of_eq rfl fun thread => ?_
      cases thread with
      | none => rfl
      | some k =>
          rcases Nat.lt_trichotomy k s.workers.length with hlt | rfl | hgt
          · simp [holds, List.getElem?_append_left hlt]
          · simp [holds, Lambda.holds]
          · have hlength : (s.workers ++ [(⟨.entered, unblocked⟩ : Worker)]).length ≤ k := by
              rw [List.length_append, List.length_singleton]
              omega
            simp [holds, List.getElem?_eq_none hlength, List.getElem?_eq_none hgt.le]
  | worker k w next resources hw hnext =>
      refine h.moves (Lambda.moves_of_next hnext) (by simp [holds, hw]) fun v => ?_
      exact holds_set hw _ v
  | returns k unblocked hw =>
      refine h.of_eq rfl fun thread => ?_
      rw [holds_set hw]
      by_cases hthread : thread = some k
      · subst hthread
        simp [holds, hw, Lambda.holds]
      · rw [if_neg hthread]
  | run | initialized | returned | destroy | running | stop | listen | told | ignored | bootup
  | shutdown | booted | stopped | throws | take | fail | raise | kill =>
      exact h.of_eq rfl fun thread => by cases thread <;> rfl

theorem Reachable.tracked {strict : Bool} {s : Application} (h : (machine strict).Reachable s) :
    s.Tracked strict :=
  h.invariant (tracked_init strict) fun _ _ _ hs _ hstep => hs.step (step_cases hstep).2.2

/-- In a strict build, and only there, the manager holds the resources of exactly the threads
between `track` and `release`; none of them has a ready future. So the destructor of the
application, behind `run`, terminates the program if and only if another thread is still there. -/
theorem audit_finds_threads {strict : Bool} {s : Application}
    (h : (machine strict).Reachable s) :
    s.resources.Nodup ∧
    (∀ thread, thread ∈ s.resources ↔ strict = true ∧ s.holds thread = true) ∧
    (s.main = .idle → s.killed = false → s.terminated = false →
      ∃ s', (machine strict).step s .destroy = some s' ∧
        (s'.terminated = true ↔ strict = true ∧ ∃ w ∈ s.workers, w.lambda.holds = true)) := by
  have htracked := Reachable.tracked h
  refine ⟨htracked.nodup, htracked.mem, fun hmain halive hlive => ?_⟩
  refine ⟨_, (Step.destroy hmain).step_eq halive hlive, ?_⟩
  have hown : s.lambda.holds = false := by
    have hresting := (Reachable.placed h).resting (by rw [hmain]; rfl)
    cases hl : s.lambda <;> simp [hl, Lambda.resting] at hresting <;> rfl
  simp only [Bool.and_eq_true, decide_eq_true_eq, ne_eq]
  constructor
  · rintro ⟨hstrict, hleft⟩
    obtain ⟨thread, hthread⟩ := List.exists_mem_of_ne_nil _ hleft
    have hholds := ((htracked.mem thread).mp hthread).2
    cases thread with
    | none =>
        rw [holds, hown] at hholds
        cases hholds
    | some k =>
        cases hw : s.workers[k]? with
        | none => simp [holds, hw] at hholds
        | some w => exact ⟨hstrict, w, List.mem_of_getElem? hw, by simpa [holds, hw] using hholds⟩
  · rintro ⟨hstrict, w, hw, hheld⟩
    obtain ⟨k, hk⟩ := List.mem_iff_getElem?.mp hw
    have hmem : some k ∈ s.resources := (htracked.mem _).mpr ⟨hstrict, by simp [holds, hk, hheld]⟩
    exact ⟨hstrict, List.ne_nil_of_mem hmem⟩

/-- A thread that `bootup` started is still at work when `run` returns. -/
theorem audit_finds_threads_one :
    ∃ s s', (machine true).run init [.run, .main, .thread, .thread, .main, .spawn false, .worker 0,
        .worker 0, .bootup false, .thread, .thread, .raise .sigterm, .take .sigterm, .thread, .thread,
        .shutdown false, .thread, .thread, .thread, .main] = some s ∧
      s.resources = [some 0] ∧ (machine true).step s .destroy = some s' ∧ s'.terminated = true := by
  obtain ⟨s, hrun, hmain, halive, hlive, hresources, hworkers⟩ : ∃ s, (machine true).run init
        [.run, .main, .thread, .thread, .main, .spawn false, .worker 0, .worker 0, .bootup false,
          .thread, .thread, .raise .sigterm, .take .sigterm, .thread, .thread, .shutdown false,
          .thread, .thread, .thread, .main] = some s ∧ s.main = .idle ∧ s.killed = false ∧
      s.terminated = false ∧ s.resources = [some 0] ∧ s.workers = [⟨.working, false⟩] :=
    ⟨_, rfl, rfl, rfl, rfl, rfl, rfl⟩
  obtain ⟨-, -, haudit⟩ := audit_finds_threads (Machine.reachable_of_run hrun)
  obtain ⟨s', hdestroy, hiff⟩ := haudit hmain halive hlive
  exact ⟨s, s', hrun, hresources, hdestroy, hiff.mpr ⟨rfl, by simp [hworkers, Lambda.holds]⟩⟩

end Application

end CommonLib.Lifecycle
