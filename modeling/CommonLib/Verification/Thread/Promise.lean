import CommonLib.Verification.Thread.Phases
import Mathlib.Data.List.Nodup

/-! # Whose promise a thread completes

`_promise` is one member for all starts. A thread reads it last of all, when `_started` is already
down, so a restart of a detached thread may have replaced it by then. -/

namespace CommonLib.Thread

/-- `work` has returned. -/
def Place.returned : Place → Bool
  | .clearStarted | .setPromise | .exited => true
  | _ => false

namespace ThreadDetail

/-- The future of start `k` gets its value once, from the thread of that start, and when its
function has returned. -/
structure OwnFuture (s : ThreadDetail) (k : ℕ) : Prop where
  once : s.completed.count k ≤ 1
  kept : k ∉ s.abandoned
  after : k ∈ s.completed → k ∈ s.returned
  ready : k ∈ s.completed ↔ s.spawned[k]? = some .exited

/-- A start replaces `_promise` only when no earlier thread still has its own to complete. -/
def PreviousDone (s : ThreadDetail) (a : Action) : Prop :=
  a = .caller → s.caller = .promising → ∀ p ∈ s.spawned, p = .exited

/-- Two states that differ in no place and no promise. -/
structure Same (s s' : ThreadDetail) : Prop where
  spawned : s'.spawned = s.spawned
  promise : s'.promise = s.promise
  caller : s'.caller = s.caller
  completed : s'.completed = s.completed
  abandoned : s'.abandoned = s.abandoned
  returned : s'.returned = s.returned

instance (s : ThreadDetail) (a : Action) : Decidable (s.PreviousDone a) :=
  inferInstanceAs (Decidable (_ → _ → _))

theorem testJoinable_moves (s : ThreadDetail) (k : ℕ) (go skip : Place) :
    ∃ s', s.Same s' ∧ (s.testJoinable k go skip = s' ∨
      ∃ q, (q = go ∨ q = skip) ∧ s.testJoinable k go skip = s'.setPlace k q) := by
  unfold testJoinable
  split
  · split
    · exact ⟨{ s.read k with crashed := true }, ⟨rfl, rfl, rfl, rfl, rfl, rfl⟩, .inl rfl⟩
    · exact ⟨{ s.read k with terminated := true }, ⟨rfl, rfl, rfl, rfl, rfl, rfl⟩, .inl rfl⟩
    · exact ⟨s.read k, ⟨rfl, rfl, rfl, rfl, rfl, rfl⟩, .inr ⟨go, .inl rfl, rfl⟩⟩
  · exact ⟨s, ⟨rfl, rfl, rfl, rfl, rfl, rfl⟩, .inr ⟨skip, .inr rfl, rfl⟩⟩

theorem nativeHandle_moves (s : ThreadDetail) (k : ℕ) (go : Place) :
    ∃ s', s.Same s' ∧ (s.nativeHandle k go = s' ∨ s.nativeHandle k go = s'.setPlace k go) := by
  rcases nativeHandle_cases s k go with ⟨-, heq⟩ | ⟨handle, -, heq⟩
  · exact ⟨{ s.read k with crashed := true }, ⟨rfl, rfl, rfl, rfl, rfl, rfl⟩, .inl heq⟩
  · exact ⟨s.read k, ⟨rfl, rfl, rfl, rfl, rfl, rfl⟩, .inr heq⟩

theorem detach_same (s : ThreadDetail) : s.Same s.detach := by
  rcases detach_cases s with heq | ⟨owner, -, heq⟩
  all_goals
    rw [heq]
    exact ⟨rfl, rfl, rfl, rfl, rfl, rfl⟩

theorem join_same {s s' : ThreadDetail} (h : s.join = some s') : s.Same s' := by
  rcases join_cases h with ⟨rfl, -⟩ | ⟨owner, -, -, rfl⟩
  all_goals exact ⟨rfl, rfl, rfl, rfl, rfl, rfl⟩

theorem setPriority_same (s : ThreadDetail) (priority : Priority) :
    s.Same (s.setPriority priority) := by
  rw [setPriority_eq]
  exact ⟨rfl, rfl, rfl, rfl, rfl, rfl⟩

/-! ## Functions that have returned -/

structure Returned (s : ThreadDetail) : Prop where
  mem : ∀ (k : ℕ) (p : Place), s.spawned[k]? = some p → p.returned = true → k ∈ s.returned
  bound : ∀ k ∈ s.returned, k < s.spawned.length

theorem Returned.congr {s s' : ThreadDetail} (h : s.Returned) (hspawned : s'.spawned = s.spawned)
    (hreturned : s'.returned = s.returned) : s'.Returned := by
  obtain ⟨mem, bound⟩ := h
  constructor <;> simpa only [hspawned, hreturned]

theorem Returned.setPlace {s : ThreadDetail} (h : s.Returned) {k : ℕ} {q : Place}
    (hq : q.returned = true → k ∈ s.returned) : (s.setPlace k q).Returned where
  mem := by
    intro j p hj hp
    rcases getElem?_setPlace hj with ⟨rfl, rfl⟩ | ⟨-, hj⟩
    · exact hq hp
    · exact h.mem j p hj hp
  bound := by
    intro j hj
    rw [length_setPlace]
    exact h.bound j hj

theorem Returned.setPromise {s : ThreadDetail} (h : s.Returned) {k : ℕ}
    (hk : s.spawned[k]? = some .setPromise) : (s.setPromise k).Returned := by
  unfold ThreadDetail.setPromise
  split
  · exact h.congr rfl rfl
  · split
    · exact h.congr rfl rfl
    · rename_i p _ _
      have hcompleted : { s with completed := s.completed ++ [p] }.Returned := h.congr rfl rfl
      exact hcompleted.setPlace fun _ => h.mem k _ hk rfl

theorem Returned.testJoinable {s : ThreadDetail} (h : s.Returned) (k : ℕ) {go skip : Place}
    (hgo : go.returned = false) (hskip : skip.returned = false) :
    (s.testJoinable k go skip).Returned := by
  obtain ⟨s', hsame, heq | ⟨q, hq, heq⟩⟩ := testJoinable_moves s k go skip
  · rw [heq]
    exact h.congr hsame.spawned hsame.returned
  · rw [heq]
    apply (h.congr hsame.spawned hsame.returned).setPlace
    intro hreturned
    rcases hq with rfl | rfl
    · rw [hgo] at hreturned
      cases hreturned
    · rw [hskip] at hreturned
      cases hreturned

theorem Returned.nativeHandle {s : ThreadDetail} (h : s.Returned) (k : ℕ) {go : Place}
    (hgo : go.returned = false) : (s.nativeHandle k go).Returned := by
  obtain ⟨s', hsame, heq | heq⟩ := nativeHandle_moves s k go
  · rw [heq]
    exact h.congr hsame.spawned hsame.returned
  · rw [heq]
    apply (h.congr hsame.spawned hsame.returned).setPlace
    intro hreturned
    rw [hgo] at hreturned
    cases hreturned

theorem Returned.step {s s' : ThreadDetail} {a : Action} (h : s.Returned) (hstep : Step s a s') :
    s'.Returned := by
  cases hstep with
  | refuse hc hstarted => exact h
  | start hc hstarted | promise hc | replace owner hc hthread | assign hc hthread
  | initialized hc hinit | throws k hk => exact h.congr rfl rfl
  | detach hc => exact h.congr (detach_same s).spawned (detach_same s).returned
  | setPriority priority hc =>
      have hsame := setPriority_same s priority
      exact h.congr hsame.spawned hsame.returned
  | join s' hc hjoin => exact h.congr (join_same hjoin).spawned (join_same hjoin).returned
  | joined s1 hc hjoin => exact h.congr (join_same hjoin).spawned (join_same hjoin).returned
  | spawn hc =>
      constructor
      · intro k p hk hp
        rcases getElem?_spawn hk with ⟨-, rfl⟩ | hk
        · cases hp
        · exact h.mem k p hk hp
      · intro k hk
        change k < (s.spawned ++ [Place.storeStarted]).length
        rw [List.length_append]
        exact Nat.lt_add_right _ (h.bound k hk)
  | storeStarted k hk =>
      have hstarted : { s with started := true }.Returned := h.congr rfl rfl
      exact hstarted.setPlace fun hq => nomatch hq
  | priorityTest k hk => exact h.testJoinable k (by split <;> rfl) rfl
  | priorityHandle k hk | nameHandle k hk => exact h.nativeHandle k rfl
  | nameTest k hk => exact h.testJoinable k rfl rfl
  | setInit k hk => exact h.setPlace fun hq => nomatch hq
  | clearStarted k hk =>
      have hstarted : { s with started := false }.Returned := h.congr rfl rfl
      exact hstarted.setPlace fun _ => h.mem k _ hk rfl
  | setPromise k hk => exact h.setPromise hk
  | returns k hk =>
      have hreturned : { s with returned := s.returned ++ [k] }.Returned := by
        constructor
        · intro j p hj hp
          exact List.mem_append_left _ (h.mem j p hj hp)
        · intro j hj
          rcases List.mem_append.mp hj with hj | hj
          · exact h.bound j hj
          · rw [List.mem_singleton.mp hj]
            exact (List.getElem?_eq_some_iff.mp hk).1
      exact hreturned.setPlace fun _ => List.mem_append_right _ (List.mem_singleton.mpr rfl)

theorem returned_init : init.Returned where
  mem := by simp [init]
  bound := by simp [init]

theorem Reachable.returned {s : ThreadDetail} (h : machine.Reachable s) : s.Returned :=
  h.invariant returned_init fun _ _ _ hs _ hstep => hs.step (step_cases hstep).2

/-! ## Promises that are completed before they are replaced -/

structure Kept (s : ThreadDetail) : Prop where
  /-- A thread that is still to complete a promise finds its own. -/
  current : ∀ (k : ℕ) (p : Place), s.spawned[k]? = some p → p ≠ .exited → s.promise = some k
  fresh : s.caller = .spawning → s.promise = some s.spawned.length ∧ ∀ p ∈ s.spawned, p = .exited
  bound : s.caller ≠ .spawning → ∀ k, s.promise = some k → k < s.spawned.length
  nodup : s.completed.Nodup
  exited : ∀ k, k ∈ s.completed ↔ s.spawned[k]? = some .exited
  abandoned : s.abandoned = []

theorem kept_init : init.Kept where
  current := by simp [init]
  fresh := by simp [init]
  bound := by simp [init]
  nodup := List.nodup_nil
  exited := by simp [init]
  abandoned := rfl

theorem Kept.congr {s s' : ThreadDetail} (h : s.Kept) (hsame : s.Same s') : s'.Kept := by
  obtain ⟨current, fresh, bound, nodup, exited, abandoned⟩ := h
  constructor <;> simpa only [hsame.spawned, hsame.promise, hsame.caller, hsame.completed,
    hsame.abandoned]

/-- The controlling thread moves on, away from anything that concerns promises. -/
theorem Kept.setCaller {s : ThreadDetail} (h : s.Kept) {pc : Caller} (hc : s.caller ≠ .spawning)
    (hpc : pc ≠ .spawning) : (s.setCaller pc).Kept where
  current := h.current
  fresh := fun heq => absurd heq hpc
  bound := fun _ => h.bound hc
  nodup := h.nodup
  exited := h.exited
  abandoned := h.abandoned

theorem Kept.setPlace {s : ThreadDetail} (h : s.Kept) {k : ℕ} {p q : Place}
    (hk : s.spawned[k]? = some p) (hp : p ≠ .exited) (hq : q ≠ .exited) :
    (s.setPlace k q).Kept where
  current := by
    intro j p' hj hp'
    rcases getElem?_setPlace hj with ⟨rfl, rfl⟩ | ⟨-, hj⟩
    · exact h.current j p hk hp
    · exact h.current j p' hj hp'
  fresh := by
    intro hc
    exact absurd ((h.fresh hc).2 p (List.mem_of_getElem? hk)) hp
  bound := by
    intro hc j hj
    rw [length_setPlace]
    exact h.bound hc j hj
  nodup := h.nodup
  exited := by
    intro j
    change j ∈ s.completed ↔ (s.spawned.set k q)[j]? = some .exited
    rw [h.exited, List.getElem?_set]
    split
    · rename_i heq
      subst heq
      rw [hk]
      simp [hp, hq]
    · rfl
  abandoned := h.abandoned

theorem Kept.testJoinable {s : ThreadDetail} (h : s.Kept) {k : ℕ} {p go skip : Place}
    (hk : s.spawned[k]? = some p) (hp : p ≠ .exited) (hgo : go ≠ .exited) (hskip : skip ≠ .exited) :
    (s.testJoinable k go skip).Kept := by
  obtain ⟨s', hsame, heq | ⟨q, hq, heq⟩⟩ := testJoinable_moves s k go skip
  · rw [heq]
    exact h.congr hsame
  · rw [heq]
    apply (h.congr hsame).setPlace (hsame.spawned ▸ hk) hp
    rcases hq with rfl | rfl
    · exact hgo
    · exact hskip

theorem Kept.nativeHandle {s : ThreadDetail} (h : s.Kept) {k : ℕ} {p go : Place}
    (hk : s.spawned[k]? = some p) (hp : p ≠ .exited) (hgo : go ≠ .exited) :
    (s.nativeHandle k go).Kept := by
  obtain ⟨s', hsame, heq | heq⟩ := nativeHandle_moves s k go
  · rw [heq]
    exact h.congr hsame
  · rw [heq]
    exact (h.congr hsame).setPlace (hsame.spawned ▸ hk) hp hgo

/-- The old promise has its value, so its future survives. -/
theorem Kept.promise {s : ThreadDetail} (h : s.Kept) (hc : s.caller = .promising)
    (hdone : ∀ p ∈ s.spawned, p = .exited) : (s.makePromise.setCaller .spawning).Kept where
  current := by
    intro k p hk hp
    exact absurd (hdone p (List.mem_of_getElem? hk)) hp
  fresh := fun _ => ⟨rfl, hdone⟩
  bound := fun hne => absurd rfl hne
  nodup := h.nodup
  exited := h.exited
  abandoned := by
    change (makePromise s).abandoned = []
    unfold makePromise
    cases hp : s.promise with
    | none => exact h.abandoned
    | some k =>
        have hlt := h.bound (by rw [hc]; decide) k hp
        have hexited : s.spawned[k]? = some .exited := by
          rw [List.getElem?_eq_getElem hlt, hdone _ (List.getElem_mem hlt)]
        simp only [(h.exited k).mpr hexited, if_true]
        exact h.abandoned

theorem Kept.spawn {s : ThreadDetail} (h : s.Kept) (hc : s.caller = .spawning) :
    ({ s with spawned := s.spawned ++ [Place.storeStarted] }.setCaller .assigning).Kept where
  current := by
    intro k p hk hp
    rcases getElem?_spawn hk with ⟨rfl, -⟩ | hk
    · exact (h.fresh hc).1
    · exact absurd ((h.fresh hc).2 p (List.mem_of_getElem? hk)) hp
  fresh := fun heq => nomatch heq
  bound := by
    intro _ k hk
    change k < (s.spawned ++ [Place.storeStarted]).length
    cases (h.fresh hc).1.symm.trans hk
    simp
  nodup := h.nodup
  exited := by
    intro k
    change k ∈ s.completed ↔ (s.spawned ++ [Place.storeStarted])[k]? = some .exited
    rw [h.exited]
    constructor
    · intro hk
      rw [List.getElem?_append_left (List.getElem?_eq_some_iff.mp hk).1, hk]
    · intro hk
      rcases getElem?_spawn hk with ⟨-, heq⟩ | hk
      · cases heq
      · exact hk
  abandoned := h.abandoned

theorem Kept.setPromise {s : ThreadDetail} (h : s.Kept) {k : ℕ}
    (hk : s.spawned[k]? = some .setPromise) : (s.setPromise k).Kept := by
  have hpromise := h.current k _ hk nofun
  have hnew : k ∉ s.completed := by
    intro hmem
    rw [h.exited, hk] at hmem
    cases hmem
  have hnotSpawning : s.caller ≠ .spawning := by
    intro hc
    have := (h.fresh hc).2 _ (List.mem_of_getElem? hk)
    cases this
  have heq : s.setPromise k =
      { s with completed := s.completed ++ [k] }.setPlace k .exited := by
    unfold ThreadDetail.setPromise
    rw [hpromise]
    exact if_neg hnew
  have hlt := (List.getElem?_eq_some_iff.mp hk).1
  rw [heq]
  exact {
    current := by
      intro j p hj hp
      rcases getElem?_setPlace hj with ⟨-, rfl⟩ | ⟨-, hj⟩
      · exact absurd rfl hp
      · exact h.current j p hj hp
    fresh := fun hc => absurd hc hnotSpawning
    bound := by
      intro hc j hj
      rw [length_setPlace]
      exact h.bound hc j hj
    nodup := by
      change (s.completed ++ [k]).Nodup
      rw [List.nodup_append]
      refine ⟨h.nodup, List.nodup_singleton k, ?_⟩
      intro a ha b hb heq
      rw [List.mem_singleton.mp hb] at heq
      exact hnew (heq ▸ ha)
    exited := by
      intro j
      change j ∈ s.completed ++ [k] ↔ (s.spawned.set k .exited)[j]? = some .exited
      rw [List.mem_append, List.mem_singleton, List.getElem?_set, h.exited]
      split
      · rename_i hkj
        subst hkj
        simp [hlt]
      · rename_i hkj
        simp [Ne.symm hkj]
    abandoned := h.abandoned }

theorem Kept.step {s s' : ThreadDetail} {a : Action} (h : s.Kept) (hok : s.PreviousDone a)
    (hstep : Step s a s') : s'.Kept := by
  cases hstep with
  | refuse hc hstarted => exact h
  | start hc hstarted => exact h.setCaller (by rw [hc]; decide) (by decide)
  | detach hc => exact h.congr (detach_same s)
  | setPriority priority hc => exact h.congr (setPriority_same s priority)
  | join s' hc hjoin => exact h.congr (join_same hjoin)
  | joined s1 hc hjoin =>
      have hsame := join_same hjoin
      exact (h.congr hsame).setCaller (by rw [hsame.caller, hc]; decide) (by decide)
  | promise hc => exact h.promise hc (hok rfl hc)
  | spawn hc => exact h.spawn hc
  | replace owner hc hthread => exact h.congr ⟨rfl, rfl, rfl, rfl, rfl, rfl⟩
  | assign hc hthread =>
      have hassigned : { s with thread := some ⟨s.spawned.length - 1, true⟩ }.Kept :=
        h.congr ⟨rfl, rfl, rfl, rfl, rfl, rfl⟩
      exact hassigned.setCaller (by change s.caller ≠ _; rw [hc]; decide) (by decide)
  | initialized hc hinit => exact h.setCaller (by rw [hc]; decide) (by decide)
  | storeStarted k hk =>
      have hstarted : { s with started := true }.Kept :=
        h.congr ⟨rfl, rfl, rfl, rfl, rfl, rfl⟩
      exact hstarted.setPlace hk nofun nofun
  | priorityTest k hk => exact h.testJoinable hk nofun (by split <;> nofun) nofun
  | priorityHandle k hk | nameHandle k hk => exact h.nativeHandle hk nofun nofun
  | nameTest k hk => exact h.testJoinable hk nofun nofun nofun
  | setInit k hk => exact h.setPlace hk nofun nofun
  | clearStarted k hk =>
      have hstarted : { s with started := false }.Kept :=
        h.congr ⟨rfl, rfl, rfl, rfl, rfl, rfl⟩
      exact hstarted.setPlace hk nofun nofun
  | setPromise k hk => exact h.setPromise hk
  | returns k hk =>
      have hreturned : { s with returned := s.returned ++ [k] }.Kept := ⟨h.current, h.fresh,
        h.bound, h.nodup, h.exited, h.abandoned⟩
      exact hreturned.setPlace hk nofun nofun
  | throws k hk => exact h.congr ⟨rfl, rfl, rfl, rfl, rfl, rfl⟩

theorem Reaches.kept {s : ThreadDetail} (h : machine.Reaches PreviousDone s) : s.Kept :=
  h.invariant kept_init fun _ _ _ hs hok hstep => hs.step hok (step_cases hstep).2

/-! ## Every run -/

theorem Kept.ownFuture {s : ThreadDetail} (h : s.Kept) (hreturned : s.Returned) (k : ℕ) :
    s.OwnFuture k where
  once := List.nodup_iff_count_le_one.mp h.nodup k
  kept := by simp [h.abandoned]
  after := by
    intro hmem
    exact hreturned.mem k _ ((h.exited k).mp hmem) rfl
  ready := h.exited k

/-- A thread that still has to complete its promise when another start has made a new one
completes that one, whose function has not even been spawned. -/
theorem completes_of_replaced {s s' : ThreadDetail} {a : Action} (h : machine.Reachable s)
    (hstep : s.step a = some s') (hok : ¬ s.PreviousDone a) :
    ∃ k j s'', s'.step (.thread k) = some s'' ∧ j ∈ s''.completed ∧ j ∉ s''.returned := by
  simp only [PreviousDone, not_forall] at hok
  obtain ⟨rfl, hc, p, hmem, hp⟩ := hok
  obtain ⟨k, hk⟩ := List.mem_iff_getElem?.mp hmem
  have hpast := (Reachable.ordered h).quiet (by rw [hc]; rfl) k p hk
  have hplace : s.spawned[k]? = some .setPromise := by
    cases p <;> first | exact hk | exact absurd rfl hp | cases hpast
  obtain ⟨⟨hcrashed, hterminated⟩, -⟩ := step_cases hstep
  have hs' : s' = s.makePromise.setCaller .spawning := by
    simpa [ThreadDetail.step, hcrashed, hterminated, stepCaller, hc] using hstep.symm
  have hfresh : s.spawned.length ∉ s.returned := fun hmem =>
    Nat.lt_irrefl _ ((Reachable.returned h).bound _ hmem)
  refine ⟨k, s.spawned.length, s'.setPromise k, ?_, ?_, ?_⟩
  · rw [hs']
    simp [ThreadDetail.step, ThreadDetail.setCaller, makePromise, hcrashed, hterminated,
      stepThread, hplace]
  · rw [hs']
    by_cases hdone : s.spawned.length ∈ s.completed <;>
      simp [ThreadDetail.setPromise, ThreadDetail.setCaller, makePromise, hdone,
        ThreadDetail.setPlace]
  · rw [hs']
    by_cases hdone : s.spawned.length ∈ s.completed <;>
      simpa [ThreadDetail.setPromise, ThreadDetail.setCaller, makePromise, hdone,
        ThreadDetail.setPlace] using hfresh

/-- As long as promises are replaced only behind their threads, every future belongs to its start.
A promise that is replaced earlier makes the old thread complete the promise of the new start. -/
theorem ownFuture_of_previousDone (s : ThreadDetail) :
    (machine.Reaches PreviousDone s → ∀ k, s.OwnFuture k) ∧
    (machine.Reachable s → ∀ a s', s.step a = some s' → ¬ s.PreviousDone a →
      ∃ k j s'', s'.step (.thread k) = some s'' ∧ j ∈ s''.completed ∧ j ∉ s''.returned) := by
  constructor
  · intro hs k
    exact (Reaches.kept hs).ownFuture (Reachable.returned (hs.mono fun _ _ _ => trivial)) k
  · intro hs a s' hstep hok
    exact completes_of_replaced hs hstep hok

/-- Two starts, the second when the first thread has exited. -/
theorem ownFuture_two_starts :
    ∃ s, machine.run init
        [.start, .caller, .caller, .caller, .caller, .thread 0, .thread 0, .thread 0, .thread 0,
          .thread 0, .caller, .detach, .returns 0, .thread 0, .thread 0,
          .start, .caller, .caller, .caller, .caller, .thread 1, .thread 1, .thread 1, .thread 1,
          .thread 1, .caller, .returns 1, .thread 1, .thread 1] = some s ∧
      s.completed = [0, 1] ∧ s.OwnFuture 1 := by
  have hmeets : machine.Meets PreviousDone init
      [.start, .caller, .caller, .caller, .caller, .thread 0, .thread 0, .thread 0, .thread 0,
        .thread 0, .caller, .detach, .returns 0, .thread 0, .thread 0,
        .start, .caller, .caller, .caller, .caller, .thread 1, .thread 1, .thread 1, .thread 1,
        .thread 1, .caller, .returns 1, .thread 1, .thread 1] := by
    decide
  refine ⟨_, rfl, rfl, ?_⟩
  exact (ownFuture_of_previousDone _).1 (Machine.Reaches.init.run_of_meets hmeets rfl) 1

/-- A detached thread has cleared `_started` and not yet completed its promise when the object is
restarted: it completes the new promise before the new function has run, and the new thread
completes it once more. -/
theorem restart_before_promise :
    ∃ s s', machine.run init
        [.start, .caller, .caller, .caller, .caller, .thread 0, .thread 0, .thread 0, .thread 0,
          .thread 0, .caller, .detach, .returns 0, .thread 0,
          .start, .caller, .caller, .thread 0] = some s ∧
      s.completed = [1] ∧ s.returned = [0] ∧ ¬ s.OwnFuture 1 ∧
      machine.run s
        [.caller, .caller, .thread 1, .thread 1, .thread 1, .thread 1, .thread 1, .caller,
          .returns 1, .thread 1, .thread 1] = some s' ∧
      s'.completed = [1, 1] ∧ s'.terminated = true ∧ s'.abandoned = [0] := by
  refine ⟨_, _, rfl, rfl, rfl, fun hs => ?_, rfl, rfl, rfl, rfl⟩
  exact absurd (hs.after (by decide)) (by decide)

end ThreadDetail

end CommonLib.Thread
