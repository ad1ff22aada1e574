import CommonLib.Verification.Thread.Phases

/-! # Which object a starting thread finds

The new thread runs as soon as its `std::thread` object is constructed, and `_thread` is assigned
after that. The wait for the init promise comes later still and orders nothing. -/

namespace CommonLib.Thread

namespace ThreadDetail

/-- Whenever a thread read `_thread` in `set_priority` or `set_name`, it found its own object. -/
def SeesOwn (s : ThreadDetail) : Prop :=
  ∀ k owner, (k, owner) ∈ s.reads → owner = some k

/-- The controlling thread has assigned `_thread` before the new thread tests it for the first
time. -/
def Assigned (s : ThreadDetail) (a : Action) : Prop :=
  ∀ k, a = .thread k → s.spawned[k]? = some .priorityTest → s.caller ≠ .assigning

theorem seesOwn_of_reads {s s' : ThreadDetail} {k : ℕ} (hs : s.SeesOwn)
    (hreads : s'.reads = s.reads ++ [(k, s.thread.map Handle.owner)]) :
    s'.SeesOwn ↔ s.thread.map Handle.owner = some k := by
  constructor
  · intro hs'
    apply hs' k
    rw [hreads]
    exact List.mem_append_right _ (List.mem_singleton.mpr rfl)
  · intro hown j owner hmem
    rw [hreads, List.mem_append, List.mem_singleton] at hmem
    rcases hmem with hmem | heq
    · exact hs j owner hmem
    · cases heq
      exact hown

theorem testJoinable_reads {s : ThreadDetail} (hstarted : s.started = true) (k : ℕ)
    (go skip : Place) :
    (s.testJoinable k go skip).reads = s.reads ++ [(k, s.thread.map Handle.owner)] := by
  rcases testJoinable_cases hstarted k go skip with ⟨-, heq⟩ | ⟨owner, -, heq⟩ | ⟨owner, -, heq⟩
  all_goals
    rw [heq]
    rfl

theorem nativeHandle_reads (s : ThreadDetail) (k : ℕ) (go : Place) :
    (s.nativeHandle k go).reads = s.reads ++ [(k, s.thread.map Handle.owner)] := by
  rcases nativeHandle_cases s k go with ⟨-, heq⟩ | ⟨handle, -, heq⟩
  all_goals
    rw [heq]
    rfl

theorem setPromise_reads (s : ThreadDetail) (k : ℕ) : (s.setPromise k).reads = s.reads := by
  unfold setPromise
  split
  · rfl
  · split <;> rfl

/-- A thread that is not past finds its own object unless that is still to be assigned. -/
theorem Ordered.own_iff {s : ThreadDetail} (h : s.Ordered) {k : ℕ} {p : Place}
    (hk : s.spawned[k]? = some p) (hpast : p.past = false) :
    s.thread.map Handle.owner = some k ↔ s.caller ≠ .assigning := by
  have hlast := h.single k p hk hpast
  constructor
  · intro hown hc
    obtain ⟨handle, hthread, howner⟩ := Option.map_eq_some_iff.mp hown
    have hstale := (h.stale hc).2 handle hthread
    omega
  · intro hc
    exact h.own hc k hlast

/-- Behind the first test there is nothing left to go wrong. -/
theorem Ordered.own_later {s : ThreadDetail} (h : s.Ordered) {k : ℕ} {p : Place}
    (hk : s.spawned[k]? = some p) (hpast : p.past = false) (hearly : p.early = false) :
    s.thread.map Handle.owner = some k :=
  (h.own_iff hk hpast).mpr (h.assigned hk hpast hearly)

theorem assigned_of_ne {s : ThreadDetail} {a : Action} (ha : ∀ k, a ≠ .thread k) :
    s.Assigned a :=
  fun k hk => absurd hk (ha k)

theorem assigned_of_place {s : ThreadDetail} {k : ℕ} {p : Place} (hk : s.spawned[k]? = some p)
    (hp : p ≠ .priorityTest) : s.Assigned (.thread k) := by
  intro j hj htest
  cases hj
  rw [hk] at htest
  exact absurd (Option.some.inj htest) hp

theorem seesOwn_step {s s' : ThreadDetail} {a : Action} (h : s.Ordered) (hs : s.SeesOwn)
    (hstep : Step s a s') : s'.SeesOwn ↔ s.Assigned a := by
  cases hstep with
  | refuse hc hstarted | start hc hstarted | promise hc | spawn hc | replace owner hc hthread
  | assign hc hthread | initialized hc hinit | throws k hk | returns k hk =>
      exact ⟨fun _ => assigned_of_ne fun _ => nofun, fun _ => hs⟩
  | detach hc =>
      refine ⟨fun _ => assigned_of_ne fun _ => nofun, fun _ => ?_⟩
      rcases detach_cases s with heq | ⟨owner, -, heq⟩
      all_goals
        rw [heq]
        exact hs
  | join s' hc hjoin =>
      refine ⟨fun _ => assigned_of_ne fun _ => nofun, fun _ => ?_⟩
      rcases join_cases hjoin with ⟨rfl, -⟩ | ⟨owner, -, -, rfl⟩ <;> exact hs
  | joined s1 hc hjoin =>
      refine ⟨fun _ => assigned_of_ne fun _ => nofun, fun _ => ?_⟩
      rcases join_cases hjoin with ⟨rfl, -⟩ | ⟨owner, -, -, rfl⟩ <;> exact hs
  | setPriority priority hc =>
      refine ⟨fun _ => assigned_of_ne fun _ => nofun, fun _ => ?_⟩
      rw [setPriority_eq]
      exact hs
  | storeStarted k hk | setInit k hk | clearStarted k hk =>
      exact ⟨fun _ => assigned_of_place hk (by decide), fun _ => hs⟩
  | setPromise k hk =>
      refine ⟨fun _ => assigned_of_place hk (by decide), fun _ j owner hmem => ?_⟩
      rw [setPromise_reads] at hmem
      exact hs j owner hmem
  | priorityTest k hk =>
      rw [seesOwn_of_reads hs (testJoinable_reads (h.flag k _ hk rfl) k _ _), h.own_iff hk rfl]
      constructor
      · intro hc j hj _
        exact hc
      · intro hok
        exact hok k rfl hk
  | nameTest k hk =>
      rw [seesOwn_of_reads hs (testJoinable_reads (h.flag k _ hk rfl) k _ _)]
      exact ⟨fun _ => assigned_of_place hk (by decide), fun _ => h.own_later hk rfl rfl⟩
  | priorityHandle k hk | nameHandle k hk =>
      rw [seesOwn_of_reads hs (nativeHandle_reads s k _)]
      exact ⟨fun _ => assigned_of_place hk (by decide), fun _ => h.own_later hk rfl rfl⟩

/-- Over any run, starting threads find their own objects exactly as long as `_thread` is assigned
before a new thread first tests it. -/
theorem seesOwn_iff_assigned (actions : List Action) :
    machine.Holds SeesOwn init actions ↔ machine.Meets Assigned init actions := by
  apply Machine.holds_iff_meets
  · intro s a s' (h : s.Ordered) hstep
    exact h.step (step_cases hstep).2
  · intro s a s' h hs hstep
    exact seesOwn_step h hs (step_cases hstep).2
  · exact ordered_init
  · intro k owner hmem
    cases hmem

/-- The new thread overtakes the assignment: it finds a null pointer at a first start, and the
object of the earlier start at a restart. -/
theorem overtaken_assignment :
    (∃ s, machine.run init
        [.start, .caller, .caller, .caller, .thread 0, .thread 0] = some s ∧
      s.reads = [(0, none)] ∧ s.crashed = true ∧ ¬ s.SeesOwn) ∧
    ∃ s, machine.run init
        [.start, .caller, .caller, .caller, .caller, .thread 0, .thread 0, .thread 0, .thread 0,
          .thread 0, .caller, .returns 0, .thread 0, .thread 0,
          .start, .caller, .caller, .caller, .thread 1, .thread 1] = some s ∧
      (1, some 0) ∈ s.reads ∧ s.terminated = true ∧ ¬ s.SeesOwn := by
  constructor
  · refine ⟨_, rfl, rfl, rfl, fun hs => ?_⟩
    exact absurd (hs 0 none (by decide)) (by decide)
  · refine ⟨_, rfl, by decide, rfl, fun hs => ?_⟩
    exact absurd (hs 1 (some 0) (by decide)) (by decide)

end ThreadDetail

end CommonLib.Thread
