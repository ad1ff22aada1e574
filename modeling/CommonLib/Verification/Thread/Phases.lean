import CommonLib.Verification.Thread.Equations

/-! # The phases of the threads

A start is let through only when `_started` is down, which leaves earlier threads nothing but their
promise to see to. So at most one thread at a time is at work on the object, and `_thread` is its
own object unless the controlling thread is still about to assign it. -/

namespace CommonLib.Thread

/-- Between setting and clearing `_started`. -/
def Place.active : Place → Bool
  | .storeStarted | .setPromise | .exited => false
  | _ => true

/-- Done with the flag and with `_thread`. -/
def Place.past : Place → Bool
  | .setPromise | .exited => true
  | _ => false

/-- Not beyond the first look at `_thread`. -/
def Place.early : Place → Bool
  | .storeStarted | .priorityTest => true
  | _ => false

/-- In a `start` that has not yet spawned its thread. -/
def Caller.quiet : Caller → Bool
  | .joining | .promising | .spawning => true
  | _ => false

/-- In a `start`, with `_thread` joined or detached. -/
def Caller.replacing : Caller → Bool
  | .promising | .spawning | .assigning => true
  | _ => false

namespace ThreadDetail

structure Ordered (s : ThreadDetail) : Prop where
  flag : ∀ (k : ℕ) (p : Place), s.spawned[k]? = some p → p.active = true → s.started = true
  /-- All threads but the last are past. -/
  single : ∀ (k : ℕ) (p : Place), s.spawned[k]? = some p → p.past = false → k + 1 = s.spawned.length
  idle : s.caller = .idle → ∀ (k : ℕ) (p : Place), s.spawned[k]? = some p → p.initialized = true
  quiet : s.caller.quiet = true → ∀ (k : ℕ) (p : Place), s.spawned[k]? = some p → p.past = true
  own : s.caller ≠ .assigning → ∀ k, k + 1 = s.spawned.length →
    s.thread.map Handle.owner = some k
  bound : ∀ handle, s.thread = some handle → handle.owner < s.spawned.length
  free : s.caller.replacing = true → ∀ owner, s.thread ≠ some ⟨owner, true⟩
  stale : s.caller = .assigning → 0 < s.spawned.length ∧
    ∀ handle, s.thread = some handle → handle.owner + 1 < s.spawned.length
  early : s.caller = .assigning → ∀ (k : ℕ) (p : Place), s.spawned[k]? = some p →
    k + 1 = s.spawned.length → p.early = true

theorem ordered_init : init.Ordered where
  flag := by simp [init]
  single := by simp [init]
  idle := by simp [init]
  quiet := by simp [init]
  own := by simp [init]
  bound := by simp [init]
  free := by simp [init]
  stale := by simp [init]
  early := by simp [init]

/-- Histories, promises and the marks of a dead process do not matter. -/
theorem Ordered.congr {s s' : ThreadDetail} (h : s.Ordered) (hspawned : s'.spawned = s.spawned)
    (hstarted : s'.started = s.started) (hcaller : s'.caller = s.caller)
    (hthread : s'.thread = s.thread) : s'.Ordered := by
  obtain ⟨flag, single, idle, quiet, own, bound, free, stale, early⟩ := h
  constructor <;> simpa only [hspawned, hstarted, hcaller, hthread]

/-! ## Steps of the spawned threads -/

/-- A thread moves on, and may set or clear the flag when no other one relies on it. -/
theorem Ordered.setFlag {s : ThreadDetail} (h : s.Ordered) {k : ℕ} {p q : Place} {b : Bool}
    (hk : s.spawned[k]? = some p) (hactive : q.active = true → b = true)
    (hothers : ∀ j p', j ≠ k → s.spawned[j]? = some p' → p'.active = true → b = true)
    (hpast : p.past = true → q.past = true)
    (hinit : p.initialized = true → q.initialized = true)
    (hearly : s.caller = .assigning → k + 1 = s.spawned.length → q.early = true) :
    ({ s with started := b }.setPlace k q).Ordered where
  flag := by
    intro j p' hj hp'
    rcases getElem?_setPlace hj with ⟨-, rfl⟩ | ⟨hne, hj⟩
    · exact hactive hp'
    · exact hothers j p' hne hj hp'
  single := by
    intro j p' hj hp'
    rw [length_setPlace]
    rcases getElem?_setPlace hj with ⟨rfl, rfl⟩ | ⟨hne, hj⟩
    · apply h.single j p hk
      cases hpp : p.past with
      | false => rfl
      | true => rw [hpast hpp] at hp'; cases hp'
    · exact h.single j p' hj hp'
  idle := by
    intro hc j p' hj
    rcases getElem?_setPlace hj with ⟨-, rfl⟩ | ⟨hne, hj⟩
    · exact hinit (h.idle hc k p hk)
    · exact h.idle hc j p' hj
  quiet := by
    intro hc j p' hj
    rcases getElem?_setPlace hj with ⟨-, rfl⟩ | ⟨hne, hj⟩
    · exact hpast (h.quiet hc k p hk)
    · exact h.quiet hc j p' hj
  own := by
    intro hc j hj
    rw [length_setPlace] at hj
    exact h.own hc j hj
  bound := by
    intro handle hthread
    rw [length_setPlace]
    exact h.bound handle hthread
  free := h.free
  stale := by
    intro hc
    rw [length_setPlace]
    exact h.stale hc
  early := by
    intro hc j p' hj hlast
    rw [length_setPlace] at hlast
    rcases getElem?_setPlace hj with ⟨rfl, rfl⟩ | ⟨hne, hj⟩
    · exact hearly hc hlast
    · exact h.early hc j p' hj hlast

theorem Ordered.setPlace {s : ThreadDetail} (h : s.Ordered) {k : ℕ} {p q : Place}
    (hk : s.spawned[k]? = some p) (hactive : q.active = true → s.started = true)
    (hpast : p.past = true → q.past = true)
    (hinit : p.initialized = true → q.initialized = true)
    (hearly : s.caller = .assigning → k + 1 = s.spawned.length → q.early = true) :
    (s.setPlace k q).Ordered :=
  h.setFlag hk hactive (fun j p' _ hj hp' => h.flag j p' hj hp') hpast hinit hearly

/-- Beyond its first look a thread knows that `_thread` has been assigned. -/
theorem Ordered.assigned {s : ThreadDetail} (h : s.Ordered) {k : ℕ} {p : Place}
    (hk : s.spawned[k]? = some p) (hpast : p.past = false) (hearly : p.early = false) :
    s.caller ≠ .assigning := by
  intro hc
  have hlast := h.early hc k p hk (h.single k p hk hpast)
  rw [hearly] at hlast
  cases hlast

/-- Where `_thread` is joinable it is not about to be replaced. -/
theorem Ordered.assigned_of_joinable {s : ThreadDetail} (h : s.Ordered) {owner : ℕ}
    (hthread : s.thread = some ⟨owner, true⟩) : s.caller ≠ .assigning := by
  intro hc
  exact h.free (by rw [hc]; rfl) owner hthread

/-- The tests of `set_priority` and `set_name`. -/
theorem Ordered.testJoinable {s : ThreadDetail} (h : s.Ordered) {k : ℕ} {p go skip : Place}
    (hk : s.spawned[k]? = some p) (hactive : p.active = true) (hpast : p.past = false)
    (hinit : p.initialized = false) : (s.testJoinable k go skip).Ordered := by
  have hstarted := h.flag k p hk hactive
  rcases testJoinable_cases hstarted k go skip with ⟨-, heq⟩ | ⟨owner, -, heq⟩ |
    ⟨owner, hthread, heq⟩
  · rw [heq]
    exact h.congr rfl rfl rfl rfl
  · rw [heq]
    exact h.congr rfl rfl rfl rfl
  · rw [heq]
    have hread : (s.read k).Ordered := h.congr rfl rfl rfl rfl
    apply hread.setPlace hk
    · exact fun _ => hstarted
    · intro hp
      rw [hpast] at hp
      cases hp
    · intro hp
      rw [hinit] at hp
      cases hp
    · intro hc
      exact absurd hc (h.assigned_of_joinable hthread)

theorem Ordered.nativeHandle {s : ThreadDetail} (h : s.Ordered) {k : ℕ} {p go : Place}
    (hk : s.spawned[k]? = some p) (hactive : p.active = true) (hpast : p.past = false)
    (hinit : p.initialized = false) (hearly : p.early = false) :
    (s.nativeHandle k go).Ordered := by
  rcases nativeHandle_cases s k go with ⟨-, heq⟩ | ⟨handle, -, heq⟩
  · rw [heq]
    exact h.congr rfl rfl rfl rfl
  · rw [heq]
    have hread : (s.read k).Ordered := h.congr rfl rfl rfl rfl
    apply hread.setPlace hk
    · exact fun _ => h.flag k p hk hactive
    · intro hp
      rw [hpast] at hp
      cases hp
    · intro hp
      rw [hinit] at hp
      cases hp
    · intro hc
      exact absurd hc (h.assigned hk hpast hearly)

theorem Ordered.setPromise {s : ThreadDetail} (h : s.Ordered) {k : ℕ}
    (hk : s.spawned[k]? = some .setPromise) : (s.setPromise k).Ordered := by
  unfold ThreadDetail.setPromise
  split
  · exact h.congr rfl rfl rfl rfl
  · split
    · exact h.congr rfl rfl rfl rfl
    · rename_i p _ _
      have hcompleted : { s with completed := s.completed ++ [p] }.Ordered :=
        h.congr rfl rfl rfl rfl
      apply hcompleted.setPlace hk
      · intro hactive
        cases hactive
      · exact fun _ => rfl
      · exact fun _ => rfl
      · intro hc hlast
        exact absurd (h.early hc k _ hk hlast) Bool.noConfusion

/-! ## Steps of the controlling thread -/

/-- Joined or detached, the object stays what it is. -/
theorem Ordered.unjoin {s : ThreadDetail} (h : s.Ordered) {owner : ℕ}
    (hthread : s.thread = some ⟨owner, true⟩) :
    { s with thread := some ⟨owner, false⟩ }.Ordered where
  flag := h.flag
  single := h.single
  idle := h.idle
  quiet := h.quiet
  own := by
    intro hc k hlast
    have hown := h.own hc k hlast
    rw [hthread] at hown
    exact hown
  bound := by
    intro handle heq
    cases heq
    exact h.bound ⟨owner, true⟩ hthread
  free := by
    intro _ owner' heq
    cases heq
  stale := by
    intro hc
    exact absurd hc (h.assigned_of_joinable hthread)
  early := h.early

theorem Ordered.detach {s : ThreadDetail} (h : s.Ordered) : s.detach.Ordered := by
  rcases detach_cases s with heq | ⟨owner, hthread, heq⟩
  · rw [heq]
    exact h
  · rw [heq]
    exact h.unjoin hthread

theorem Ordered.join {s s' : ThreadDetail} (h : s.Ordered) (hjoin : s.join = some s') :
    s'.Ordered := by
  rcases join_cases hjoin with ⟨rfl, -⟩ | ⟨owner, hthread, -, rfl⟩
  · exact h
  · exact h.unjoin hthread

/-- The controlling thread moves on, with `_thread` assigned before and after. -/
theorem Ordered.setCaller {s : ThreadDetail} (h : s.Ordered) {pc : Caller}
    (hold : s.caller ≠ .assigning) (hnew : pc ≠ .assigning)
    (hidle : pc = .idle → ∀ (k : ℕ) (p : Place), s.spawned[k]? = some p → p.initialized = true)
    (hquiet : pc.quiet = true → ∀ (k : ℕ) (p : Place), s.spawned[k]? = some p → p.past = true)
    (hfree : pc.replacing = true → ∀ owner, s.thread ≠ some ⟨owner, true⟩) :
    (s.setCaller pc).Ordered where
  flag := h.flag
  single := h.single
  idle := hidle
  quiet := hquiet
  own := fun _ => h.own hold
  bound := h.bound
  free := hfree
  stale := fun hc => absurd hc hnew
  early := fun hc => absurd hc hnew

/-- With the flag down and no thread under way, only promises are left to be completed. -/
theorem Ordered.start {s : ThreadDetail} (h : s.Ordered) (hc : s.caller = .idle)
    (hstarted : s.started = false) : (s.setCaller .joining).Ordered := by
  refine h.setCaller (by rw [hc]; decide) (by decide) nofun (fun _ k p hk => ?_) nofun
  have hinit := h.idle hc k p hk
  have hactive : p.active ≠ true := by
    intro hp
    have hflag := h.flag k p hk hp
    rw [hstarted] at hflag
    cases hflag
  cases p <;> simp_all [Place.initialized, Place.active, Place.past]

theorem Ordered.joined {s s' : ThreadDetail} (h : s.Ordered) (hc : s.caller = .joining)
    (hjoin : s.join = some s') : (s'.setCaller .promising).Ordered := by
  have hjoined := h.join hjoin
  have hsame : s'.caller = .joining ∧ ∀ owner, s'.thread ≠ some ⟨owner, true⟩ := by
    rcases join_cases hjoin with ⟨rfl, hfree⟩ | ⟨owner, -, -, rfl⟩
    · exact ⟨hc, hfree⟩
    · exact ⟨hc, fun _ heq => nomatch heq⟩
  exact hjoined.setCaller (by rw [hsame.1]; decide) (by decide) nofun
    (fun _ => hjoined.quiet (by rw [hsame.1]; rfl)) fun _ => hsame.2

theorem Ordered.promise {s : ThreadDetail} (h : s.Ordered) (hc : s.caller = .promising) :
    (s.makePromise.setCaller .spawning).Ordered := by
  have hmade : s.makePromise.Ordered := h.congr rfl rfl rfl rfl
  exact hmade.setCaller (by change s.caller ≠ _; rw [hc]; decide) (by decide) nofun
    (fun _ => h.quiet (by rw [hc]; rfl)) fun _ => h.free (by rw [hc]; rfl)

theorem getElem?_spawn {places : List Place} {k : ℕ} {p : Place}
    (h : (places ++ [Place.storeStarted])[k]? = some p) :
    k = places.length ∧ p = .storeStarted ∨ places[k]? = some p := by
  rcases Nat.lt_or_ge k places.length with hlt | hge
  · rw [List.getElem?_append_left hlt] at h
    exact .inr h
  · rw [List.getElem?_append_right hge, List.getElem?_singleton] at h
    split at h <;> cases h
    exact .inl ⟨by omega, rfl⟩

theorem Ordered.spawn {s : ThreadDetail} (h : s.Ordered) (hc : s.caller = .spawning) :
    ({ s with spawned := s.spawned ++ [Place.storeStarted] }.setCaller .assigning).Ordered where
  flag := by
    intro k p hk hp
    rcases getElem?_spawn hk with ⟨-, rfl⟩ | hk
    · cases hp
    · exact h.flag k p hk hp
  single := by
    intro k p hk hp
    rcases getElem?_spawn hk with ⟨rfl, -⟩ | hk
    · change s.spawned.length + 1 = (s.spawned ++ [Place.storeStarted]).length
      rw [List.length_append, List.length_singleton]
    · rw [h.quiet (by rw [hc]; rfl) k p hk] at hp
      cases hp
  idle := fun hc' => nomatch hc'
  quiet := fun hc' => nomatch hc'
  own := fun hc' => absurd rfl hc'
  bound := by
    intro handle hthread
    have := h.bound handle hthread
    change handle.owner < (s.spawned ++ [Place.storeStarted]).length
    rw [List.length_append, List.length_singleton]
    omega
  free := fun _ => h.free (by rw [hc]; rfl)
  stale := by
    intro _
    change 0 < (s.spawned ++ [Place.storeStarted]).length ∧ ∀ handle, s.thread = some handle →
      handle.owner + 1 < (s.spawned ++ [Place.storeStarted]).length
    rw [List.length_append, List.length_singleton]
    exact ⟨by omega, fun handle hthread => Nat.succ_lt_succ (h.bound handle hthread)⟩
  early := by
    intro _ k p hk hlast
    rcases getElem?_spawn hk with ⟨-, rfl⟩ | hk
    · rfl
    · have hlt := (List.getElem?_eq_some_iff.mp hk).1
      change k + 1 = (s.spawned ++ [Place.storeStarted]).length at hlast
      rw [List.length_append, List.length_singleton] at hlast
      omega

theorem Ordered.assign {s : ThreadDetail} (h : s.Ordered) (hc : s.caller = .assigning) :
    ({ s with thread := some ⟨s.spawned.length - 1, true⟩ }.setCaller .waiting).Ordered where
  flag := h.flag
  single := h.single
  idle := fun hc' => nomatch hc'
  quiet := fun hc' => nomatch hc'
  own := by
    intro _ k hlast
    change some (s.spawned.length - 1) = some k
    change k + 1 = s.spawned.length at hlast
    rw [← hlast, Nat.add_sub_cancel]
  bound := by
    intro handle heq
    cases heq
    exact Nat.sub_lt (h.stale hc).1 Nat.one_pos
  free := fun hc' => nomatch hc'
  stale := fun hc' => nomatch hc'
  early := fun hc' => nomatch hc'

theorem Ordered.initialized {s : ThreadDetail} (h : s.Ordered) (hc : s.caller = .waiting)
    (hinit : s.spawned.getLast?.any Place.initialized = true) : (s.setCaller .idle).Ordered := by
  refine h.setCaller (by rw [hc]; decide) (by decide) (fun _ k p hk => ?_) nofun nofun
  cases hp : p.past with
  | true => cases p <;> simp_all [Place.past, Place.initialized]
  | false =>
      have hlast := h.single k p hk hp
      have hget : s.spawned.getLast? = some p := by
        rw [List.getLast?_eq_getElem?, ← hlast, Nat.add_sub_cancel, hk]
      rw [hget] at hinit
      exact hinit

/-! ## Every run -/

theorem Ordered.step {s s' : ThreadDetail} {a : Action} (h : s.Ordered) (hstep : Step s a s') :
    s'.Ordered := by
  cases hstep with
  | refuse hc hstarted => exact h
  | start hc hstarted => exact h.start hc hstarted
  | detach hc => exact h.detach
  | join s' hc hjoin => exact h.join hjoin
  | setPriority priority hc =>
      rw [setPriority_eq]
      exact h.congr rfl rfl rfl rfl
  | joined s' hc hjoin => exact h.joined hc hjoin
  | promise hc => exact h.promise hc
  | spawn hc => exact h.spawn hc
  | replace owner hc hthread => exact h.congr rfl rfl rfl rfl
  | assign hc hthread => exact h.assign hc
  | initialized hc hinit => exact h.initialized hc hinit
  | storeStarted k hk =>
      exact h.setFlag hk (fun _ => rfl) (fun _ _ _ _ _ => rfl) (fun hp => nomatch hp)
        (fun hp => nomatch hp) fun _ _ => rfl
  | priorityTest k hk => exact h.testJoinable hk rfl rfl rfl
  | priorityHandle k hk => exact h.nativeHandle hk rfl rfl rfl rfl
  | nameTest k hk => exact h.testJoinable hk rfl rfl rfl
  | nameHandle k hk => exact h.nativeHandle hk rfl rfl rfl rfl
  | setInit k hk =>
      exact h.setPlace hk (fun _ => h.flag k _ hk rfl) (fun hp => nomatch hp)
        (fun hp => nomatch hp) fun hc => absurd hc (h.assigned hk rfl rfl)
  | clearStarted k hk =>
      -- no other thread is between setting and clearing the flag
      refine h.setFlag hk (fun hp => nomatch hp) ?_ (fun hp => nomatch hp) (fun _ => rfl)
        fun hc => absurd hc (h.assigned hk rfl rfl)
      intro j p hne hj hp
      have hlast := h.single k _ hk rfl
      have hpast : p.past = false := by
        cases p <;> first | rfl | cases hp
      have hlast' := h.single j p hj hpast
      omega
  | setPromise k hk => exact h.setPromise hk
  | returns k hk =>
      have hreturned : { s with returned := s.returned ++ [k] }.Ordered :=
        h.congr rfl rfl rfl rfl
      exact hreturned.setPlace hk (fun _ => h.flag k _ hk rfl) (fun hp => nomatch hp)
        (fun _ => rfl) fun hc => absurd hc (h.assigned hk rfl rfl)
  | throws k hk => exact h.congr rfl rfl rfl rfl

theorem Reachable.ordered {s : ThreadDetail} (h : machine.Reachable s) : s.Ordered :=
  h.invariant ordered_init fun _ _ _ hs _ hstep => hs.step (step_cases hstep).2

end ThreadDetail

end CommonLib.Thread
