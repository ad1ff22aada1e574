import CommonLib.Model.Thread

/-! Computation rules of the thread object, and its steps as local rules. -/

namespace CommonLib.Thread

namespace ThreadDetail

/-- What `join` waits for has exited, and the object is not joinable any more. -/
theorem join_cases {s s' : ThreadDetail} (h : s.join = some s') :
    (s' = s ∧ ∀ owner, s.thread ≠ some ⟨owner, true⟩) ∨
      ∃ owner, s.thread = some ⟨owner, true⟩ ∧ s.spawned[owner]? = some .exited ∧
        s' = { s with thread := some ⟨owner, false⟩ } := by
  unfold join at h
  split at h
  · split at h <;> cases h
    exact .inr ⟨_, ‹_›, ‹_›, rfl⟩
  · rename_i hnot
    cases h
    exact .inl ⟨rfl, hnot⟩

/-- Only the object is touched, which keeps its owner. -/
theorem detach_cases (s : ThreadDetail) :
    s.detach = s ∨ ∃ owner, s.thread = some ⟨owner, true⟩ ∧
      s.detach = { s with thread := some ⟨owner, false⟩ } := by
  unfold detach
  split
  · exact .inr ⟨_, ‹_›, rfl⟩
  · exact .inl rfl

theorem setPriority_eq (s : ThreadDetail) (priority : Priority) :
    s.setPriority priority =
      { s with
        priority := (s.setPriority priority).priority
        crashed := (s.setPriority priority).crashed } := by
  unfold setPriority
  split
  · split <;> rfl
  · rfl

/-- With the flag set, the test needs an object that is joinable. -/
theorem testJoinable_cases {s : ThreadDetail} (hstarted : s.started = true) (k : ℕ)
    (go skip : Place) :
    (s.thread = none ∧ s.testJoinable k go skip = { s.read k with crashed := true }) ∨
    (∃ owner, s.thread = some ⟨owner, false⟩ ∧
      s.testJoinable k go skip = { s.read k with terminated := true }) ∨
    ∃ owner, s.thread = some ⟨owner, true⟩ ∧
      s.testJoinable k go skip = (s.read k).setPlace k go := by
  unfold testJoinable
  rw [if_pos hstarted]
  split
  · exact .inl ⟨‹_›, rfl⟩
  · exact .inr (.inl ⟨_, ‹_›, rfl⟩)
  · exact .inr (.inr ⟨_, ‹_›, rfl⟩)

theorem nativeHandle_cases (s : ThreadDetail) (k : ℕ) (go : Place) :
    (s.thread = none ∧ s.nativeHandle k go = { s.read k with crashed := true }) ∨
      ∃ handle, s.thread = some handle ∧ s.nativeHandle k go = (s.read k).setPlace k go := by
  unfold nativeHandle
  split
  · exact .inl ⟨‹_›, rfl⟩
  · exact .inr ⟨_, ‹_›, rfl⟩

/-- The places of a list of threads after one of them has moved. -/
theorem getElem?_setPlace {s : ThreadDetail} {k j : ℕ} {p q : Place}
    (h : (s.setPlace k q).spawned[j]? = some p) :
    j = k ∧ p = q ∨ j ≠ k ∧ s.spawned[j]? = some p := by
  change (s.spawned.set k q)[j]? = some p at h
  rw [List.getElem?_set] at h
  split at h
  · split at h <;> cases h
    exact .inl ⟨‹k = j›.symm, rfl⟩
  · exact .inr ⟨fun hj => ‹k ≠ j› hj.symm, h⟩

@[simp] theorem length_setPlace (s : ThreadDetail) (k : ℕ) (q : Place) :
    (s.setPlace k q).spawned.length = s.spawned.length :=
  List.length_set

/-- The rules by which the controlling thread and the spawned ones move, one for each branch of
the code. -/
inductive Step (s : ThreadDetail) : Action → ThreadDetail → Prop
  | refuse (hc : s.caller = .idle) (hstarted : s.started = true) : Step s .start s
  | start (hc : s.caller = .idle) (hstarted : s.started = false) :
      Step s .start (s.setCaller .joining)
  | detach (hc : s.caller = .idle) : Step s .detach s.detach
  | join (s') (hc : s.caller = .idle) (hjoin : s.join = some s') : Step s .join s'
  | setPriority (priority) (hc : s.caller = .idle) :
      Step s (.setPriority priority) (s.setPriority priority)
  | joined (s') (hc : s.caller = .joining) (hjoin : s.join = some s') :
      Step s .caller (s'.setCaller .promising)
  | promise (hc : s.caller = .promising) : Step s .caller (s.makePromise.setCaller .spawning)
  | spawn (hc : s.caller = .spawning) :
      Step s .caller ({ s with spawned := s.spawned ++ [Place.storeStarted] }.setCaller .assigning)
  | replace (owner) (hc : s.caller = .assigning) (hthread : s.thread = some ⟨owner, true⟩) :
      Step s .caller { s with terminated := true }
  | assign (hc : s.caller = .assigning) (hthread : ∀ owner, s.thread ≠ some ⟨owner, true⟩) :
      Step s .caller ({ s with thread := some ⟨s.spawned.length - 1, true⟩ }.setCaller .waiting)
  | initialized (hc : s.caller = .waiting)
      (hinit : s.spawned.getLast?.any Place.initialized = true) :
      Step s .caller (s.setCaller .idle)
  | storeStarted (k) (hk : s.spawned[k]? = some .storeStarted) :
      Step s (.thread k) ({ s with started := true }.setPlace k .priorityTest)
  | priorityTest (k) (hk : s.spawned[k]? = some .priorityTest) :
      Step s (.thread k)
        (s.testJoinable k (if s.priority = .default then .nameTest else .priorityHandle) .nameTest)
  | priorityHandle (k) (hk : s.spawned[k]? = some .priorityHandle) :
      Step s (.thread k) (s.nativeHandle k .nameTest)
  | nameTest (k) (hk : s.spawned[k]? = some .nameTest) :
      Step s (.thread k) (s.testJoinable k .nameHandle .setInit)
  | nameHandle (k) (hk : s.spawned[k]? = some .nameHandle) :
      Step s (.thread k) (s.nativeHandle k .setInit)
  | setInit (k) (hk : s.spawned[k]? = some .setInit) : Step s (.thread k) (s.setPlace k .working)
  | clearStarted (k) (hk : s.spawned[k]? = some .clearStarted) :
      Step s (.thread k) ({ s with started := false }.setPlace k .setPromise)
  | setPromise (k) (hk : s.spawned[k]? = some .setPromise) : Step s (.thread k) (s.setPromise k)
  | returns (k) (hk : s.spawned[k]? = some .working) :
      Step s (.returns k) ({ s with returned := s.returned ++ [k] }.setPlace k .clearStarted)
  | throws (k) (hk : s.spawned[k]? = some .working) :
      Step s (.throws k) { s with terminated := true }

theorem Step.of_stepCaller {s s' : ThreadDetail} (h : s.stepCaller = some s') :
    Step s .caller s' := by
  unfold stepCaller at h
  split at h
  · cases h
  · obtain ⟨joined, hjoin, rfl⟩ := Option.map_eq_some_iff.mp h
    exact .joined _ ‹_› hjoin
  · cases h
    exact .promise ‹_›
  · cases h
    exact .spawn ‹_›
  · split at h <;> cases h
    · exact .replace _ ‹_› ‹_›
    · exact .assign ‹_› ‹_›
  · split at h <;> cases h
    exact .initialized ‹_› ‹_›

theorem Step.of_stepThread {s s' : ThreadDetail} {k : ℕ} (h : s.stepThread k = some s') :
    Step s (.thread k) s' := by
  unfold stepThread at h
  split at h <;> cases h
  · exact .storeStarted _ ‹_›
  · exact .priorityTest _ ‹_›
  · exact .priorityHandle _ ‹_›
  · exact .nameTest _ ‹_›
  · exact .nameHandle _ ‹_›
  · exact .setInit _ ‹_›
  · exact .clearStarted _ ‹_›
  · exact .setPromise _ ‹_›

/-- Every enabled action moves the threads by one of the rules. -/
theorem step_cases {s s' : ThreadDetail} {a : Action} (h : s.step a = some s') :
    (s.crashed = false ∧ s.terminated = false) ∧ Step s a s' := by
  unfold step at h
  split at h
  · cases h
  · rename_i hlive
    refine ⟨by simpa using hlive, ?_⟩
    cases a with
    | start =>
        simp only at h
        split at h <;> cases h
        split
        · exact .refuse ‹_› ‹_›
        · exact .start ‹_› (Bool.eq_false_iff.mpr ‹_›)
    | detach =>
        simp only at h
        split at h <;> cases h
        exact .detach ‹_›
    | join =>
        simp only at h
        split at h
        · exact .join _ ‹_› h
        · cases h
    | setPriority priority =>
        simp only at h
        split at h <;> cases h
        exact .setPriority priority ‹_›
    | caller => exact .of_stepCaller h
    | thread k => exact .of_stepThread h
    | returns k =>
        simp only at h
        split at h <;> cases h
        exact .returns k ‹_›
    | throws k =>
        simp only at h
        split at h <;> cases h
        exact .throws k ‹_›

end ThreadDetail

end CommonLib.Thread
