import CommonLib.Model.RunStop

/-! The steps of the calls of `run`, of `stop` and of the workers as local rules. -/

namespace CommonLib.RunStop.Runnable

variable {ι : Type*} {s s' : Runnable ι}

/-- From a place where `_thread` is read to the one behind it; `skip` is taken where the flag is not
set. -/
inductive Looks : Place → Place → Prop
  | priority : Looks .priorityTest .nameTest
  | name : Looks .nameTest .nameHandle
  | skip : Looks .nameTest .setInit
  | handle : Looks .nameHandle .setInit

theorem Looks.initialized {p q : Place} (h : Looks p q) :
    p.initialized = false ∧ q.initialized = false := by
  cases h <;> exact ⟨rfl, rfl⟩

theorem Looks.inLoop {p q : Place} (h : Looks p q) : p.inLoop = false := by
  cases h <;> rfl

theorem Looks.reads {p q : Place} (h : Looks p q) : p.reads = true := by
  cases h <;> rfl

/-- The rules by which workers move. A rule that uses a freed object or a null pointer is `crash`. -/
inductive WorkerStep (kind : Kind) (s : Runnable ι) (k : ℕ) (w : Worker) : Runnable ι → Prop
  | storeStarted (hp : w.place = .storeStarted) :
      WorkerStep kind s k w ((s.setDetail w.detail
        { s.details w.detail with started := true }).setWorker k (w.setPlace .priorityTest))
  | look (place) (hp : Looks w.place place) : WorkerStep kind s k w (s.setWorker k (w.setPlace place))
  | setInit (hp : w.place = .setInit) : WorkerStep kind s k w (s.setWorker k (w.setPlace .loopTest))
  | enter (hp : w.place = .loopTest) (hrunning : s.running = true) :
      WorkerStep kind s k w (s.setWorker k
        (w.setPlace (if kind = .runnable then .calling else .runTest)))
  | leave (hp : w.place = .loopTest ∨ w.place = .runTest) (hrunning : s.running = false) :
      WorkerStep kind s k w (s.setWorker k (w.setPlace .clearStarted))
  | go (hp : w.place = .runTest) (hrunning : s.running = true) :
      WorkerStep kind s k w (s.setWorker k (w.setPlace .calling))
  | call (hp : w.place = .calling) : WorkerStep kind s k w (s.setWorker k w.work)
  | clearStarted (hp : w.place = .clearStarted) :
      WorkerStep kind s k w ((s.setDetail w.detail
        { s.details w.detail with started := false }).setWorker k (w.setPlace .setPromise))
  | setPromise (p) (hp : w.place = .setPromise) :
      WorkerStep kind s k w ({ s with completed := s.completed ++ [p] }.setWorker k
        (w.setPlace .exited))
  | crash (hp : w.place = .storeStarted ∨ w.place.reads = true ∨ w.place = .clearStarted ∨
        w.place = .setPromise)
      (hbad : (s.details w.detail).freed = true ∨
        w.place.reads = true ∧ (s.details w.detail).thread = none ∨ w.place = .setPromise) :
      WorkerStep kind s k w s.crash
  | terminate (hp : w.place = .setPromise ∨
        w.place.reads = true ∧ ∃ j, (s.details w.detail).thread = some ⟨j, false⟩) :
      WorkerStep kind s k w { s with terminated := true }

/-- With the flag set, the test needs an object that is joinable. -/
theorem WorkerStep.of_testJoinable {kind : Kind} {k : ℕ} {w : Worker} {go skip : Place}
    (hreads : w.place.reads = true) (hgo : Looks w.place go) (hskip : Looks w.place skip) :
    WorkerStep kind s k w (s.access w.detail (s.testJoinable k w go skip)) := by
  unfold access testJoinable
  split
  · exact .crash (.inr (.inl hreads)) (.inl ‹_›)
  · split
    · split
      · exact .crash (.inr (.inl hreads)) (.inr (.inl ⟨hreads, ‹_›⟩))
      · exact .terminate (.inr ⟨hreads, _, ‹_›⟩)
      · exact .look go hgo
    · exact .look skip hskip

theorem WorkerStep.of_nativeHandle {kind : Kind} {k : ℕ} {w : Worker} {go : Place}
    (hreads : w.place.reads = true) (hgo : Looks w.place go) :
    WorkerStep kind s k w (s.access w.detail (s.nativeHandle k w go)) := by
  unfold access nativeHandle
  split
  · exact .crash (.inr (.inl hreads)) (.inl ‹_›)
  · split
    · exact .crash (.inr (.inl hreads)) (.inr (.inl ⟨hreads, ‹_›⟩))
    · exact .look go hgo

theorem WorkerStep.of_stepWorker {kind : Kind} {k : ℕ} (h : s.stepWorker kind k = some s') :
    ∃ w, s.workers[k]? = some w ∧ WorkerStep kind s k w s' := by
  unfold stepWorker at h
  split at h
  · cases h
  · rename_i w hw
    refine ⟨w, hw, ?_⟩
    split at h
    · rename_i hp
      cases h
      unfold access
      split
      · exact .crash (.inl hp) (.inl ‹_›)
      · exact .storeStarted hp
    · rename_i hp
      cases h
      exact .of_testJoinable (by rw [hp]; rfl) (hp ▸ .priority) (hp ▸ .priority)
    · rename_i hp
      cases h
      exact .of_testJoinable (by rw [hp]; rfl) (hp ▸ .name) (hp ▸ .skip)
    · rename_i hp
      cases h
      exact .of_nativeHandle (by rw [hp]; rfl) (hp ▸ .handle)
    · rename_i hp
      cases h
      exact .setInit hp
    · rename_i hp
      cases h
      split
      · exact .enter hp ‹_›
      · exact .leave (.inl hp) (Bool.eq_false_iff.mpr ‹_›)
    · rename_i hp
      cases h
      split
      · exact .go hp ‹_›
      · exact .leave (.inr hp) (Bool.eq_false_iff.mpr ‹_›)
    · rename_i hp
      cases h
      exact .call hp
    · rename_i hp
      cases h
      unfold access
      split
      · exact .crash (.inr (.inr (.inl hp))) (.inl ‹_›)
      · exact .clearStarted hp
    · rename_i hp
      cases h
      unfold access
      split
      · exact .crash (.inr (.inr (.inr hp))) (.inl ‹_›)
      · unfold Runnable.setPromise
        split
        · exact .crash (.inr (.inr (.inr hp))) (.inr (.inr hp))
        · split
          · exact .terminate (.inl hp)
          · exact .setPromise _ hp
    · cases h
    · cases h

variable [DecidableEq ι]

@[simp] theorem setCall_self (s : Runnable ι) (i : ι) (pc : Call) : (s.setCall i pc).call i = pc :=
  Function.update_self ..

theorem setCall_of_ne (s : Runnable ι) {i j : ι} (pc : Call) (h : j ≠ i) :
    (s.setCall i pc).call j = s.call j :=
  Function.update_of_ne h ..

/-- The rules by which a call of `run` moves. A rule that uses a freed object is `crash`. -/
inductive CallStep (s : Runnable ι) (i : ι) : Runnable ι → Prop
  | called (hc : s.call i = .before) : CallStep s i (s.setCall i .load)
  | rejected (hc : s.call i = .load) (hrunning : s.running = true) :
      CallStep s i (s.setCall i .rejected)
  | load (hc : s.call i = .load) (hrunning : s.running = false) : CallStep s i (s.setCall i .store)
  | store (hc : s.call i = .store) : CallStep s i ({ s with running := true }.setCall i .create)
  | create (hc : s.call i = .create) :
      CallStep s i ({ s with
        t := some s.created
        details := Function.update s.details s.created .new
        created := s.created + 1 }.setCall i
          (match s.t with
          | some old => .release old
          | none => .start))
  | release (old joined) (hc : s.call i = .release old) (hjoin : s.joinDetail old = some joined) :
      CallStep s i ((joined.setDetail old { joined.details old with freed := true }).setCall i
        .start)
  | start (d) (hc : s.call i = .start) (ht : s.t = some d) (hfreed : (s.details d).freed = false) :
      CallStep s i (s.setCall i (if (s.details d).started then .rejected else .join d))
  | join (d joined) (hc : s.call i = .join d) (hjoin : s.joinDetail d = some joined) :
      CallStep s i (joined.setCall i (.promise d))
  | promise (d) (hc : s.call i = .promise d) :
      CallStep s i ({ s with promises := s.promises + 1 }.setDetail d
        { s.details d with promise := some s.promises } |>.setCall i (.spawn d))
  | spawn (d) (hc : s.call i = .spawn d) :
      CallStep s i ({ s with workers := s.workers ++ [Worker.new d] }.setCall i
        (.assign d s.workers.length))
  | assign (d k) (hc : s.call i = .assign d k) :
      CallStep s i ((s.setDetail d { s.details d with thread := some ⟨k, true⟩ }).setCall i
        (.wait k))
  | terminate (d k w) (hc : s.call i = .assign d k) (hthread : (s.details d).thread = some ⟨w, true⟩) :
      CallStep s i { s with terminated := true }
  | wait (k) (hc : s.call i = .wait k)
      (hinit : s.workers[k]?.any (·.place.initialized) = true) :
      CallStep s i (s.setCall i (.returned k))
  | crashStart (hc : s.call i = .start)
      (hbad : s.t = none ∨ ∃ d, s.t = some d ∧ (s.details d).freed = true) : CallStep s i s.crash
  | crash (d) (hc : s.call i = .join d ∨ s.call i = .promise d ∨ ∃ k, s.call i = .assign d k)
      (hbad : (s.details d).freed = true) : CallStep s i s.crash

theorem CallStep.of_stepCall {i : ι} (h : s.stepCall i = some s') : CallStep s i s' := by
  unfold stepCall at h
  split at h
  · rename_i hc
    cases h
    exact .called hc
  · rename_i hc
    cases h
    split
    · exact .rejected hc ‹_›
    · exact .load hc (Bool.eq_false_iff.mpr ‹_›)
  · rename_i hc
    cases h
    exact .store hc
  · rename_i hc
    cases h
    exact .create hc
  · rename_i old hc
    rw [delete, Option.map_map] at h
    obtain ⟨joined, hjoin, rfl⟩ := Option.map_eq_some_iff.mp h
    exact .release old joined hc hjoin
  · rename_i hc
    split at h
    · rename_i ht
      cases h
      exact .crashStart hc (.inl ht)
    · rename_i d ht
      cases h
      unfold access
      split
      · exact .crashStart hc (.inr ⟨d, ht, ‹_›⟩)
      · exact .start d hc ht (Bool.eq_false_iff.mpr ‹_›)
  · rename_i d hc
    split at h
    · cases h
      exact .crash d (.inl hc) ‹_›
    · obtain ⟨joined, hjoin, rfl⟩ := Option.map_eq_some_iff.mp h
      exact .join d joined hc hjoin
  · rename_i d hc
    cases h
    unfold access
    split
    · exact .crash d (.inr (.inl hc)) ‹_›
    · exact .promise d hc
  · rename_i d hc
    cases h
    exact .spawn d hc
  · rename_i d k hc
    cases h
    unfold access
    split
    · exact .crash d (.inr (.inr ⟨k, hc⟩)) ‹_›
    · split
      · rename_i w hthread
        exact .terminate d k w hc hthread
      · exact .assign d k hc
  · rename_i k hc
    split at h
    · cases h
      exact .wait k hc ‹_›
    · cases h
  · cases h
  · cases h

inductive Step (kind : Kind) (s : Runnable ι) : Action ι → Runnable ι → Prop
  | stop : Step kind s .stop s.stop
  | call (i next) (h : CallStep s i next) : Step kind s (.call i) next
  | worker (k w next) (hw : s.workers[k]? = some w) (h : WorkerStep kind s k w next) :
      Step kind s (.worker k) next
  | returns (k w) (hw : s.workers[k]? = some w) (hp : w.place = .working) :
      Step kind s (.returns k) (s.setWorker k (w.setPlace .loopTest))
  | throws (k w) (hw : s.workers[k]? = some w) (hp : w.place = .working) :
      Step kind s (.throws k) { s with terminated := true }

/-- Every enabled action moves the object by one of the rules, before the process has come to its
end. -/
theorem step_cases {kind : Kind} {a : Action ι} (h : s.step kind a = some s') :
    (s.crashed = false ∧ s.terminated = false) ∧ Step kind s a s' := by
  unfold step at h
  split at h
  · cases h
  · rename_i halive
    refine ⟨by simpa using halive, ?_⟩
    cases a with
    | stop =>
        cases h
        exact .stop
    | call i => exact .call i s' (.of_stepCall h)
    | worker k =>
        obtain ⟨w, hw, hstep⟩ := WorkerStep.of_stepWorker h
        exact .worker k w s' hw hstep
    | returns k =>
        simp only at h
        split at h
        · rename_i w hw
          split at h
          · cases h
            exact .returns k w hw ‹_›
          · cases h
        · cases h
    | throws k =>
        simp only at h
        split at h
        · rename_i w hw
          split at h
          · cases h
            exact .throws k w hw ‹_›
          · cases h
        · cases h

end CommonLib.RunStop.Runnable
