import CommonLib.Verification.Timer.Equations

/-! # Who runs the destructor of a timer

The destructor waits for the thread of the timer. That thread holds a reference of its own at
its end, and where this is the last one the thread waits for itself. -/

namespace CommonLib.Timer

variable {ι : Type*}

/-- A thread exists only behind `start`, and `_future` is assigned before the caller of `start`
can give up its reference. -/
def TimerDetail.Assigned (timer : TimerDetail ι) : Prop :=
  timer.thread ≠ .none → timer.caller = .spawned ∨
    timer.future = true ∧ (timer.caller = .starting ∨ timer.caller = .started ∨
      timer.caller = .destroying ∨ timer.caller = .released)

theorem TimerDetail.Assigned.future {timer : TimerDetail ι} (h : timer.Assigned)
    (hthread : timer.thread ≠ .none) (hcaller : timer.caller ≠ .spawned) : timer.future = true :=
  ((h hthread).resolve_left hcaller).1

theorem TimerDetail.Assigned.of_none {timer : TimerDetail ι} (h : timer.thread = .none) :
    timer.Assigned :=
  fun hthread => absurd h hthread

/-- Before `start` there is no thread. -/
theorem TimerDetail.Assigned.thread_none {timer : TimerDetail ι} (h : timer.Assigned)
    (hcaller : timer.caller = .none ∨ timer.caller = .made ∨ timer.caller = .registering ∨
      timer.caller = .held) : timer.thread = .none := by
  by_contra hthread
  rcases h hthread with hc | ⟨-, hc | hc | hc | hc⟩ <;> simp [hc] at hcaller

namespace Manager

/-- The thread of the timer is in the destructor of that timer. -/
def InOwnDestructor (s : Manager ι) (t : ι) : Prop :=
  ∃ next, (s.timer t).thread = .destroying t next

/-- It is blocked there on its own future, which it completes only behind its work function. -/
def WaitsForItself (s : Manager ι) (t : ι) : Prop :=
  s.InOwnDestructor t ∧ (s.timer t).future = true

/-- No thread waits for itself. -/
def Sound (s : Manager ι) : Prop :=
  ∀ t, ¬ s.WaitsForItself t

theorem sound_init : (init : Manager ι).Sound := by
  rintro t ⟨⟨next, hthread⟩, -⟩
  cases hthread

/-- Behind `start`, and with `_future` assigned in every thread that is in its own destructor. -/
structure Waitable (s : Manager ι) : Prop where
  assigned : ∀ t, (s.timer t).Assigned
  own : ∀ t, s.InOwnDestructor t → (s.timer t).future = true

theorem waitable_init : (init : Manager ι).Waitable := by
  refine ⟨fun t hthread => absurd rfl hthread, ?_⟩
  rintro t ⟨next, hthread⟩
  cases hthread

theorem Waitable.sound_iff {s : Manager ι} (h : s.Waitable) :
    s.Sound ↔ ∀ t, ¬ s.InOwnDestructor t := by
  refine forall_congr' fun t => not_congr ⟨And.left, fun ht => ⟨ht, h.own t ht⟩⟩

variable [DecidableEq ι]

/-- Where the thread of a timer gives up a reference to that timer, at the end of `unregist` or
inside its function, there is another owner. -/
def OtherOwner (s : Manager ι) (a : Action ι) : Prop :=
  ∀ t, (a = .thread t ∧ (s.timer t).thread = .releasing ∨ a = .drop t (some t)) → s.strong t ≠ 1

/-! ## Reference counts -/

/-- In `unregist` the entry of the thread's own timer is never the last reference. -/
theorem strong_of_erasing {s : Manager ι} {t : ι} {i : ℕ} (ht : (s.timer t).thread = .erasing i)
    (hmem : t ∈ s.timers) : s.strong t ≠ 1 := by
  have hcount := List.count_pos_iff.mpr hmem
  simp only [strong, ht, Thread.holdsSelf, if_true]
  omega

/-- With the temporary as the last reference, the caller has none. -/
theorem caller_of_releasing {s : Manager ι} {t : ι} (ht : (s.timer t).thread = .releasing)
    (hstrong : s.strong t = 1) : (s.timer t).caller.holds = false := by
  simp only [strong, ht, Thread.holdsSelf, if_true] at hstrong
  cases hholds : (s.timer t).caller.holds with
  | false => rfl
  | true =>
      rw [hholds] at hstrong
      simp at hstrong

/-! ## What a step does to a timer -/

theorem assigned_setTimer {s : Manager ι} (h : ∀ u, (s.timer u).Assigned) {t : ι}
    {timer : TimerDetail ι} (ht : timer.Assigned) (u : ι) :
    ((s.setTimer t timer).timer u).Assigned :=
  forall_setTimer (P := TimerDetail.Assigned) h ht u

theorem assigned_setThread {s : Manager ι} (h : ∀ u, (s.timer u).Assigned) {t : ι}
    {thread : Thread ι} (ht : (s.timer t).thread ≠ .none) (u : ι) :
    ((s.setThread t thread).timer u).Assigned := by
  refine assigned_setTimer h ?_ u
  exact fun _ => h t ht

theorem assigned_stop {s : Manager ι} (h : ∀ u, (s.timer u).Assigned) (t u : ι) :
    ((s.stop t).timer u).Assigned := by
  refine assigned_setTimer h ?_ u
  exact h t

/-- The caller moves on before there is a thread. -/
theorem assigned_setCaller_early {s : Manager ι} (h : ∀ u, (s.timer u).Assigned) {t : ι}
    {caller : Caller} (hearly : (s.timer t).thread = .none) (u : ι) :
    ((s.setCaller t caller).timer u).Assigned := by
  refine assigned_setTimer h ?_ u
  exact .of_none hearly

theorem assigned_make {s : Manager ι} (h : ∀ u, (s.timer u).Assigned) {t : ι}
    (hc : (s.timer t).caller = .none) (async : Bool) (u : ι) :
    ((s.make t async).timer u).Assigned := by
  refine assigned_setTimer h ?_ u
  exact .of_none ((h t).thread_none (.inl hc))

/-- The caller gives up its reference. -/
theorem assigned_setCaller_late {s : Manager ι} (h : ∀ u, (s.timer u).Assigned) {t : ι}
    {caller : Caller} (hbefore : (s.timer t).caller ≠ .spawned)
    (hafter : caller = .destroying ∨ caller = .released) (u : ι) :
    ((s.setCaller t caller).timer u).Assigned := by
  refine assigned_setTimer h ?_ u
  exact fun hthread => .inr ⟨(h t).future hthread hbefore, .inr (.inr hafter)⟩

omit [DecidableEq ι] in
theorem Droppable.ne_spawned {s : Manager ι} {t : ι} (h : s.Droppable t) :
    (s.timer t).caller ≠ .spawned := by
  rcases h with h | ⟨h, -⟩ <;> simp [h]

theorem assigned_step {s s' : Manager ι} {a : Action ι} (h : ∀ u, (s.timer u).Assigned)
    (hstep : Step s a s') (u : ι) : (s'.timer u).Assigned := by
  cases hstep with
  | create t async hc => exact assigned_make h hc async u
  | createInside t async v hc hthread =>
      exact assigned_setThread (assigned_make h hc async) (by simp [hthread]) u
  | skipRegist t hc | enterRegist t hc | regist t hc =>
      exact assigned_setCaller_early h ((h t).thread_none (by simp [hc])) u
  | spawn t hc => exact assigned_setTimer h (fun _ => .inl rfl) u
  | assign t hc => exact assigned_setTimer h (fun _ => .inr ⟨rfl, .inr (.inl rfl)⟩) u
  | callerDone t hc => exact assigned_setCaller_late h (by simp [hc]) (.inr rfl) u
  | start t hc =>
      have hnone := (h t).thread_none (by simp [hc])
      refine assigned_setTimer h ?_ u
      exact .of_none hnone
  | restart t hc =>
      refine assigned_setTimer h (fun hthread => ?_) u
      exact .inr ⟨(h t).future hthread (by simp [hc]), .inl rfl⟩
  | stop t hc => exact assigned_stop h t u
  | drop t inside hc => exact assigned_setCaller_late h hc.ne_spawned (.inr rfl) u
  | dropLast t hc =>
      exact assigned_setCaller_late (assigned_stop h t) (by simpa using hc.ne_spawned) (.inl rfl) u
  | dropLastInside t v hc hstrong hthread =>
      refine assigned_setThread (assigned_setCaller_late (assigned_stop h t)
        (by simpa using hc.ne_spawned) (.inr rfl)) ?_ u
      simp [hthread]
  | eraseLast t i entry ht => exact assigned_setThread (assigned_stop h entry) (by simp [ht]) u
  | releaseLast t ht => exact assigned_setThread (assigned_stop h t) (by simp [ht]) u
  | wake t ht | call t ht | leave t ht | again t ht | «break» t ht | created t timer ht
  | fulfil t ht | share t ht | tryLock t ht | tryLockFails t ht | unlock t i ht
  | keep t i entry ht | release t ht | destroyed t timer next ht | finish t ht =>
      exact assigned_setThread h (by simp [ht]) u
  | visit i entry | clearLast entry rest => exact assigned_stop h entry u
  | startThrows | throws | expired | erase | shutdown | shutdownLock | visited | waited | clear
  | cleared | shutdownDestroyed => exact h u

/-! ## How a thread comes into its own destructor -/

theorem inOwnDestructor_setThread {s : Manager ι} {t u : ι} {thread : Thread ι}
    (h : (s.setThread t thread).InOwnDestructor u) :
    s.InOwnDestructor u ∨ u = t ∧ ∃ next, thread = .destroying t next := by
  obtain ⟨next, hu⟩ := h
  by_cases hut : u = t
  · subst hut
    rw [setThread_self] at hu
    exact .inr ⟨rfl, next, hu⟩
  · rw [setThread_of_ne s thread hut] at hu
    exact .inl ⟨next, hu⟩

omit [DecidableEq ι] in
theorem next_thread_ne (next next' : Next) (t : ι) : next.thread ≠ .destroying t next' := by
  cases next <;> simp [Next.thread]

/-- The thread gives up the last reference to its own timer. -/
def GivesUpLast (s : Manager ι) (a : Action ι) (t : ι) : Prop :=
  (a = .thread t ∧ (s.timer t).thread = .releasing ∨ a = .drop t (some t)) ∧ s.strong t = 1

theorem otherOwner_iff (s : Manager ι) (a : Action ι) :
    s.OtherOwner a ↔ ∀ t, ¬ s.GivesUpLast a t := by
  simp [OtherOwner, GivesUpLast]

theorem inOwnDestructor_cases {s s' : Manager ι} {a : Action ι} (hstep : Step s a s') {u : ι}
    (hu : s'.InOwnDestructor u) : s.InOwnDestructor u ∨
      s.GivesUpLast a u ∧ (s.timer u).thread ≠ .none ∧ (s.timer u).caller ≠ .spawned := by
  cases hstep with
  | wake t ht | call t ht | leave t ht | again t ht | «break» t ht | created t timer ht
  | fulfil t ht | share t ht | tryLock t ht | tryLockFails t ht | unlock t i ht
  | keep t i entry ht | release t ht | finish t ht =>
      rcases inOwnDestructor_setThread hu with hu | ⟨-, next, hthread⟩
      · exact .inl hu
      · cases hthread
  | destroyed t timer next ht =>
      rcases inOwnDestructor_setThread hu with hu | ⟨-, next', hthread⟩
      · exact .inl hu
      · exact absurd hthread (next_thread_ne next next' t)
  | eraseLast t i entry ht hi hpick hstrong =>
      rcases inOwnDestructor_setThread hu with ⟨next, hu⟩ | ⟨-, next, hthread⟩
      · exact .inl ⟨next, by simpa using hu⟩
      · cases hthread
        exact absurd hstrong (strong_of_erasing ht (List.mem_of_getElem? hi))
  | releaseLast t ht hstrong =>
      rcases inOwnDestructor_setThread hu with ⟨next, hu⟩ | ⟨rfl, -⟩
      · exact .inl ⟨next, by simpa using hu⟩
      · refine .inr ⟨⟨.inl ⟨rfl, ht⟩, hstrong⟩, by simp [ht], fun hc => ?_⟩
        have hholds := caller_of_releasing ht hstrong
        rw [hc] at hholds
        cases hholds
  | dropLastInside t v hc hstrong hthread =>
      rcases inOwnDestructor_setThread hu with ⟨next, hu⟩ | ⟨rfl, next, hv⟩
      · exact .inl ⟨next, by simpa using hu⟩
      · cases hv
        exact .inr ⟨⟨.inr rfl, hstrong⟩, by simp [hthread], hc.ne_spawned⟩
  | spawn t hc =>
      obtain ⟨next, hu⟩ := hu
      by_cases hut : u = t
      · subst hut
        simp at hu
      · rw [setTimer_of_ne s _ hut] at hu
        exact .inl ⟨next, hu⟩
  | createInside t async v =>
      rcases inOwnDestructor_setThread hu with ⟨next, hu⟩ | ⟨-, next, hthread⟩
      · exact .inl ⟨next, by simpa using hu⟩
      · cases hthread
  | create t =>
      obtain ⟨next, hu⟩ := hu
      exact .inl ⟨next, by simpa using hu⟩
  | assign t | start t | restart t =>
      obtain ⟨next, hu⟩ := hu
      by_cases hut : u = t
      · subst hut
        rw [setTimer_self] at hu
        exact .inl ⟨next, hu⟩
      · rw [setTimer_of_ne s _ hut] at hu
        exact .inl ⟨next, hu⟩
  | skipRegist t | enterRegist t | callerDone t | stop t | drop t | dropLast t =>
      obtain ⟨next, hu⟩ := hu
      exact .inl ⟨next, by simpa using hu⟩
  | regist t =>
      obtain ⟨next, hu⟩ := hu
      rw [setCaller_thread] at hu
      exact .inl ⟨next, hu⟩
  | visit i entry | clearLast entry rest =>
      obtain ⟨next, hu⟩ := hu
      exact .inl ⟨next, (stop_thread s entry u).symm.trans hu⟩
  | startThrows | throws | expired | erase | shutdown | shutdownLock | visited | waited | clear
  | cleared | shutdownDestroyed => exact .inl hu

theorem inOwnDestructor_of_givesUpLast {s s' : Manager ι} {a : Action ι} {t : ι}
    (h : s.GivesUpLast a t) (hstep : s.step a = some s') : s'.InOwnDestructor t := by
  obtain ⟨⟨rfl, ht⟩ | rfl, hstrong⟩ := h
  · obtain ⟨hlive, -⟩ := step_cases hstep
    simp only [step, hlive, stepThread, ht, hstrong, if_true, Bool.false_eq_true, if_false,
      Option.some.injEq] at hstep
    rw [← hstep]
    exact ⟨.returning, setThread_self _ _ _⟩
  · obtain ⟨-, hrule⟩ := step_cases hstep
    cases hrule with
    | drop t inside hc hne => exact absurd hstrong hne
    | dropLastInside t v hc hstrong hthread => exact ⟨.calling, setThread_self _ _ _⟩

/-! ## Every run -/

/-- `_future` stays valid, until it is that of another thread. -/
theorem future_of_step {s s' : Manager ι} {a : Action ι} (hstep : Step s a s') {u : ι}
    (hu : (s.timer u).future = true) (hthread : (s'.timer u).thread ≠ .sleeping) :
    (s'.timer u).future = true := by
  cases hstep with
  | spawn t =>
      by_cases hut : u = t
      · subst hut
        simp at hthread
      · rw [setTimer_of_ne s _ hut]
        exact hu
  | assign t | start t | restart t =>
      by_cases hut : u = t
      · subst hut
        simp [hu]
      · rw [setTimer_of_ne s _ hut]
        exact hu
  | visit i entry | clearLast entry rest => exact (stop_future s entry u).trans hu
  | _ => simpa using hu

theorem Waitable.step {s s' : Manager ι} {a : Action ι} (h : s.Waitable) (hstep : Step s a s') :
    s'.Waitable := by
  refine ⟨assigned_step h.assigned hstep, fun t ht => future_of_step hstep ?_ ?_⟩
  swap
  · obtain ⟨next, hthread⟩ := ht
    simp [hthread]
  rcases inOwnDestructor_cases hstep ht with ht | ⟨-, hthread, hcaller⟩
  · exact h.own t ht
  · exact (h.assigned t).future hthread hcaller

theorem Waitable.sound_step_iff {s s' : Manager ι} {a : Action ι} (h : s.Waitable) (hs : s.Sound)
    (hstep : s.step a = some s') : s'.Sound ↔ s.OtherOwner a := by
  have hrule := (step_cases hstep).2
  rw [(h.step hrule).sound_iff, otherOwner_iff]
  constructor
  · intro hsound t hlast
    exact hsound t (inOwnDestructor_of_givesUpLast hlast hstep)
  · intro hok t ht
    rcases inOwnDestructor_cases hrule ht with ht | ⟨hlast, -, -⟩
    · exact h.sound_iff.mp hs t ht
    · exact hok t hlast

/-- In a run no timer thread ever waits for itself, if and only if no thread gives up a
reference to its own timer that is the last one. -/
theorem sound_iff_otherOwner (actions : List (Action ι)) :
    (machine ι).Holds Sound init actions ↔ (machine ι).Meets OtherOwner init actions :=
  Machine.holds_iff_meets (I := Waitable) (fun _ _ _ hs hstep => hs.step (step_cases hstep).2)
    (fun _ _ _ hI hs hstep => hI.sound_step_iff hs hstep) waitable_init sound_init actions

/-- A thread that waits for itself does so for ever. -/
theorem WaitsForItself.step {s s' : Manager ι} {a : Action ι} {t : ι} (h : s.WaitsForItself t)
    (hstep : Step s a s') : s'.WaitsForItself t := by
  obtain ⟨⟨next, ht⟩, hfuture⟩ := h
  suffices hstays : (s'.timer t).thread = .destroying t next from
    ⟨⟨next, hstays⟩, future_of_step hstep hfuture (by simp [hstays])⟩
  cases hstep with
  | wake v hv | call v hv | leave v hv | again v hv | «break» v hv | created v timer hv
  | fulfil v hv | share v hv | tryLock v hv | tryLockFails v hv | unlock v i hv
  | keep v i entry hv | release v hv | finish v hv =>
      have hne : t ≠ v := ne_of_apply_ne (fun u => (s.timer u).thread) (by simp [ht, hv])
      rw [setThread_of_ne _ _ hne]
      exact ht
  | destroyed v timer next' hv hstopped =>
      have hne : t ≠ v := by
        intro heq
        subst heq
        rw [ht] at hv
        cases hv
        simp [stopped, hfuture, ht] at hstopped
      rw [setThread_of_ne _ _ hne]
      exact ht
  | eraseLast v i entry hv | releaseLast v hv | dropLastInside u v hc hstrong hv =>
      have hne : t ≠ v := ne_of_apply_ne (fun u => (s.timer u).thread) (by simp [ht, hv])
      rw [setThread_of_ne _ _ hne]
      simpa using ht
  | spawn v hc hv =>
      have hne : t ≠ v := by
        intro heq
        subst heq
        simp [ht] at hv
      rw [setTimer_of_ne s _ hne]
      exact ht
  | createInside u async v hc hv =>
      have hne : t ≠ v := ne_of_apply_ne (fun u => (s.timer u).thread) (by simp [ht, hv])
      rw [setThread_of_ne _ _ hne]
      simpa using ht
  | assign v | start v | restart v =>
      by_cases htv : t = v
      · subst htv
        simpa using ht
      · rw [setTimer_of_ne s _ htv]
        exact ht
  | visit i entry | clearLast entry rest => exact (stop_thread s entry t).trans ht
  | _ => simpa using ht

theorem WaitsForItself.run {s s' : Manager ι} {t : ι} (h : s.WaitsForItself t)
    {actions : List (Action ι)} (hrun : (machine ι).run s actions = some s') :
    s'.WaitsForItself t :=
  Machine.run_invariant (m := machine ι) (P := fun s => s.WaitsForItself t)
    (fun _ _ _ hs hstep => hs.step (step_cases hstep).2) h hrun

/-- `Timer::async` with a function that returns false at its first call: the list entry is gone,
the local variable is gone, and the temporary of `shared_from_this` is the last reference. -/
theorem async_waits_for_itself :
    ∃ s : Manager (Fin 1), (machine (Fin 1)).run init
        [.create 0 true, .caller 0, .caller 0, .start 0, .caller 0, .caller 0, .drop 0 none,
          .thread 0, .thread 0, .returns 0 false, .thread 0, .thread 0, .thread 0, .thread 0,
          .thread 0, .thread 0] = some s ∧
      s.WaitsForItself 0 ∧ ¬ s.Sound ∧ s.step (.thread 0) = none := by
  refine ⟨_, rfl, ⟨⟨.returning, rfl⟩, rfl⟩, fun hsound => ?_, rfl⟩
  exact hsound 0 ⟨⟨.returning, rfl⟩, rfl⟩

end Manager

end CommonLib.Timer
