import CommonLib.Verification.Timer.Ownership

/-! # Which timers the manager knows

`unregist` takes the timer of the calling thread out of the list, and with it every entry that is
not running. A timer between `regist` and `start` is not running either, and a timer that was
stopped has a thread that may still be in its function. -/

namespace CommonLib.Timer

variable {ι : Type*}

/-- The thread runs, and has not reached its call of `unregist`. -/
def Thread.Underway : Thread ι → Prop
  | sleeping | testing | calling | creating _ | leaving | fulfilled | destroying _ .calling => True
  | none | locking | erasing _ | releasing | destroying _ _ | returning | complete => False

/-- Behind `regist`. -/
def Caller.Registered : Caller → Prop
  | none | made | registering => False
  | held | starting | spawned | started | destroying | released => True

/-- The thread is underway, or the timer is registered and its thread is still to be started. -/
def TimerDetail.Wanted (timer : TimerDetail ι) : Prop :=
  timer.thread.Underway ∨
    timer.thread = .none ∧ (timer.caller = .held ∨ timer.caller = .starting)

/-- A thread in `unregist` belongs to a timer that was started. -/
theorem TimerDetail.not_wanted {timer : TimerDetail ι} {i : ℕ}
    (hthread : timer.thread = .erasing i) : ¬ timer.Wanted := by
  rintro (hunderway | ⟨hnone, -⟩)
  · simp [hthread, Thread.Underway] at hunderway
  · simp [hthread] at hnone

/-- A timer whose `start` has made a thread keeps it. -/
def TimerDetail.Threaded (timer : TimerDetail ι) : Prop :=
  timer.caller = .spawned ∨ timer.caller = .started → timer.thread ≠ .none

namespace Manager

/-- Before `force_stop_all`, every timer whose thread is underway or still to be started is in the
list. -/
def Known (s : Manager ι) : Prop :=
  s.shutdown = .idle → ∀ t, (s.timer t).Wanted → t ∈ s.timers

/-- Before `force_stop_all`, no `unregist` comes upon an entry that is not running and whose
thread is underway or still to be started, and no timer that is out of the list is started once
more. -/
def SparesWanted (s : Manager ι) (a : Action ι) : Prop :=
  s.shutdown = .idle → ∀ t,
    (∀ i entry, a = .thread t → (s.timer t).thread = .erasing i → s.timers[i]? = some entry →
      (s.timer entry).running = false → ¬ (s.timer entry).Wanted) ∧
    (a = .caller t → (s.timer t).caller = .starting → (s.timer t).thread = .complete →
      t ∈ s.timers)

variable [DecidableEq ι]

/-! ## Every timer is listed once -/

structure ListedOnce (s : Manager ι) : Prop where
  threaded : ∀ t, (s.timer t).Threaded
  nodup : s.timers.Nodup
  registered : ∀ t ∈ s.timers, (s.timer t).caller.Registered
  shutingdown : s.shutingdown = true → s.shutdown ≠ .idle

omit [DecidableEq ι] in
theorem listedOnce_init : (init : Manager ι).ListedOnce :=
  ⟨fun t => by simp [init, TimerDetail.Threaded], List.nodup_nil, by simp [init], by simp [init]⟩

theorem threaded_setTimer {s : Manager ι} (h : ∀ u, (s.timer u).Threaded) {t : ι}
    {timer : TimerDetail ι} (ht : timer.Threaded) (u : ι) :
    ((s.setTimer t timer).timer u).Threaded :=
  forall_setTimer (P := TimerDetail.Threaded) h ht u

theorem threaded_setThread {s : Manager ι} (h : ∀ u, (s.timer u).Threaded) (t : ι)
    {thread : Thread ι} (ht : thread ≠ .none) (u : ι) :
    ((s.setThread t thread).timer u).Threaded := by
  refine threaded_setTimer h ?_ u
  exact fun _ => ht

theorem threaded_setCaller {s : Manager ι} (h : ∀ u, (s.timer u).Threaded) (t : ι)
    {caller : Caller} (hc : caller ≠ .spawned ∧ caller ≠ .started) (u : ι) :
    ((s.setCaller t caller).timer u).Threaded := by
  refine threaded_setTimer h ?_ u
  rintro (hspawned | hstarted)
  · exact absurd hspawned hc.1
  · exact absurd hstarted hc.2

theorem threaded_stop {s : Manager ι} (h : ∀ u, (s.timer u).Threaded) (t u : ι) :
    ((s.stop t).timer u).Threaded := by
  refine threaded_setTimer h ?_ u
  exact h t

theorem threaded_make {s : Manager ι} (h : ∀ u, (s.timer u).Threaded) (t : ι) (async : Bool)
    (u : ι) : ((s.make t async).timer u).Threaded := by
  refine threaded_setTimer h ?_ u
  simp [TimerDetail.Threaded]

theorem threaded_step {s s' : Manager ι} {a : Action ι} (h : ∀ u, (s.timer u).Threaded)
    (hstep : Step s a s') (u : ι) : (s'.timer u).Threaded := by
  cases hstep with
  | create t async hc => exact threaded_make h t async u
  | createInside t async v hc =>
      exact threaded_setThread (threaded_make h t async) v (by simp) u
  | skipRegist t | enterRegist t | regist t | callerDone t | drop t =>
      exact threaded_setCaller h t (by simp) u
  | spawn t hc =>
      refine threaded_setTimer h ?_ u
      simp [TimerDetail.Threaded]
  | assign t hc =>
      refine threaded_setTimer h ?_ u
      exact fun _ => h t (.inl hc)
  | start t | restart t => exact threaded_setTimer h (by simp [TimerDetail.Threaded]) u
  | stop t => exact threaded_stop h t u
  | dropLast t => exact threaded_setCaller (threaded_stop h t) t (by simp) u
  | dropLastInside t v =>
      exact threaded_setThread (threaded_setCaller (threaded_stop h t) t (by simp)) v
        (by simp) u
  | eraseLast t i entry => exact threaded_setThread (threaded_stop h entry) t (by simp) u
  | releaseLast t => exact threaded_setThread (threaded_stop h t) t (by simp) u
  | destroyed t timer next =>
      refine threaded_setThread h t ?_ u
      cases next <;> simp [Next.thread]
  | wake t | call t | leave t | again t | «break» t | created t | fulfil t | share t | tryLock t
  | tryLockFails t | unlock t | keep t | release t | finish t =>
      exact threaded_setThread h t (by simp) u
  | visit i entry | clearLast entry rest => exact threaded_stop h entry u
  | startThrows | throws | expired | erase | shutdown | shutdownLock | visited | waited | clear
  | cleared | shutdownDestroyed => exact h u

theorem registered_setTimer {s : Manager ι} (h : ∀ u ∈ s.timers, (s.timer u).caller.Registered)
    {t : ι} {timer : TimerDetail ι}
    (ht : (s.timer t).caller.Registered → timer.caller.Registered) :
    ∀ u ∈ s.timers, ((s.setTimer t timer).timer u).caller.Registered := by
  intro u hu
  by_cases hut : u = t
  · subst hut
    rw [setTimer_self]
    exact ht (h u hu)
  · rw [setTimer_of_ne s timer hut]
    exact h u hu

theorem registered_make {s : Manager ι} (h : ∀ u ∈ s.timers, (s.timer u).caller.Registered)
    {t : ι} (hc : (s.timer t).caller = .none) (async : Bool) :
    ∀ u ∈ s.timers, ((s.make t async).timer u).caller.Registered :=
  registered_setTimer h (by simp [hc, Caller.Registered])

theorem registered_step {s s' : Manager ι} {a : Action ι} (h : s.ListedOnce)
    (hstep : Step s a s') : ∀ u ∈ s'.timers, (s'.timer u).caller.Registered := by
  have hr := h.registered
  cases hstep with
  | create t async hc => exact registered_make hr hc async
  | createInside t async v hc =>
      intro u hu
      rw [setThread_caller]
      exact registered_make hr hc async u hu
  | skipRegist t hc | enterRegist t hc =>
      exact registered_setTimer hr (by simp [hc, Caller.Registered])
  | regist t hc hlock =>
      intro u hu
      by_cases hut : u = t
      · subst hut
        simp [Manager.setCaller, Caller.Registered]
      · rw [setCaller_of_ne _ _ hut]
        exact hr u ((List.mem_append.mp hu).resolve_right (by simpa using hut))
  | spawn t hc | assign t hc | callerDone t hc | start t hc | restart t hc | drop t inside hc =>
      exact registered_setTimer hr fun _ => trivial
  | dropLast t hc =>
      exact registered_setTimer (s := s.stop t) (registered_setTimer hr id) fun _ => trivial
  | dropLastInside t v hc =>
      intro u hu
      rw [setThread_caller]
      exact registered_setTimer (s := s.stop t) (registered_setTimer hr id)
        (fun _ => show Caller.Registered .released from trivial) u hu
  | wake t ht | call t ht | leave t ht | again t ht | «break» t ht | created t timer ht
  | fulfil t ht | share t ht | tryLock t ht | tryLockFails t ht | unlock t i ht
  | keep t i entry ht | release t ht | destroyed t timer next ht | finish t ht | stop t =>
      exact registered_setTimer hr id
  | erase t i entry => exact fun u hu => hr u (List.mem_of_mem_eraseIdx hu)
  | eraseLast t i entry =>
      intro u hu
      rw [setThread_caller, stop_caller]
      exact hr u (List.mem_of_mem_eraseIdx hu)
  | releaseLast t =>
      intro u hu
      rw [setThread_caller, stop_caller]
      exact hr u hu
  | visit i entry => exact registered_setTimer hr id
  | clear entry rest hs htimers =>
      exact fun u hu => hr u (htimers ▸ List.mem_cons_of_mem entry hu)
  | clearLast entry rest hs htimers =>
      intro u hu
      have hmem : u ∈ s.timers := htimers ▸ List.mem_cons_of_mem entry hu
      exact (stop_caller s entry u).symm ▸ hr u hmem
  | startThrows | throws | expired | shutdown | shutdownLock | visited | waited | cleared
  | shutdownDestroyed => exact hr

theorem nodup_step {s s' : Manager ι} {a : Action ι} (h : s.ListedOnce) (hstep : Step s a s') :
    s'.timers.Nodup := by
  have hnodup := h.nodup
  cases hstep with
  | regist t hc =>
      have hnew : t ∉ s.timers := fun hmem => by
        simpa [hc, Caller.Registered] using h.registered t hmem
      refine List.nodup_append.mpr ⟨hnodup, by simp, fun u hu v hv heq => ?_⟩
      rw [List.mem_singleton.mp hv] at heq
      exact hnew (heq ▸ hu)
  | erase t i entry => exact List.Nodup.eraseIdx i hnodup
  | eraseLast t i entry => exact List.Nodup.eraseIdx i hnodup
  | clear entry rest hs htimers | clearLast entry rest hs htimers =>
      rw [htimers] at hnodup
      exact (List.nodup_cons.mp hnodup).2
  | _ => exact hnodup

theorem ListedOnce.step {s s' : Manager ι} {a : Action ι} (h : s.ListedOnce)
    (hstep : Step s a s') : s'.ListedOnce := by
  refine ⟨threaded_step h.threaded hstep, nodup_step h hstep, registered_step h hstep, ?_⟩
  have hshut := h.shutingdown
  cases hstep with
  | shutdown | shutdownLock | visit | visited | waited | clearLast | cleared
  | shutdownDestroyed => simp
  | _ => exact hshut

/-! ## Who is wanted -/

theorem wanted_setTimer {s : Manager ι} {t u : ι} {timer : TimerDetail ι}
    (ht : timer.Wanted → (s.timer t).Wanted) (hu : ((s.setTimer t timer).timer u).Wanted) :
    (s.timer u).Wanted :=
  of_setTimer (P := TimerDetail.Wanted) ht hu

theorem wanted_setThread {s : Manager ι} {t u : ι} {thread : Thread ι} (hnone : thread ≠ .none)
    (ht : thread.Underway → (s.timer t).thread.Underway)
    (hu : ((s.setThread t thread).timer u).Wanted) : (s.timer u).Wanted := by
  refine wanted_setTimer (fun hwanted => ?_) hu
  exact .inl (ht (hwanted.resolve_right fun h => hnone h.1))

theorem wanted_setCaller {s : Manager ι} {t u : ι} {caller : Caller}
    (hc : caller = .held ∨ caller = .starting →
      (s.timer t).caller = .held ∨ (s.timer t).caller = .starting)
    (hu : ((s.setCaller t caller).timer u).Wanted) : (s.timer u).Wanted := by
  refine wanted_setTimer (fun hwanted => ?_) hu
  exact Or.imp_right (And.imp_right hc) hwanted

theorem wanted_make {s : Manager ι} {t u : ι} {async : Bool}
    (hu : ((s.make t async).timer u).Wanted) : (s.timer u).Wanted := by
  refine wanted_setTimer (fun hwanted => ?_) hu
  exact hwanted.imp_right (by simp)

@[simp] theorem wanted_stop (s : Manager ι) (t u : ι) :
    ((s.stop t).timer u).Wanted ↔ (s.timer u).Wanted := by
  simp [TimerDetail.Wanted]

/-- A timer is wanted from the end of its `regist` on, which puts it into the list, and once more
from every further start. -/
theorem wanted_cases {s s' : Manager ι} {a : Action ι} (h : s.ListedOnce) (hstep : Step s a s')
    (hs : s.shutdown = .idle) {u : ι} (hu : (s'.timer u).Wanted) :
    (s.timer u).Wanted ∨ u ∈ s'.timers ∨
      a = .caller u ∧ (s.timer u).caller = .starting ∧ (s.timer u).thread = .complete := by
  cases hstep with
  | create t async hc => exact .inl (wanted_make hu)
  | createInside t async v hc hthread =>
      refine .inl (wanted_make (wanted_setThread (by simp) (fun _ => ?_) hu))
      simp [hthread, Thread.Underway]
  | skipRegist t hc hshut => exact absurd hs (h.shutingdown hshut)
  | enterRegist t hc | callerDone t hc | drop t inside hc =>
      exact .inl (wanted_setCaller (by simp) hu)
  | regist t hc hlock =>
      by_cases hut : u = t
      · subst hut
        exact .inr (.inl (List.mem_append_right _ (List.mem_singleton_self u)))
      · rw [setCaller_of_ne _ _ hut] at hu
        exact .inl hu
  | spawn t hc hthread =>
      rcases hthread with hnone | hcomplete
      · exact .inl (wanted_setTimer (fun _ => .inr ⟨hnone, .inr hc⟩) hu)
      · by_cases hut : u = t
        · subst hut
          exact .inr (.inr ⟨rfl, hc, hcomplete⟩)
        · rw [setTimer_of_ne s _ hut] at hu
          exact .inl hu
  | assign t hc =>
      refine .inl (wanted_setTimer (fun hwanted => ?_) hu)
      exact hwanted.imp_right (by simp)
  | start t hc =>
      refine .inl (wanted_setTimer (fun hwanted => ?_) hu)
      exact hwanted.imp_right fun hnone => ⟨hnone.1, .inl hc⟩
  | stop t => exact .inl ((wanted_stop s t u).mp hu)
  | dropLast t hc => exact .inl ((wanted_stop s t u).mp (wanted_setCaller (by simp) hu))
  | dropLastInside t v hc hstrong hthread =>
      refine .inl ((wanted_stop s t u).mp (wanted_setCaller (by simp)
        (wanted_setThread (by simp) (fun _ => ?_) hu)))
      simp [hthread, Thread.Underway]
  | restart t hc =>
      refine .inl (wanted_setTimer (fun hwanted => ?_) hu)
      exact .inl (hwanted.resolve_right fun hnone => h.threaded t (.inr hc) hnone.1)
  | wake t ht | call t ht | leave t ht | again t ht | «break» t ht | created t timer ht
  | fulfil t ht =>
      exact .inl (wanted_setThread (by simp) (by simp [ht, Thread.Underway]) hu)
  | share t ht | tryLock t ht | tryLockFails t ht | unlock t i ht | keep t i entry ht
  | release t ht | finish t ht =>
      exact .inl (wanted_setThread (by simp) (by simp [Thread.Underway]) hu)
  | destroyed t timer next ht =>
      refine .inl (wanted_setThread ?_ ?_ hu)
      · cases next <;> simp [Next.thread]
      · cases next <;> simp [ht, Next.thread, Thread.Underway]
  | erase t i entry => exact .inl hu
  | eraseLast t i entry =>
      have hstop := wanted_setThread (by simp) (by simp [Thread.Underway]) hu
      exact .inl ((wanted_stop _ entry u).mp hstop)
  | releaseLast t =>
      have hstop := wanted_setThread (by simp) (by simp [Thread.Underway]) hu
      exact .inl ((wanted_stop _ t u).mp hstop)
  | visit i entry | clearLast entry rest => exact .inl ((wanted_stop s entry u).mp hu)
  | startThrows | throws | expired | shutdown | shutdownLock | visited | waited | clear
  | cleared | shutdownDestroyed => exact .inl hu

/-! ## Who is taken out of the list -/

/-- Before `force_stop_all` only `unregist` takes an entry out: the own one, or one that is not
running. -/
theorem mem_timers_cases {s s' : Manager ι} {a : Action ι} (hstep : Step s a s')
    (hs : s.shutdown = .idle) {u : ι} (hu : u ∈ s.timers) :
    u ∈ s'.timers ∨ ∃ t i, a = .thread t ∧ (s.timer t).thread = .erasing i ∧
      s.timers[i]? = some u ∧ (u = t ∨ (s.timer u).running = false) := by
  have herase : ∀ i entry, s.timers[i]? = some entry → u ∈ s.timers.eraseIdx i ∨ u = entry := by
    intro i entry hi
    obtain ⟨j, hj⟩ := List.mem_iff_getElem?.mp hu
    by_cases hji : j = i
    · rw [hji, hi] at hj
      exact .inr (Option.some.inj hj).symm
    · exact .inl (List.mem_eraseIdx_iff_getElem?.mpr ⟨j, hji, hj⟩)
  cases hstep with
  | regist t hc => exact .inl (List.mem_append_left _ hu)
  | erase t i entry ht hi hpick | eraseLast t i entry ht hi hpick =>
      rcases herase i entry hi with hmem | heq
      · exact .inl hmem
      · subst heq
        exact .inr ⟨t, i, rfl, ht, hi, hpick⟩
  | clear entry rest hclear | clearLast entry rest hclear => simp [hs] at hclear
  | _ => exact .inl hu

/-- A timer that `unregist` should have spared is not in the list any more, and is still wanted. -/
theorem not_mem_of_erasing {s s' : Manager ι} {t : ι} (h : s.ListedOnce) {i : ℕ} {entry : ι}
    (ht : (s.timer t).thread = .erasing i) (hi : s.timers[i]? = some entry)
    (hrunning : (s.timer entry).running = false) (hwanted : (s.timer entry).Wanted)
    (hstep : Step s (.thread t) s') :
    s'.shutdown = s.shutdown ∧ (s'.timer entry).Wanted ∧ entry ∉ s'.timers := by
  have hgone : entry ∉ s.timers.eraseIdx i := by
    intro hmem
    obtain ⟨j, hji, hj⟩ := List.mem_eraseIdx_iff_getElem?.mp hmem
    have hlt : i < s.timers.length := (List.getElem?_eq_some_iff.mp hi).1
    exact hji ((List.getElem?_inj hlt h.nodup).mp (hi.trans hj.symm)).symm
  have hne : entry ≠ t := by
    intro heq
    subst heq
    exact TimerDetail.not_wanted ht hwanted
  cases hstep with
  | keep t i' entry' ht' hi' hne' hrunning' =>
      cases ht.symm.trans ht'
      cases hi.symm.trans hi'
      cases hrunning.symm.trans hrunning'
  | unlock t i' ht' hi' =>
      cases ht.symm.trans ht'
      cases hi.symm.trans hi'
  | erase t i' entry' ht' hi' =>
      cases ht.symm.trans ht'
      exact ⟨rfl, hwanted, hgone⟩
  | eraseLast t i' entry' ht' hi' =>
      cases ht.symm.trans ht'
      refine ⟨rfl, ?_, hgone⟩
      rw [setThread_of_ne _ _ hne]
      exact (wanted_stop _ _ entry).mpr hwanted
  | wake t ht' | call t ht' | leave t ht' | created t timer ht' | fulfil t ht' | expired t ht'
  | share t ht' | tryLock t ht' | release t ht' | releaseLast t ht' | destroyed t timer next ht'
  | finish t ht' => cases ht.symm.trans ht'

/-! ## Every run -/

omit [DecidableEq ι] in
theorem known_init : (init : Manager ι).Known := by
  rintro - t (hthread | ⟨-, hcaller | hcaller⟩)
  · exact hthread.elim
  · cases hcaller
  · cases hcaller

/-- A timer that is started once more is wanted from then on. -/
theorem mem_of_spawn {s s' : Manager ι} {t : ι} (hknown : s'.Known) (hidle : s.shutdown = .idle)
    (hc : (s.timer t).caller = .starting) (hstep : Step s (.caller t) s') : t ∈ s.timers := by
  cases hstep with
  | spawn t hc' =>
      refine hknown hidle t (.inl ?_)
      rw [setTimer_self]
      trivial
  | skipRegist t hc' | enterRegist t hc' | regist t hc' | assign t hc' | callerDone t hc' =>
      cases hc.symm.trans hc'

theorem ListedOnce.known_step_iff {s s' : Manager ι} {a : Action ι} (h : s.ListedOnce)
    (hs : s.Known) (hstep : s.step a = some s') : s'.Known ↔ s.SparesWanted a := by
  have hrule := (step_cases hstep).2
  constructor
  · intro hknown hidle t
    constructor
    · intro i entry ha ht hi hrunning hwanted
      subst ha
      obtain ⟨hshutdown, hwanted', hgone⟩ := not_mem_of_erasing h ht hi hrunning hwanted hrule
      exact hgone (hknown (hshutdown.trans hidle) entry hwanted')
    · intro ha hc hthread
      subst ha
      exact mem_of_spawn hknown hidle hc hrule
  · intro hspares hidle' u hu
    have hidle : s.shutdown = .idle := by
      cases hrule with
      | shutdown | shutdownLock | visit | visited | waited | clearLast | cleared
      | shutdownDestroyed => cases hidle'
      | _ => exact hidle'
    rcases wanted_cases h hrule hidle hu with hwanted | hmem | ⟨ha, hc, hthread⟩
    · rcases mem_timers_cases hrule hidle (hs hidle u hwanted) with hmem |
        ⟨t, i, ha, ht, hi, hpick⟩
      · exact hmem
      · rcases hpick with rfl | hrunning
        · exact absurd hwanted (TimerDetail.not_wanted ht)
        · exact absurd hwanted ((hspares hidle t).1 i u ha ht hi hrunning)
    · exact hmem
    · rcases mem_timers_cases hrule hidle ((hspares hidle u).2 ha hc hthread) with hmem |
        ⟨t, i, ha', -⟩
      · exact hmem
      · cases ha.symm.trans ha'

/-- In a run the manager knows every timer it should, if and only if `unregist` spares them. -/
theorem known_iff_sparesWanted (actions : List (Action ι)) :
    (machine ι).Holds Known init actions ↔ (machine ι).Meets SparesWanted init actions :=
  Machine.holds_iff_meets (I := ListedOnce) (fun _ _ _ hs hstep => hs.step (step_cases hstep).2)
    (fun _ _ _ hI hs hstep => hI.known_step_iff hs hstep) listedOnce_init known_init actions

/-- Timer 1 is registered when the thread of timer 0 ends, and started behind that. -/
theorem unregist_removes_created :
    ∃ s : Manager (Fin 2), (machine (Fin 2)).run init
        [.create 0 false, .caller 0, .caller 0, .create 1 false, .caller 1, .caller 1, .start 0,
          .caller 0, .caller 0, .thread 0, .thread 0, .returns 0 false, .thread 0, .thread 0,
          .thread 0, .thread 0, .thread 0, .start 1, .caller 1] = some s ∧
      s.shutdown = .idle ∧ (s.timer 1).thread = .sleeping ∧ s.timers = [] ∧ ¬ s.Known := by
  refine ⟨_, rfl, rfl, rfl, rfl, fun h => ?_⟩
  exact absurd (h rfl 1 (.inl trivial)) (by decide)

end Manager

end CommonLib.Timer
