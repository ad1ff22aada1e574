import CommonLib.Verification.Timer.Equations
import Mathlib.Data.Fintype.Basic

/-! # What `force_stop_all` leaves behind

It raises `_shutingdown`, takes the lock and waits for every timer with the lock held. `regist`
looks at the flag before it takes the lock, so a call that has found the flag down may be blocked
there all the while, also in the function of a timer that is waited for. `unregist` only tries. -/

namespace CommonLib.Timer

variable {ι : Type*}

/-- `force_stop_all` holds the lock. -/
def Shutdown.Inside : Shutdown ι → Prop
  | idle | locking | done => False
  | visiting _ | waiting _ | clearing | destroying _ => True

/-- The thread is in `remove_if`, or in a destructor that runs there. -/
def Thread.Erases : Thread ι → Prop
  | erasing _ | destroying _ (.erasing _) => True
  | _ => False

namespace Manager

/-- `force_stop_all` is blocked in `wait_until_stop` of the timer. -/
def WaitsFor (s : Manager ι) (t : ι) : Prop :=
  s.shutdown = .destroying t ∨ ∃ i, s.shutdown = .waiting i ∧ s.timers[i]? = some t

/-- The thread of the timer is blocked on the lock of the manager: its function makes a timer,
which is at the lock in `regist`. -/
def BlockedOnLock (s : Manager ι) (t : ι) : Prop :=
  s.lock ≠ none ∧ ∃ u, (s.timer t).thread = .creating u ∧ (s.timer u).caller = .registering

/-- `force_stop_all` does not wait for a timer that is blocked on the lock, and leaves an empty
list. -/
def Final (s : Manager ι) : Prop :=
  (∀ t, ¬ (s.WaitsFor t ∧ s.BlockedOnLock t)) ∧ (s.shutdown = .done → s.timers = [])

/-- When `force_stop_all` takes the lock, no `regist` is between its test of `_shutingdown` and
the lock. -/
def NoneBetween (s : Manager ι) (a : Action ι) : Prop :=
  a = .shutdown → s.shutdown = .locking → ∀ t, (s.timer t).caller ≠ .registering

variable [DecidableEq ι]

instance decidableNoneBetween [Fintype ι] (s : Manager ι) (a : Action ι) :
    Decidable (s.NoneBetween a) :=
  inferInstanceAs (Decidable (a = .shutdown → s.shutdown = .locking →
    ∀ t, (s.timer t).caller ≠ .registering))

/-! ## Nobody is behind the test -/

structure Quiet (s : Manager ι) : Prop where
  shutingdown : s.shutdown ≠ .idle → s.shutingdown = true
  none_behind : s.shutdown.Inside ∨ s.shutdown = .done → ∀ t, (s.timer t).caller ≠ .registering
  empty : s.shutdown = .done → s.timers = []

omit [DecidableEq ι] in
theorem quiet_init : (init : Manager ι).Quiet :=
  ⟨fun h => absurd rfl h, fun _ _ => Caller.noConfusion, fun _ => rfl⟩

/-- Only the test of `_shutingdown` brings a call of `regist` to the lock. -/
theorem registering_cases {s s' : Manager ι} {a : Action ι} (hstep : Step s a s') {u : ι}
    (hu : (s'.timer u).caller = .registering) :
    (s.timer u).caller = .registering ∨ s.shutingdown = false := by
  have hset : ∀ {s : Manager ι} {t : ι} {timer : TimerDetail ι}, timer.caller ≠ .registering →
      ((s.setTimer t timer).timer u).caller = .registering →
        (s.timer u).caller = .registering := by
    intro s t timer hne hu
    by_cases hut : u = t
    · subst hut
      rw [setTimer_self] at hu
      exact absurd hu hne
    · rwa [setTimer_of_ne s timer hut] at hu
  cases hstep with
  | enterRegist t hc hshut => exact .inr hshut
  | create t | skipRegist t | spawn t | assign t | callerDone t | start t | restart t | drop t =>
      exact .inl (hset (by simp) hu)
  | regist t => exact .inl (hset (s := { s with timers := s.timers ++ [t] }) (by simp) hu)
  | createInside t async v =>
      rw [setThread_caller] at hu
      exact .inl (hset (by simp) hu)
  | dropLast t =>
      have hstop := hset (s := s.stop t) (by simp) hu
      exact .inl (by simpa using hstop)
  | dropLastInside t v =>
      rw [setThread_caller] at hu
      have hstop := hset (s := s.stop t) (by simp) hu
      exact .inl (by simpa using hstop)
  | visit i entry | clearLast entry rest => exact .inl ((stop_caller s entry u).symm.trans hu)
  | eraseLast t i entry =>
      rw [setThread_caller, stop_caller] at hu
      exact .inl hu
  | tryLock t | unlock t =>
      rw [setThread_caller] at hu
      exact .inl hu
  | _ => exact .inl (by simpa using hu)

/-- Only `regist` adds to the list. -/
theorem timers_cases {s s' : Manager ι} {a : Action ι} (hstep : Step s a s')
    (hempty : s.timers = []) : s'.timers = [] ∨ ∃ t, (s.timer t).caller = .registering := by
  cases hstep with
  | regist t hc => exact .inr ⟨t, hc⟩
  | erase t i | eraseLast t i =>
      refine .inl ?_
      change s.timers.eraseIdx i = []
      rw [hempty, List.eraseIdx_nil]
  | clear entry rest hs htimers | clearLast entry rest hs htimers =>
      rw [hempty] at htimers
      cases htimers
  | _ => exact .inl hempty

/-- Behind the lock of `force_stop_all` the flag keeps every further call away. -/
theorem Quiet.none_step {s s' : Manager ι} {a : Action ι} (h : s.Quiet) (hstep : Step s a s')
    (hs : s.shutdown.Inside ∨ s.shutdown = .done) (t : ι) :
    (s'.timer t).caller ≠ .registering := by
  intro ht
  rcases registering_cases hstep ht with ht | hdown
  · exact h.none_behind hs t ht
  · have hidle : s.shutdown ≠ .idle := by
      intro hidle
      simp [hidle, Shutdown.Inside] at hs
    rw [h.shutingdown hidle] at hdown
    cases hdown

/-- A step that does not move `force_stop_all`. -/
theorem Quiet.keep {s s' : Manager ι} {a : Action ι} (h : s.Quiet) (hstep : Step s a s')
    (hshutdown : s'.shutdown = s.shutdown) (hflag : s'.shutingdown = s.shutingdown) :
    s'.Quiet := by
  refine ⟨?_, ?_, ?_⟩
  · rw [hshutdown, hflag]
    exact h.shutingdown
  · rw [hshutdown]
    exact h.none_step hstep
  · rw [hshutdown]
    intro hdone
    refine (timers_cases hstep (h.empty hdone)).resolve_right ?_
    rintro ⟨t, ht⟩
    exact h.none_behind (.inr hdone) t ht

/-- A step of `force_stop_all` with the lock. -/
theorem Quiet.advance {s s' : Manager ι} {a : Action ι} (h : s.Quiet) (hstep : Step s a s')
    (hs : s.shutdown.Inside) (hflag : s'.shutingdown = s.shutingdown)
    (hdone : s'.shutdown = .done → s'.timers = []) : s'.Quiet := by
  refine ⟨fun _ => hflag.trans (h.shutingdown fun hidle => ?_), fun _ => ?_, hdone⟩
  · simp [hidle, Shutdown.Inside] at hs
  · exact h.none_step hstep (.inl hs)

theorem Quiet.step {s s' : Manager ι} {a : Action ι} (h : s.Quiet) (hok : s.NoneBetween a)
    (hstep : Step s a s') : s'.Quiet := by
  have hrule := hstep
  cases hrule with
  | shutdown hs => exact ⟨fun _ => rfl, by simp [Shutdown.Inside], by simp⟩
  | shutdownLock hs hlock =>
      exact ⟨fun _ => h.shutingdown (by simp [hs]), fun _ => hok rfl hs, by simp⟩
  | visit i entry hs | visited i hs | waited i entry hs | clear entry rest hs
  | clearLast entry rest hs | shutdownDestroyed timer hs =>
      exact h.advance hstep (by simp [hs, Shutdown.Inside]) rfl (by simp [hs])
  | cleared hs htimers =>
      exact h.advance hstep (by simp [hs, Shutdown.Inside]) rfl fun _ => htimers
  | _ => exact h.keep hstep rfl rfl

theorem Reaches.quiet {s : Manager ι} (h : (machine ι).Reaches NoneBetween s) : s.Quiet :=
  h.invariant quiet_init fun _ _ _ hs hok hstep => hs.step hok (step_cases hstep).2

omit [DecidableEq ι] in
theorem Quiet.final {s : Manager ι} (h : s.Quiet) : s.Final := by
  refine ⟨?_, h.empty⟩
  rintro t ⟨hwaits, -, u, -, hu⟩
  have hinside : s.shutdown.Inside := by
    rcases hwaits with hs | ⟨i, hs, -⟩ <;> simp [hs, Shutdown.Inside]
  exact h.none_behind (.inl hinside) u hu

/-! ## Who is behind the test when the lock is taken -/

/-- Who is at work on the list holds the lock. -/
structure Owned (s : Manager ι) : Prop where
  thread : ∀ t, (s.timer t).thread.Erases → s.lock = some (.thread t)
  shutdown : s.shutdown.Inside → s.lock = some .shutdown

omit [DecidableEq ι] in
theorem owned_init : (init : Manager ι).Owned :=
  ⟨fun _ h => h.elim, fun h => h.elim⟩

theorem erases_setTimer {s : Manager ι} {t u : ι} {timer : TimerDetail ι}
    (ht : timer.thread.Erases → (s.timer t).thread.Erases)
    (hu : ((s.setTimer t timer).timer u).thread.Erases) : (s.timer u).thread.Erases :=
  of_setTimer (P := fun timer => timer.thread.Erases) ht hu

theorem erases_setThread {s : Manager ι} {t u : ι} {thread : Thread ι}
    (ht : thread.Erases → (s.timer t).thread.Erases)
    (hu : ((s.setThread t thread).timer u).thread.Erases) : (s.timer u).thread.Erases :=
  erases_setTimer ht hu

/-- A thread comes to the list only through `try_lock`. -/
theorem erases_cases {s s' : Manager ι} {a : Action ι} (hstep : Step s a s') {u : ι}
    (hu : (s'.timer u).thread.Erases) :
    (s.timer u).thread.Erases ∨ s.lock = none ∧ s'.lock = some (.thread u) := by
  cases hstep with
  | tryLock t ht hlock =>
      by_cases hut : u = t
      · subst hut
        exact .inr ⟨hlock, rfl⟩
      · rw [setThread_of_ne _ _ hut] at hu
        exact .inl hu
  | wake t | call t | leave t | again t | «break» t | created t | fulfil t | share t
  | tryLockFails t | release t | finish t =>
      exact .inl (erases_setThread (by simp [Thread.Erases]) hu)
  | unlock t i =>
      exact .inl (erases_setThread (s := { s with lock := none }) (by simp [Thread.Erases]) hu)
  | keep t i entry ht => exact .inl (erases_setThread (by simp [ht, Thread.Erases]) hu)
  | eraseLast t i entry ht =>
      have hstop := erases_setThread (by simp [ht, Thread.Erases]) hu
      rw [stop_thread] at hstop
      exact .inl hstop
  | releaseLast t =>
      have hstop := erases_setThread (by simp [Thread.Erases]) hu
      exact .inl (by simpa using hstop)
  | dropLastInside t v =>
      have hstop := erases_setThread (by simp [Thread.Erases]) hu
      exact .inl (by simpa using hstop)
  | createInside t async v =>
      have hmake := erases_setThread (by simp [Thread.Erases]) hu
      exact .inl (by simpa using hmake)
  | destroyed t timer next ht =>
      refine .inl (erases_setThread ?_ hu)
      cases next <;> simp [ht, Next.thread, Thread.Erases]
  | spawn t => exact .inl (erases_setTimer (by simp [Thread.Erases]) hu)
  | assign t | start t | restart t =>
      refine .inl (erases_setTimer ?_ hu)
      exact id
  | regist t =>
      rw [setCaller_thread] at hu
      exact .inl hu
  | visit i entry | clearLast entry rest => exact .inl ((stop_thread s entry u) ▸ hu)
  | _ => exact .inl (by simpa using hu)

/-- A thread that unlocks is not at the list any more. -/
theorem Owned.thread_step {s s' : Manager ι} {a : Action ι} (h : s.Owned) (hstep : Step s a s')
    (u : ι) (hu : (s'.timer u).thread.Erases) : s'.lock = some (.thread u) := by
  rcases erases_cases hstep hu with herases | ⟨-, hlocked⟩
  · have hlock := h.thread u herases
    cases hstep with
    | tryLock t ht hnone | shutdownLock hs hnone => cases hlock.symm.trans hnone
    | cleared hs => cases hlock.symm.trans (h.shutdown (by simp [hs, Shutdown.Inside]))
    | unlock t i ht =>
        have hself := h.thread t (by simp [ht, Thread.Erases])
        cases hlock.symm.trans hself
        rw [setThread_self] at hu
        exact hu.elim
    | _ => exact hlock
  · exact hlocked

theorem Owned.shutdown_step {s s' : Manager ι} {a : Action ι} (h : s.Owned) (hstep : Step s a s')
    (hs' : s'.shutdown.Inside) : s'.lock = some .shutdown := by
  cases hstep with
  | shutdownLock => rfl
  | tryLock t ht hnone => cases (h.shutdown hs').symm.trans hnone
  | unlock t i ht =>
      cases (h.shutdown hs').symm.trans (h.thread t (by simp [ht, Thread.Erases]))
  | shutdown | cleared => exact hs'.elim
  | visit i entry hs | visited i hs | waited i entry hs | clearLast entry rest hs
  | shutdownDestroyed timer hs => exact h.shutdown (by simp [hs, Shutdown.Inside])
  | _ => exact h.shutdown hs'

theorem Reachable.owned {s : Manager ι} (h : (machine ι).Reachable s) : s.Owned :=
  h.invariant owned_init fun _ _ _ hs _ hstep =>
    ⟨hs.thread_step (step_cases hstep).2, hs.shutdown_step (step_cases hstep).2⟩

/-- A call of `regist` that is blocked on the lock while `force_stop_all` holds it. -/
def KeptOut (s : Manager ι) (t : ι) : Prop :=
  s.Owned ∧ (s.timer t).caller = .registering ∧ s.shutdown.Inside

/-- No rule but `regist` moves a caller that is at the lock. -/
theorem registering_step {s s' : Manager ι} {a : Action ι} (hstep : Step s a s') {t : ι}
    (ht : (s.timer t).caller = .registering) (hlock : s.lock ≠ none) :
    (s'.timer t).caller = .registering := by
  have hset : ∀ {s : Manager ι} {u : ι} {timer : TimerDetail ι},
      (s.timer t).caller = .registering → (s.timer u).caller ≠ .registering →
        ((s.setTimer u timer).timer t).caller = .registering := by
    intro s u timer ht hu
    have hne : t ≠ u := by
      intro heq
      exact hu (heq ▸ ht)
    rw [setTimer_of_ne s timer hne]
    exact ht
  have hdrop : ∀ {u : ι}, s.Droppable u → (s.timer u).caller ≠ .registering := by
    rintro u (hc | ⟨hc, -⟩) <;> simp [hc]
  cases hstep with
  | regist u hc hnone => exact absurd hnone hlock
  | create u async hc => exact hset ht (by simp [hc])
  | createInside u async v hc =>
      rw [setThread_caller]
      exact hset ht (by simp [hc])
  | skipRegist u hc | enterRegist u hc | spawn u hc | assign u hc | callerDone u hc | start u hc
  | restart u hc => exact hset ht (by simp [hc])
  | drop u inside hc => exact hset ht (hdrop hc)
  | dropLast u hc =>
      exact hset ((stop_caller s u t).trans ht) (by simpa using hdrop hc)
  | dropLastInside u v hc =>
      rw [setThread_caller]
      exact hset ((stop_caller s u t).trans ht) (by simpa using hdrop hc)
  | visit i entry | clearLast entry rest => exact (stop_caller s entry t).trans ht
  | eraseLast u i entry =>
      rw [setThread_caller]
      exact (stop_caller _ entry t).trans ht
  | tryLock u | unlock u =>
      rw [setThread_caller]
      exact ht
  | _ => simpa using ht

theorem inside_step {s s' : Manager ι} {a : Action ι} (hstep : Step s a s')
    (hs : s.shutdown.Inside) : s'.shutdown.Inside ∨ s'.shutdown = .done := by
  cases hstep with
  | shutdown hidle => simp [hidle, Shutdown.Inside] at hs
  | cleared => exact .inr rfl
  | shutdownLock | visit | visited | waited | clearLast | shutdownDestroyed => exact .inl trivial
  | _ => exact .inl hs

theorem done_step {s s' : Manager ι} {a : Action ι} (hstep : Step s a s')
    (hs : s.shutdown = .done) : s'.shutdown = .done := by
  cases hstep with
  | shutdown h | shutdownLock h | visit i entry h | visited i h | waited i entry h
  | clear entry rest h | clearLast entry rest h | cleared h | shutdownDestroyed timer h =>
      cases hs.symm.trans h
  | _ => exact hs

theorem KeptOut.run {s s' : Manager ι} {t : ι} (h : s.KeptOut t) {actions : List (Action ι)}
    (hrun : (machine ι).run s actions = some s') : s'.KeptOut t ∨ s'.shutdown = .done := by
  refine Machine.run_invariant (m := machine ι)
    (P := fun s => s.KeptOut t ∨ s.shutdown = .done) ?_ (.inl h) hrun
  intro s a s' hs hstep
  have hrule := (step_cases hstep).2
  rcases hs with ⟨howned, ht, hinside⟩ | hdone
  · have hlock : s.lock ≠ none := by simp [howned.shutdown hinside]
    refine (inside_step hrule hinside).imp_left fun hinside' => ?_
    exact ⟨⟨howned.thread_step hrule, howned.shutdown_step hrule⟩,
      registering_step hrule ht hlock, hinside'⟩
  · exact .inr (done_step hrule hdone)

theorem KeptOut.blocked {s : Manager ι} {t : ι} (h : s.KeptOut t) :
    (s.timer t).caller = .registering ∧ s.lock = some .shutdown ∧ s.step (.caller t) = none := by
  have hlock := h.1.shutdown h.2.2
  refine ⟨h.2.1, hlock, ?_⟩
  simp [Manager.step, stepCaller, h.2.1, hlock]

/-- Where `force_stop_all` returns, the call that it kept out goes on. -/
theorem KeptOut.returned {s s' : Manager ι} {t : ι} (h : s.KeptOut t)
    (hstep : s.step .shutdown = some s') (hdone : s'.shutdown = .done) :
    ∃ s'', s'.step (.caller t) = some s'' ∧ s''.shutdown = .done ∧ s''.timers = [t] := by
  obtain ⟨hlive, hrule⟩ := step_cases hstep
  cases hrule with
  | cleared hs htimers =>
      let next : Manager ι := { s with
        lock := none
        shutdown := .done
        timers := s.timers ++ [t] }
      refine ⟨next.setCaller t .held, ?_, rfl, ?_⟩
      · simp [Manager.step, stepCaller, hlive, h.2.1, next]
      · change s.timers ++ [t] = [t]
        rw [htimers, List.nil_append]
  | shutdown | shutdownLock | visit | visited | waited | clearLast | shutdownDestroyed =>
      cases hdone
  | clear entry rest hs => cases hs.symm.trans hdone

/-! ## Every run -/

/-- As long as `force_stop_all` takes the lock with no `regist` behind the test, it neither waits
for a timer that is blocked on the lock, nor is anything in the list behind it. A call that is
behind the test is blocked until `force_stop_all` returns, and fills the list then. -/
theorem final_of_noneBetween :
    (∀ s : Manager ι, (machine ι).Reaches NoneBetween s → s.Final) ∧
    ∀ (s : Manager ι) (a : Action ι) (s' : Manager ι), (machine ι).Reachable s →
      s.step a = some s' → ¬ s.NoneBetween a →
        ∃ t, ∀ actions s'', (machine ι).run s' actions = some s'' → s''.shutdown ≠ .done →
          ((s''.timer t).caller = .registering ∧ s''.lock = some .shutdown ∧
            s''.step (.caller t) = none) ∧
          ∀ s₃, s''.step .shutdown = some s₃ → s₃.shutdown = .done →
            ∃ s₄, s₃.step (.caller t) = some s₄ ∧ s₄.shutdown = .done ∧ s₄.timers = [t] := by
  refine ⟨fun s hs => (Reaches.quiet hs).final, ?_⟩
  intro s a s' hs hstep hok
  simp only [NoneBetween, not_forall, not_not] at hok
  obtain ⟨rfl, hlocking, t, ht⟩ := hok
  have hrule := (step_cases hstep).2
  have howned : s'.Owned :=
    Reachable.owned (Machine.Reaches.step (a := .shutdown) hs trivial hstep)
  have hkept : s'.KeptOut t := by
    cases hrule with
    | shutdownLock => exact ⟨howned, ht, trivial⟩
    | shutdown h | visit i entry h | visited i h | waited i entry h | clear entry rest h
    | clearLast entry rest h | cleared h | shutdownDestroyed timer h =>
        cases hlocking.symm.trans h
  refine ⟨t, fun actions s'' hrun hdone => ?_⟩
  have hkept'' := (hkept.run hrun).resolve_right hdone
  exact ⟨hkept''.blocked, fun s₃ hstep₃ hdone₃ => hkept''.returned hstep₃ hdone₃⟩

/-- A timer that is registered before `force_stop_all` begins. -/
theorem final_registered :
    ∃ s : Manager (Fin 1), (machine (Fin 1)).run init
        [.create 0 false, .caller 0, .caller 0, .shutdown, .shutdown, .shutdown, .shutdown,
          .shutdown, .shutdown, .shutdown] = some s ∧
      s.shutdown = .done ∧ s.Final := by
  have hmeets : (machine (Fin 1)).Meets NoneBetween init
      [.create 0 false, .caller 0, .caller 0, .shutdown, .shutdown, .shutdown, .shutdown,
        .shutdown, .shutdown, .shutdown] := by
    decide
  refine ⟨_, rfl, rfl, ?_⟩
  exact final_of_noneBetween.1 _ (Machine.Reaches.init.run_of_meets hmeets rfl)

/-- The function of timer 0 makes timer 1 and has passed the test when `force_stop_all` begins,
which waits for timer 0. -/
theorem forceStop_deadlock :
    ∃ s : Manager (Fin 2), (machine (Fin 2)).run init
        [.create 0 false, .caller 0, .caller 0, .start 0, .caller 0, .caller 0, .thread 0,
          .thread 0, .createInside 1 false 0, .caller 1, .shutdown, .shutdown, .shutdown] = some s ∧
      s.WaitsFor 0 ∧ s.BlockedOnLock 0 ∧ s.step .shutdown = none ∧ s.step (.caller 1) = none ∧
      ¬ s.Final := by
  refine ⟨_, rfl, .inr ⟨0, rfl, rfl⟩, ⟨Option.some_ne_none _, 1, rfl, rfl⟩, rfl, rfl, fun h => ?_⟩
  exact h.1 0 ⟨.inr ⟨0, rfl, rfl⟩, Option.some_ne_none _, 1, rfl, rfl⟩

end Manager

end CommonLib.Timer
