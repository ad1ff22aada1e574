import CommonLib.Model.Timer

/-! Computation rules of the timers, and the steps of the manager and its timers as local rules. -/

namespace CommonLib.Timer

namespace Manager

variable {ι : Type*} [DecidableEq ι]

/-! ## Updates -/

@[simp] theorem setTimer_self (s : Manager ι) (t : ι) (timer : TimerDetail ι) :
    (s.setTimer t timer).timer t = timer := by
  simp [setTimer]

theorem setTimer_of_ne (s : Manager ι) {t u : ι} (timer : TimerDetail ι) (h : u ≠ t) :
    (s.setTimer t timer).timer u = s.timer u := by
  simp [setTimer, h]

/-- A field that the update of one timer leaves alone has not changed in any timer. -/
theorem setTimer_field {β : Type*} (field : TimerDetail ι → β) (s : Manager ι) {t : ι} (u : ι)
    {timer : TimerDetail ι} (h : field timer = field (s.timer t)) :
    field ((s.setTimer t timer).timer u) = field (s.timer u) := by
  by_cases hu : u = t
  · rw [hu, setTimer_self, h]
  · rw [setTimer_of_ne s timer hu]

theorem forall_setTimer {P : TimerDetail ι → Prop} {s : Manager ι} (h : ∀ u, P (s.timer u)) {t : ι}
    {timer : TimerDetail ι} (ht : P timer) (u : ι) : P ((s.setTimer t timer).timer u) := by
  by_cases hu : u = t
  · rw [hu, setTimer_self]
    exact ht
  · rw [setTimer_of_ne s timer hu]
    exact h u

/-- What is true of a timer behind an update was true in front of it, unless the update made it so. -/
theorem of_setTimer {P : TimerDetail ι → Prop} {s : Manager ι} {t u : ι} {timer : TimerDetail ι}
    (ht : P timer → P (s.timer t)) (hu : P ((s.setTimer t timer).timer u)) : P (s.timer u) := by
  by_cases hut : u = t
  · subst hut
    rw [setTimer_self] at hu
    exact ht hu
  · rwa [setTimer_of_ne s timer hut] at hu

@[simp] theorem setThread_self (s : Manager ι) (t : ι) (thread : Thread ι) :
    ((s.setThread t thread).timer t).thread = thread := by
  simp [setThread]

theorem setThread_of_ne (s : Manager ι) {t u : ι} (thread : Thread ι) (h : u ≠ t) :
    (s.setThread t thread).timer u = s.timer u :=
  setTimer_of_ne s _ h

@[simp] theorem setThread_future (s : Manager ι) (t u : ι) (thread : Thread ι) :
    ((s.setThread t thread).timer u).future = (s.timer u).future :=
  setTimer_field TimerDetail.future s u rfl

@[simp] theorem setThread_caller (s : Manager ι) (t u : ι) (thread : Thread ι) :
    ((s.setThread t thread).timer u).caller = (s.timer u).caller :=
  setTimer_field TimerDetail.caller s u rfl

theorem setCaller_of_ne (s : Manager ι) {t u : ι} (caller : Caller) (h : u ≠ t) :
    (s.setCaller t caller).timer u = s.timer u :=
  setTimer_of_ne s _ h

@[simp] theorem setCaller_thread (s : Manager ι) (t u : ι) (caller : Caller) :
    ((s.setCaller t caller).timer u).thread = (s.timer u).thread :=
  setTimer_field TimerDetail.thread s u rfl

@[simp] theorem setCaller_future (s : Manager ι) (t u : ι) (caller : Caller) :
    ((s.setCaller t caller).timer u).future = (s.timer u).future :=
  setTimer_field TimerDetail.future s u rfl

@[simp] theorem make_thread (s : Manager ι) (t u : ι) (async : Bool) :
    ((s.make t async).timer u).thread = (s.timer u).thread :=
  setTimer_field TimerDetail.thread s u rfl

@[simp] theorem make_future (s : Manager ι) (t u : ι) (async : Bool) :
    ((s.make t async).timer u).future = (s.timer u).future :=
  setTimer_field TimerDetail.future s u rfl

@[simp] theorem stop_thread (s : Manager ι) (t u : ι) :
    ((s.stop t).timer u).thread = (s.timer u).thread :=
  setTimer_field TimerDetail.thread s u rfl

@[simp] theorem stop_future (s : Manager ι) (t u : ι) :
    ((s.stop t).timer u).future = (s.timer u).future :=
  setTimer_field TimerDetail.future s u rfl

@[simp] theorem stop_caller (s : Manager ι) (t u : ι) :
    ((s.stop t).timer u).caller = (s.timer u).caller :=
  setTimer_field TimerDetail.caller s u rfl

/-! ## The steps -/

/-- The caller may give up its reference: the handle at any time outside of `start`, the local
variable of `Timer::async` behind `start`. -/
def Droppable (s : Manager ι) (t : ι) : Prop :=
  (s.timer t).caller = .started ∨ (s.timer t).caller = .held ∧ (s.timer t).async = false

/-- The rules by which callers, threads and `force_stop_all` move, one for each branch of the
code. -/
inductive Step (s : Manager ι) : Action ι → Manager ι → Prop
  | create (t async) (hc : (s.timer t).caller = .none) :
      Step s (.create t async) (s.make t async)
  | createInside (t async v) (hc : (s.timer t).caller = .none)
      (hthread : (s.timer v).thread = .calling) :
      Step s (.createInside t async v) ((s.make t async).setThread v (.creating t))
  | skipRegist (t) (hc : (s.timer t).caller = .made) (hshut : s.shutingdown = true) :
      Step s (.caller t) (s.setCaller t .held)
  | enterRegist (t) (hc : (s.timer t).caller = .made) (hshut : s.shutingdown = false) :
      Step s (.caller t) (s.setCaller t .registering)
  | regist (t) (hc : (s.timer t).caller = .registering) (hlock : s.lock = none) :
      Step s (.caller t) ({ s with timers := s.timers ++ [t] }.setCaller t .held)
  | spawn (t) (hc : (s.timer t).caller = .starting)
      (hthread : (s.timer t).thread = .none ∨ (s.timer t).thread = .complete) :
      Step s (.caller t)
        (s.setTimer t { s.timer t with thread := .sleeping, future := false, caller := .spawned })
  | assign (t) (hc : (s.timer t).caller = .spawned) :
      Step s (.caller t) (s.setTimer t { s.timer t with future := true, caller := .started })
  | callerDone (t) (hc : (s.timer t).caller = .destroying) (hstopped : s.stopped t = true) :
      Step s (.caller t) (s.setCaller t .released)
  | start (t) (hc : (s.timer t).caller = .held) (hrunning : (s.timer t).running = false) :
      Step s (.start t) (s.setTimer t { s.timer t with running := true, caller := .starting })
  | startThrows (t) (hc : (s.timer t).caller.holds = true)
      (hrunning : (s.timer t).running = true) : Step s (.start t) s
  | restart (t) (hc : (s.timer t).caller = .started) (hasync : (s.timer t).async = false)
      (hrunning : (s.timer t).running = false) :
      Step s (.start t) (s.setTimer t { s.timer t with running := true, caller := .starting })
  | stop (t) (hc : (s.timer t).caller.holds = true) (hasync : (s.timer t).async = false) :
      Step s (.stop t) (s.stop t)
  | drop (t inside) (hc : s.Droppable t) (hstrong : s.strong t ≠ 1)
      (hinside : ∀ v, inside = some v → (s.timer v).thread = .calling) :
      Step s (.drop t inside) (s.setCaller t .released)
  | dropLast (t) (hc : s.Droppable t) (hstrong : s.strong t = 1) :
      Step s (.drop t none) ((s.stop t).setCaller t .destroying)
  | dropLastInside (t v) (hc : s.Droppable t) (hstrong : s.strong t = 1)
      (hthread : (s.timer v).thread = .calling) :
      Step s (.drop t (some v))
        (((s.stop t).setCaller t .released).setThread v (.destroying t .calling))
  | wake (t) (ht : (s.timer t).thread = .sleeping) : Step s (.thread t) (s.setThread t .testing)
  | call (t) (ht : (s.timer t).thread = .testing) (hrunning : (s.timer t).running = true) :
      Step s (.thread t) (s.setThread t .calling)
  | leave (t) (ht : (s.timer t).thread = .testing) (hrunning : (s.timer t).running = false) :
      Step s (.thread t) (s.setThread t .leaving)
  | again (t) (ht : (s.timer t).thread = .calling) :
      Step s (.returns t true) (s.setThread t .sleeping)
  | break (t) (ht : (s.timer t).thread = .calling) :
      Step s (.returns t false) (s.setThread t .leaving)
  | throws (t) (ht : (s.timer t).thread = .calling) :
      Step s (.throws t) { s with terminated := true }
  | created (t timer) (ht : (s.timer t).thread = .creating timer)
      (hc : (s.timer timer).caller ≠ .registering) : Step s (.thread t) (s.setThread t .calling)
  | fulfil (t) (ht : (s.timer t).thread = .leaving) : Step s (.thread t) (s.setThread t .fulfilled)
  | expired (t) (ht : (s.timer t).thread = .fulfilled) (hstrong : s.strong t = 0) :
      Step s (.thread t) { s with terminated := true }
  | share (t) (ht : (s.timer t).thread = .fulfilled) (hstrong : s.strong t ≠ 0) :
      Step s (.thread t) (s.setThread t .locking)
  | tryLock (t) (ht : (s.timer t).thread = .locking) (hlock : s.lock = none) :
      Step s (.thread t) ({ s with lock := some (.thread t) }.setThread t (.erasing 0))
  | tryLockFails (t) (ht : (s.timer t).thread = .locking) :
      Step s (.tryLockFails t) (s.setThread t .releasing)
  | unlock (t i) (ht : (s.timer t).thread = .erasing i) (hi : s.timers[i]? = none) :
      Step s (.thread t) ({ s with lock := none }.setThread t .releasing)
  | keep (t i entry) (ht : (s.timer t).thread = .erasing i) (hi : s.timers[i]? = some entry)
      (hne : entry ≠ t) (hrunning : (s.timer entry).running = true) :
      Step s (.thread t) (s.setThread t (.erasing (i + 1)))
  | erase (t i entry) (ht : (s.timer t).thread = .erasing i) (hi : s.timers[i]? = some entry)
      (hpick : entry = t ∨ (s.timer entry).running = false) (hstrong : s.strong entry ≠ 1) :
      Step s (.thread t) { s with timers := s.timers.eraseIdx i }
  | eraseLast (t i entry) (ht : (s.timer t).thread = .erasing i) (hi : s.timers[i]? = some entry)
      (hpick : entry = t ∨ (s.timer entry).running = false) (hstrong : s.strong entry = 1) :
      Step s (.thread t) (({ s with timers := s.timers.eraseIdx i }.stop entry).setThread t
        (.destroying entry (.erasing i)))
  | release (t) (ht : (s.timer t).thread = .releasing) (hstrong : s.strong t ≠ 1) :
      Step s (.thread t) (s.setThread t .returning)
  | releaseLast (t) (ht : (s.timer t).thread = .releasing) (hstrong : s.strong t = 1) :
      Step s (.thread t) ((s.stop t).setThread t (.destroying t .returning))
  | destroyed (t timer next) (ht : (s.timer t).thread = .destroying timer next)
      (hstopped : s.stopped timer = true) : Step s (.thread t) (s.setThread t next.thread)
  | finish (t) (ht : (s.timer t).thread = .returning) : Step s (.thread t) (s.setThread t .complete)
  | shutdown (hs : s.shutdown = .idle) :
      Step s .shutdown { s with shutingdown := true, shutdown := .locking }
  | shutdownLock (hs : s.shutdown = .locking) (hlock : s.lock = none) :
      Step s .shutdown { s with lock := some .shutdown, shutdown := .visiting 0 }
  | visit (i entry) (hs : s.shutdown = .visiting i) (hi : s.timers[i]? = some entry) :
      Step s .shutdown { s.stop entry with shutdown := .waiting i }
  | visited (i) (hs : s.shutdown = .visiting i) (hi : s.timers[i]? = none) :
      Step s .shutdown { s with shutdown := .clearing }
  | waited (i entry) (hs : s.shutdown = .waiting i) (hi : s.timers[i]? = some entry)
      (hstopped : s.stopped entry = true) :
      Step s .shutdown { s with shutdown := .visiting (i + 1) }
  | clear (entry rest) (hs : s.shutdown = .clearing) (htimers : s.timers = entry :: rest)
      (hstrong : s.strong entry ≠ 1) : Step s .shutdown { s with timers := rest }
  | clearLast (entry rest) (hs : s.shutdown = .clearing) (htimers : s.timers = entry :: rest)
      (hstrong : s.strong entry = 1) :
      Step s .shutdown { s.stop entry with timers := rest, shutdown := .destroying entry }
  | cleared (hs : s.shutdown = .clearing) (htimers : s.timers = []) :
      Step s .shutdown { s with lock := none, shutdown := .done }
  | shutdownDestroyed (timer) (hs : s.shutdown = .destroying timer)
      (hstopped : s.stopped timer = true) : Step s .shutdown { s with shutdown := .clearing }

theorem Step.of_stepCaller {s s' : Manager ι} {t : ι} (h : s.stepCaller t = some s') :
    Step s (.caller t) s' := by
  unfold stepCaller at h
  split at h
  · rename_i hc
    cases h
    cases hshut : s.shutingdown with
    | true => exact .skipRegist t hc hshut
    | false => exact .enterRegist t hc hshut
  · rename_i hc
    split at h <;> cases h
    exact .regist t hc ‹_›
  · rename_i hc
    split at h <;> cases h
    exact .spawn t hc ‹_›
  · rename_i hc
    cases h
    exact .assign t hc
  · rename_i hc
    split at h <;> cases h
    exact .callerDone t hc ‹_›
  all_goals cases h

theorem Step.of_start {s s' : Manager ι} {t : ι} (h : s.start t = some s') :
    Step s (.start t) s' := by
  unfold Manager.start at h
  split at h
  · rename_i hc
    split at h <;> cases h
    · exact .startThrows t (by rw [hc]; rfl) ‹_›
    · exact .start t hc (Bool.eq_false_iff.mpr ‹_›)
  · rename_i hc
    split_ifs at h with hasync hrunning <;> cases h
    · exact .startThrows t (by rw [hc]; rfl) hrunning
    · exact .restart t hc (Bool.eq_false_iff.mpr hasync) (Bool.eq_false_iff.mpr hrunning)
  · cases h

theorem Step.of_drop {s s' : Manager ι} {t : ι} {inside : Option ι}
    (h : s.drop t inside = some s') : Step s (.drop t inside) s' := by
  unfold Manager.drop at h
  split at h
  · rename_i hc
    split at h
    · split at h <;> cases h
      · exact .dropLast t hc ‹_›
      · exact .drop t _ hc ‹_› (by simp)
    · split_ifs at h with hv hstrong <;> cases h
      · exact .dropLastInside t _ hc hstrong hv.1
      · exact .drop t _ hc hstrong (by simpa using hv.1)
  · cases h

theorem Step.of_erase {s : Manager ι} {t : ι} {i : ℕ} (ht : (s.timer t).thread = .erasing i) :
    Step s (.thread t) (s.erase t i) := by
  unfold Manager.erase
  split
  · exact .unlock t i ht ‹_›
  · rename_i entry hi
    split_ifs with hpick hstrong
    · exact .eraseLast t i entry ht hi hpick hstrong
    · exact .erase t i entry ht hi hpick hstrong
    · rw [not_or] at hpick
      exact .keep t i entry ht hi hpick.1 (by simpa using hpick.2)

theorem Step.of_stepThread {s s' : Manager ι} {t : ι} (h : s.stepThread t = some s') :
    Step s (.thread t) s' := by
  unfold stepThread at h
  split at h
  · cases h
    exact .wake t ‹_›
  · rename_i ht
    cases h
    cases hrunning : (s.timer t).running with
    | true => exact .call t ht hrunning
    | false => exact .leave t ht hrunning
  · rename_i timer ht
    split at h <;> cases h
    exact .created t timer ht ‹_›
  · cases h
    exact .fulfil t ‹_›
  · rename_i ht
    split at h <;> cases h
    · exact .expired t ht ‹_›
    · exact .share t ht ‹_›
  · rename_i ht
    split at h <;> cases h
    exact .tryLock t ht ‹_›
  · rename_i i ht
    cases h
    exact .of_erase ht
  · rename_i ht
    split at h <;> cases h
    · exact .releaseLast t ht ‹_›
    · exact .release t ht ‹_›
  · rename_i timer next ht
    split at h <;> cases h
    exact .destroyed t timer next ht ‹_›
  · cases h
    exact .finish t ‹_›
  all_goals cases h

theorem Step.of_stepShutdown {s s' : Manager ι} (h : s.stepShutdown = some s') :
    Step s .shutdown s' := by
  unfold stepShutdown at h
  split at h
  · cases h
    exact .shutdown ‹_›
  · rename_i hs
    split at h <;> cases h
    exact .shutdownLock hs ‹_›
  · rename_i i hs
    split at h <;> cases h
    · exact .visited i hs ‹_›
    · exact .visit i _ hs ‹_›
  · rename_i i hs
    split at h
    · cases h
    · split at h <;> cases h
      exact .waited i _ hs ‹_› ‹_›
  · rename_i hs
    split at h
    · cases h
      exact .cleared hs ‹_›
    · split at h <;> cases h
      · exact .clearLast _ _ hs ‹_› ‹_›
      · exact .clear _ _ hs ‹_› ‹_›
  · rename_i timer hs
    split at h <;> cases h
    exact .shutdownDestroyed timer hs ‹_›
  · cases h

/-- Every enabled action moves timers and manager by one of the rules. -/
theorem step_cases {s s' : Manager ι} {a : Action ι} (h : s.step a = some s') :
    s.terminated = false ∧ Step s a s' := by
  unfold step at h
  split at h
  · cases h
  · rename_i hlive
    refine ⟨by simpa using hlive, ?_⟩
    cases a with
    | create t async =>
        simp only at h
        split at h <;> cases h
        exact .create t async ‹_›
    | createInside t async v =>
        simp only at h
        split at h
        · rename_i hc
          cases h
          exact .createInside t async v hc.1 hc.2
        · cases h
    | caller t => exact .of_stepCaller h
    | start t => exact .of_start h
    | stop t =>
        simp only at h
        split at h
        · rename_i hc
          cases h
          exact .stop t hc.2 hc.1
        · cases h
    | drop t inside => exact .of_drop h
    | thread t => exact .of_stepThread h
    | returns t result =>
        simp only at h
        split at h
        · rename_i ht
          cases h
          cases result with
          | true => exact .again t ht
          | false => exact .break t ht
        · cases h
    | throws t =>
        simp only at h
        split at h <;> cases h
        exact .throws t ‹_›
    | tryLockFails t =>
        simp only at h
        split at h <;> cases h
        exact .tryLockFails t ‹_›
    | shutdown => exact .of_stepShutdown h

end Manager

end CommonLib.Timer
