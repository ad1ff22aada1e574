import CommonLib.Verification.TimerLoop.Status

/-! # Calls behind a `stop`

With the flag down only a thread that has already found it up calls the function once more. The
flag is raised by nothing but `start`, which raises it also behind an earlier `stop`. -/

namespace CommonLib.TimerLoop

/-- The call that a thread is about to begin. -/
def Worker.due : Worker → ℕ
  | entering => 1
  | none | checking _ | blocked _ | testing | calling | leaving | unregistering | complete => 0

/-- The thread is not yet made, or in the wait in front of the loop. -/
def Worker.BeforeLoop : Worker → Prop
  | none | checking true | blocked true => True
  | _ => False

namespace TimerDetail

/-- The flag is down, and no `start` is about to raise it. -/
def Lowered (s : TimerDetail) : Prop :=
  s.running = false ∧ s.starter ≠ .storing

/-- There is no thread any more, and no `start` about to make one. -/
def Over (s : TimerDetail) : Prop :=
  s.worker.owed = 0 ∧ s.starter ≠ .storing ∧ s.starter ≠ .creating

/-! ## With the flag down -/

theorem Lowered.step {s s' : TimerDetail} {a : Action} (h : s.Lowered) (ha : a ≠ .start)
    (hstep : Step s a s') :
    s'.Lowered ∧ s'.calls + s'.worker.due = s.calls + s.worker.due := by
  obtain ⟨hdown, hstarter⟩ := h
  cases hstep with
  | start | startThrows => exact absurd rfl ha
  | store hs => exact absurd hs hstarter
  | create hs hw =>
      rcases hw with hw | hw <;> exact ⟨⟨hdown, by simp⟩, by simp [hw, Worker.due]⟩
  | assign => exact ⟨⟨hdown, by simp⟩, rfl⟩
  | stop => exact ⟨⟨rfl, hstarter⟩, rfl⟩
  | enter hw hup =>
      rw [hdown] at hup
      cases hup
  | block first hw | released first hw | timeout first hw | wake first hw | leave hw | call hw
  | again hw | «break» hw | fulfil hw | finish hw =>
      exact ⟨⟨hdown, hstarter⟩, by simp [setWorker, hw, Worker.due]⟩

theorem Lowered.run {s s' : TimerDetail} (h : s.Lowered) {actions : List Action}
    (hactions : .start ∉ actions) (hrun : machine.run s actions = some s') :
    s'.calls + s'.worker.due = s.calls + s.worker.due := by
  have hkept := Machine.run_invariant_of (A := (· ≠ Action.start))
    (P := fun t => t.Lowered ∧ t.calls + t.worker.due = s.calls + s.worker.due)
    (fun t a t' ha ht hstep => ?_) (fun _ ha => ne_of_mem_of_not_mem ha hactions) ⟨h, rfl⟩ hrun
  · exact hkept.2
  · obtain ⟨hlowered, hcalls⟩ := ht.1.step ha (step_cases hstep)
    exact ⟨hlowered, hcalls.trans ht.2⟩

/-! ## With the future ready -/

theorem Over.step {s s' : TimerDetail} {a : Action} (h : s.Over) (ha : a ≠ .start)
    (hstep : Step s a s') : s'.Over ∧ s'.calls = s.calls := by
  obtain ⟨howed, hstoring, hcreating⟩ := h
  cases hstep with
  | start | startThrows => exact absurd rfl ha
  | store hs => exact absurd hs hstoring
  | create hs => exact absurd hs hcreating
  | assign => exact ⟨⟨howed, by simp, by simp⟩, rfl⟩
  | stop => exact ⟨⟨howed, hstoring, hcreating⟩, rfl⟩
  | finish => exact ⟨⟨rfl, hstoring, hcreating⟩, rfl⟩
  | block first hw | released first hw | timeout first hw | wake first hw | enter hw | leave hw
  | call hw | again hw | «break» hw | fulfil hw => simp [hw, Worker.owed] at howed

theorem Over.run {s s' : TimerDetail} (h : s.Over) {actions : List Action}
    (hactions : .start ∉ actions) (hrun : machine.run s actions = some s') :
    s'.calls = s.calls := by
  have hkept := Machine.run_invariant_of (A := (· ≠ Action.start))
    (P := fun t => t.Over ∧ t.calls = s.calls) (fun t a t' ha ht hstep => ?_)
    (fun _ ha => ne_of_mem_of_not_mem ha hactions) ⟨h, rfl⟩ hrun
  · exact hkept.2
  · obtain ⟨hover, hcalls⟩ := ht.1.step ha (step_cases hstep)
    exact ⟨hover, hcalls.trans ht.2⟩

/-- Where the future of the last start is ready, its thread owes nothing. -/
theorem Counted.over {s : TimerDetail} (h : s.Counted) (hready : s.fulfilled = s.starts)
    (hstarter : s.starter ≠ .storing) : s.Over := by
  simp only [Counted] at h
  refine ⟨by omega, hstarter, fun hcreating => ?_⟩
  simp only [hcreating, Starter.owed] at h
  omega

/-! ## In front of the loop -/

/-- The thread of the first start is made after it, and begins no call in front of its loop. -/
structure Fresh (s : TimerDetail) : Prop where
  unstarted : s.starts = 0 → s.worker = .none ∧ s.calls = 0
  creating : s.starts = 1 → s.starter = .creating → s.worker = .none
  uncalled : s.starts = 1 → s.worker.BeforeLoop → s.calls = 0

theorem fresh_init : init.Fresh :=
  ⟨fun _ => ⟨rfl, rfl⟩, fun _ _ => rfl, fun _ _ => rfl⟩

/-- The thread moves, and no call begins in front of its loop. -/
theorem Fresh.move {s s' : TimerDetail} (h : s.Fresh) (hw : s.worker ≠ .none)
    (hstarts : s'.starts = s.starts) (hstarter : s'.starter = s.starter)
    (hbefore : s'.worker.BeforeLoop → s.worker.BeforeLoop ∧ s'.calls = s.calls) : s'.Fresh := by
  refine ⟨fun hzero => ?_, fun hone hcreating => ?_, fun hone hloop => ?_⟩
  · rw [hstarts] at hzero
    exact absurd (h.unstarted hzero).1 hw
  · rw [hstarts] at hone
    rw [hstarter] at hcreating
    exact absurd (h.creating hone hcreating) hw
  · rw [hstarts] at hone
    obtain ⟨hloop, hcalls⟩ := hbefore hloop
    exact hcalls.trans (h.uncalled hone hloop)

theorem Fresh.step {s s' : TimerDetail} {a : Action} (h : s.Fresh) (hcounted : s.Counted)
    (hstep : Step s a s') : s'.Fresh := by
  cases hstep with
  | start => exact ⟨h.unstarted, fun _ hs => (by cases hs), h.uncalled⟩
  | assign => exact ⟨h.unstarted, fun _ hs => (by cases hs), h.uncalled⟩
  | startThrows | stop => exact ⟨h.unstarted, h.creating, h.uncalled⟩
  | store hs =>
      refine ⟨fun hzero => ?_, fun hone _ => ?_, fun hone _ => ?_⟩
      · cases hzero
      · exact (h.unstarted (by simpa using hone)).1
      · exact (h.unstarted (by simpa using hone)).2
  | create hs hw =>
      simp only [Counted, hs, Starter.owed] at hcounted
      refine ⟨fun hzero => ?_, fun _ hs' => (by cases hs'), fun hone _ => ?_⟩
      · simp only at hzero
        omega
      · refine h.uncalled hone ?_
        rw [h.creating hone hs]
        trivial
  | block first hw | wake first hw =>
      refine h.move (by simp [hw]) rfl rfl fun hloop => ⟨?_, rfl⟩
      rw [hw]
      cases first with
      | true => trivial
      | false => exact hloop.elim
  | released first hw | timeout first hw | enter hw | leave hw | call hw | again hw | «break» hw
  | fulfil hw | finish hw => exact h.move (by simp [hw]) rfl rfl fun hloop => hloop.elim

theorem Reachable.fresh {s : TimerDetail} (h : machine.Reachable s) : s.Fresh :=
  h.invariant_of (fun _ hr => Reachable.counted hr) fresh_init
    fun _ _ _ hcounted hs _ hstep => hs.step hcounted (step_cases hstep)

/-! ## Every run -/

/-- Behind a `stop` that comes after `start` has raised the flag, at most one more call begins, and
none at all if the first thread is still in front of its loop. Once the future is ready, no call
begins. -/
theorem calls_bounded {s : TimerDetail} (hs : machine.Reachable s) (hstarter : s.starter ≠ .storing)
    {actions : List Action} (hactions : .start ∉ actions) :
    (∀ s' s'', s.step .stop = some s' → machine.run s' actions = some s'' →
      s''.calls ≤ s.calls + 1 ∧ (s.starts = 1 → s.worker.BeforeLoop → s''.calls = 0)) ∧
    (0 < s.starts → s.fulfilled = s.starts → ∀ s'', machine.run s actions = some s'' →
      s''.calls = s.calls) := by
  constructor
  · intro s' s'' hstop hrun
    cases hstop
    have hlowered : s.stop.Lowered := ⟨rfl, hstarter⟩
    have hcalls : s''.calls + s''.worker.due = s.calls + s.worker.due :=
      hlowered.run hactions hrun
    constructor
    · have hdue : s.worker.due ≤ 1 := by cases s.worker <;> simp [Worker.due]
      omega
    · intro hone hloop
      have hnone := (Reachable.fresh hs).uncalled hone hloop
      have hdue : s.worker.due = 0 := by
        cases hw : s.worker <;> simp_all [Worker.due, Worker.BeforeLoop]
      omega
  · intro _ hready s'' hrun
    exact ((Reachable.counted hs).over hready hstarter).run hactions hrun

/-- `stop` comes when the thread has found the flag up and not yet called the function. -/
theorem calls_bounded_entering :
    ∃ s s' s'', machine.run init [.start, .starter, .starter, .starter, .worker, .timeout,
        .worker] = some s ∧ s.worker = .entering ∧ s.step .stop = some s' ∧
      machine.run s' [.worker, .returns true, .worker, .worker, .worker] = some s'' ∧
      s''.worker = .unregistering ∧ s''.calls = s.calls + 1 ∧ s''.calls ≤ s.calls + 1 := by
  have hrun : machine.run init [.start, .starter, .starter, .starter, .worker, .timeout, .worker] =
      some ⟨true, .entering, .idle, 1, 0, 0⟩ := rfl
  have hactions : Action.start ∉ [.worker, .returns true, .worker, .worker, .worker] := by decide
  have hbounded := calls_bounded (Machine.reachable_of_run hrun) (by decide) hactions
  exact ⟨_, _, _, rfl, rfl, rfl, rfl, rfl, rfl, (hbounded.1 _ _ rfl rfl).1⟩

/-- `stop` comes before `start` has raised the flag. -/
theorem calls_behind_early_stop :
    ∃ s s', init.step .stop = some s ∧
      machine.run s [.start, .starter, .starter, .starter, .worker, .timeout, .worker, .worker,
        .returns true, .worker, .timeout, .worker, .worker] = some s' ∧
      s'.calls = s.calls + 2 :=
  ⟨_, _, rfl, rfl, rfl⟩

end TimerDetail

end CommonLib.TimerLoop
