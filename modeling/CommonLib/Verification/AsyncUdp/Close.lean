import CommonLib.Model.AsyncUdp
import Mathlib.Tactic.Common

/-! # The receive loop after `close`

Only `operation_aborted` ends the loop. A receive that is pending gets it; one that is started after
`close` gets `bad_descriptor`, on which the loop is armed again. -/

namespace CommonLib.AsyncUdp

/-- The loop has ended, or will with its next step. -/
def Phase.Ended (phase : Phase) : Prop :=
  phase = .stopped ∨ ∃ late, phase = .completed late (.error .operationAborted)

def Phase.isLate : Phase → Bool
  | .pending late | .completed late _ | .callback late _ => late
  | .stopped => false

namespace AsyncUdpSocket

/-- An open socket is closed only while a receive is pending, or when the loop ends anyway. -/
def ClosesPending (s : AsyncUdpSocket) (a : Action) : Prop :=
  a = .close → s.isOpen = true → (∃ late, s.phase = .pending late) ∨ s.phase.Ended

/-- After `close` no receive is ever started from the completion of one that was started after
`close`. -/
def EndsLoop (s : AsyncUdpSocket) : Prop :=
  s.isOpen = false → ∀ actions s', machine.run s actions = some s' → s'.rearms = 0

/-! ## One step -/

inductive Step (s : AsyncUdpSocket) : Action → AsyncUdpSocket → Prop
  | closed (h : s.isOpen = false) : Step s .close s
  | close (h : s.isOpen = true) : Step s .close { s with isOpen := false, phase := abort s.phase }
  | complete (late : Bool) (result : Completion) (hphase : s.phase = .pending late)
      (h : s.isOpen = true ∨ result = .error .badDescriptor) :
      Step s (.complete result) { s with phase := .completed late result }
  | handle (late : Bool) (result : Completion) (hphase : s.phase = .completed late result) :
      Step s .handle { s with phase := handler late result }
  | rearm (late : Bool) (call : Callback) (hphase : s.phase = .callback late call) :
      Step s .rearm { s with phase := .pending !s.isOpen, rearms := s.rearms + late.toNat }
  | throws (late : Bool) (call : Callback) (hphase : s.phase = .callback late call) :
      Step s .throws { s with phase := .stopped }

theorem step_cases {s s' : AsyncUdpSocket} {a : Action} (h : s.step a = some s') : Step s a s' := by
  cases a with
  | close =>
      simp only [step, AsyncUdpSocket.close, Option.some.injEq] at h
      subst h
      split
      · next hopen => exact .close hopen
      · next hopen => exact .closed (Bool.eq_false_iff.mpr hopen)
  | complete result =>
      simp only [step] at h
      split at h
      · next late hphase =>
          split at h
          · next hok =>
              cases h
              exact .complete late result hphase hok
          · cases h
      · cases h
  | handle =>
      simp only [step] at h
      split at h
      · next late result hphase =>
          cases h
          exact .handle late result hphase
      · cases h
  | rearm =>
      simp only [step] at h
      split at h
      · next late call hphase =>
          cases h
          exact .rearm late call hphase
      · cases h
  | throws =>
      simp only [step] at h
      split at h
      · next late call hphase =>
          cases h
          exact .throws late call hphase
      · cases h

theorem Step.isOpen_eq {s s' : AsyncUdpSocket} {a : Action} (h : Step s a s') (ha : a ≠ .close) :
    s'.isOpen = s.isOpen := by
  cases h with
  | closed | close => exact absurd rfl ha
  | complete | handle | rearm | throws => rfl

/-! ## A socket that is open -/

/-- As long as the socket is open, no receive is late. -/
def Timely (s : AsyncUdpSocket) : Prop :=
  s.isOpen = true → s.phase.isLate = false ∧ s.rearms = 0

theorem isLate_handler (late : Bool) (result : Completion) (h : late = false) :
    (handler late result).isLate = false := by
  cases result with
  | datagram data => exact h
  | error ec => cases ec <;> first | rfl | exact h

theorem Timely.step {s s' : AsyncUdpSocket} {a : Action} (h : s.Timely) (hstep : Step s a s') :
    s'.Timely := by
  cases hstep with
  | closed => exact h
  | close => exact fun hopen => absurd hopen Bool.false_ne_true
  | complete late result hphase =>
      intro hopen
      have hlate := h hopen
      rw [hphase] at hlate
      exact hlate
  | handle late result hphase =>
      intro hopen
      have hlate := h hopen
      rw [hphase] at hlate
      exact ⟨isLate_handler late result hlate.1, hlate.2⟩
  | rearm late call hphase =>
      intro hopen
      have hlate := h hopen
      rw [hphase] at hlate
      have hopen' : s.isOpen = true := hopen
      simp [Phase.isLate, hopen', hlate.2, show late = false from hlate.1]
  | throws late call hphase => exact fun hopen => ⟨rfl, (h hopen).2⟩

/-! ## A loop that ends -/

/-- The socket is closed, and the loop arms no further receive. -/
structure Over (s : AsyncUdpSocket) : Prop where
  closed : s.isOpen = false
  ended : s.phase.Ended
  rearms : s.rearms = 0

theorem Over.step {s s' : AsyncUdpSocket} {a : Action} (h : s.Over) (hstep : Step s a s') :
    s'.Over := by
  have hended := h.ended
  cases hstep with
  | closed => exact h
  | close hopen => exact absurd (h.closed.symm.trans hopen) Bool.false_ne_true
  | handle late result hphase =>
      simp only [Phase.Ended, hphase, reduceCtorEq, Phase.completed.injEq, false_or] at hended
      obtain ⟨_, -, rfl⟩ := hended
      exact ⟨h.closed, .inl rfl, h.rearms⟩
  | complete late result hphase | rearm late call hphase | throws late call hphase =>
      simp [Phase.Ended, hphase] at hended

theorem Over.endsLoop {s : AsyncUdpSocket} (h : s.Over) : s.EndsLoop := by
  intro _ actions s' hrun
  have hover : s'.Over :=
    Machine.run_invariant (fun _ _ _ ht hstep => ht.step (step_cases hstep)) h hrun
  exact hover.rearms

/-! ## A loop that does not end -/

/-- A receive that is started after `close` is followed by any number of others. -/
theorem leads_rearms {s : AsyncUdpSocket} (hopen : s.isOpen = false)
    (hphase : s.phase = .pending true) (n : ℕ) :
    machine.Leads (fun t => t.rearms = s.rearms + n) s := by
  induction n generalizing s with
  | zero => exact Machine.leads_of rfl
  | succ n ih =>
      have hcomplete : machine.step s (.complete (.error .badDescriptor)) =
          some { s with phase := .completed true (.error .badDescriptor) } := by
        simp [machine, AsyncUdpSocket.step, hphase]
      have hrearm : machine.step { s with phase := handler true (.error .badDescriptor) } .rearm =
          some ⟨false, .pending true, s.rearms + 1⟩ := by
        simp [machine, AsyncUdpSocket.step, handler, hopen]
      have hnext := ih (s := ⟨false, .pending true, s.rearms + 1⟩) rfl rfl
      apply Machine.Leads.of_step hcomplete
      apply Machine.Leads.of_step (a := .handle) rfl
      apply Machine.Leads.of_step hrearm
      exact hnext.imp fun t ht => ht.trans (Nat.succ_add_eq_add_succ s.rearms n)

/-- A loop that is not ended by `close` comes to such a receive. -/
theorem leads_pending {s : AsyncUdpSocket} (hopen : s.isOpen = false) (hended : ¬ s.phase.Ended)
    (hpending : ∀ late, s.phase ≠ .pending late) :
    machine.Leads (fun t => t.isOpen = false ∧ t.phase = .pending true) s := by
  have hcallback : ∀ (t : AsyncUdpSocket) (late : Bool) (call : Callback), t.isOpen = false →
      t.phase = .callback late call →
        machine.Leads (fun t => t.isOpen = false ∧ t.phase = .pending true) t := by
    intro t late call ht hphase
    have hrearm : machine.step t .rearm =
        some { t with phase := .pending true, rearms := t.rearms + late.toNat } := by
      simp [machine, AsyncUdpSocket.step, hphase, ht]
    exact (Machine.leads_of ⟨ht, rfl⟩).of_step hrearm
  cases hphase : s.phase with
  | stopped => exact absurd (.inl hphase) hended
  | pending late => exact absurd hphase (hpending late)
  | callback late call => exact hcallback s late call hopen hphase
  | completed late result =>
      have hhandle : machine.step s .handle = some { s with phase := handler late result } := by
        simp [machine, AsyncUdpSocket.step, hphase]
      have hcall : ∃ call, handler late result = .callback late call := by
        cases result with
        | datagram data => exact ⟨_, rfl⟩
        | error ec =>
            cases ec with
            | operationAborted => exact absurd (.inr ⟨late, hphase⟩) hended
            | badDescriptor | other code => exact ⟨_, rfl⟩
      obtain ⟨call, hcall⟩ := hcall
      have hlead := hcallback { s with phase := handler late result } late call hopen hcall
      exact hlead.of_step hhandle

/-! ## `close` -/

theorem EndsLoop.step {s s' : AsyncUdpSocket} {a : Action} (h : s.EndsLoop) (ha : a ≠ .close)
    (hstep : machine.step s a = some s') : s'.EndsLoop := by
  intro hopen actions t hrun
  rw [(step_cases hstep).isOpen_eq ha] at hopen
  apply h hopen (a :: actions) t
  rw [Machine.run_cons, hstep]
  exact hrun

theorem endsLoop_close_iff {s : AsyncUdpSocket} (h : s.Timely) (hopen : s.isOpen = true) :
    EndsLoop { s with isOpen := false, phase := abort s.phase } ↔
      (∃ late, s.phase = .pending late) ∨ s.phase.Ended := by
  have hrearms := (h hopen).2
  constructor
  · intro hends
    by_contra hnot
    rw [not_or, not_exists] at hnot
    have habort : abort s.phase = s.phase := by
      cases hphase : s.phase with
      | pending late => exact absurd hphase (hnot.1 late)
      | completed | callback | stopped => rfl
    rw [habort] at hends
    have hlead := leads_pending (s := { s with isOpen := false }) rfl hnot.2 hnot.1
    have hlate := hlead.trans fun t ht => (leads_rearms ht.1 ht.2 1).imp
      (Q := fun t => t.rearms ≠ 0) fun u hu => by omega
    obtain ⟨actions, t, hrun, ht⟩ := hlate
    exact ht (hends rfl actions t hrun)
  · intro hpending
    apply Over.endsLoop
    refine ⟨rfl, ?_, hrearms⟩
    rcases hpending with ⟨late, hphase⟩ | hended | ⟨late, hphase⟩
    · exact .inr ⟨late, by rw [hphase]; rfl⟩
    · exact .inl (by rw [hended]; rfl)
    · exact .inr ⟨late, by rw [hphase]; rfl⟩

theorem endsLoop_step_iff {s s' : AsyncUdpSocket} {a : Action} (htimely : s.Timely)
    (h : s.EndsLoop) (hstep : machine.step s a = some s') : s'.EndsLoop ↔ s.ClosesPending a := by
  cases hopen : s.isOpen with
  | false =>
      refine iff_of_true ?_ fun _ hopen' => absurd (hopen.symm.trans hopen') Bool.false_ne_true
      cases step_cases hstep with
      | closed => exact h
      | close hopen' => exact absurd (hopen.symm.trans hopen') Bool.false_ne_true
      | complete | handle | rearm | throws => exact h.step (by simp) hstep
  | true =>
      cases step_cases hstep with
      | closed hopen' => exact absurd (hopen'.symm.trans hopen) Bool.false_ne_true
      | close =>
          rw [endsLoop_close_iff htimely hopen]
          exact ⟨fun hends _ _ => hends, fun hok => hok rfl hopen⟩
      | complete | handle | rearm | throws =>
          refine iff_of_true (fun hclosed => ?_) fun ha => by cases ha
          exact absurd (hclosed.symm.trans hopen) Bool.false_ne_true

/-! ## Runs -/

/-- The loop ends after `close` in all states of a run exactly if the socket is closed while a
receive is pending, or when the loop ends anyway. -/
theorem endsLoop_iff (actions : List Action) :
    machine.Holds EndsLoop init actions ↔ machine.Meets ClosesPending init actions := by
  apply Machine.holds_iff_meets (I := Timely)
  · exact fun _ _ _ hs hstep => hs.step (step_cases hstep)
  · exact fun _ _ _ htimely hends hstep => endsLoop_step_iff htimely hends hstep
  · exact fun _ => ⟨rfl, rfl⟩
  · exact fun hopen => absurd hopen (by decide)

/-- `close` in the middle of `onReceive`: from then on there is no end to the receives. -/
theorem close_in_callback :
    ¬ machine.Holds EndsLoop init [.complete (.datagram [1]), .handle, .close] ∧
      ∃ s, machine.run init [.complete (.datagram [1]), .handle, .close, .rearm] = some s ∧
        ∀ n, machine.Leads (fun t => t.rearms = n) s := by
  constructor
  · intro h
    have hends := (h.2 _ rfl).2 _ rfl
    have hlate := (hends.2 _ rfl) rfl
      [.rearm, .complete (.error .badDescriptor), .handle, .rearm] _ rfl
    cases hlate
  · refine ⟨⟨false, .pending true, 0⟩, rfl, fun n => ?_⟩
    have hlead := leads_rearms (s := ⟨false, .pending true, 0⟩) rfl rfl n
    exact hlead.imp fun t ht => ht.trans (Nat.zero_add n)

end AsyncUdpSocket

end CommonLib.AsyncUdp
