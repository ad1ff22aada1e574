import CommonLib.Verification.AsyncUdp.Buffer
import CommonLib.Verification.AsyncUdp.Close

/-! # A loop with its buffer is a loop

What a socket with one loop can do, the receive loop without a buffer can do as well, so what holds
of all its states holds here. -/

namespace CommonLib.AsyncUdp

theorem AsyncUdpSocket.reachable_complete {t : AsyncUdpSocket}
    (ht : AsyncUdpSocket.machine.Reachable t) {late : Bool} (hphase : t.phase = .pending late)
    {result : Completion} (hok : t.isOpen = true ∨ result = .error .badDescriptor) :
    AsyncUdpSocket.machine.Reachable { t with phase := .completed late result } := by
  refine ht.step (a := .complete result) trivial ?_
  simp [machine, step, hphase, hok]

namespace AsyncUdpSocketImpl

variable {ι : Type*}

/-- A loop, and the phase that it is in. -/
inductive Pictured (s : AsyncUdpSocketImpl ι) : ReceiveLoop → Phase → Prop
  | pending (late : Bool) (hopen : s.isOpen = true) : Pictured s .pending (.pending late)
  | datagram (late : Bool) (bytes : ℕ) :
      Pictured s (.completed (.ok bytes)) (.completed late (.datagram (s.shown bytes).data))
  | error (late : Bool) (ec : Error) :
      Pictured s (.completed (.error ec)) (.completed late (.error ec))
  | callback (late : Bool) (call : Callback) : Pictured s .callback (.callback late call)
  | stopped : Pictured s .stopped .stopped

/-- The loop without its buffer can be where the loop of this socket is. -/
def Refines (s : AsyncUdpSocketImpl ι) : Prop :=
  ∀ loop, s.loops = [loop] → ∃ t, AsyncUdpSocket.machine.Reachable t ∧ t.isOpen = s.isOpen ∧
    s.Pictured loop t.phase

theorem refines_armed (s : AsyncUdpSocketImpl ι) :
    ∃ t, AsyncUdpSocket.machine.Reachable t ∧ t.isOpen = s.isOpen ∧
      s.Pictured s.armed t.phase := by
  cases hopen : s.isOpen with
  | true =>
      rw [armed_of_open hopen]
      exact ⟨_, .init, rfl, .pending false hopen⟩
  | false =>
      -- A receive behind `close`: the loop was in a handler then.
      have hrun : AsyncUdpSocket.machine.run AsyncUdpSocket.init [.complete (.error (.other 0)),
          .handle, .close, .rearm, .complete (.error .badDescriptor)] =
        some ⟨false, .completed true (.error .badDescriptor), 0⟩ := rfl
      have harmed : s.armed = .completed (.error .badDescriptor) := by simp [armed, hopen]
      rw [harmed]
      exact ⟨_, Machine.reachable_of_run hrun, rfl, .error true .badDescriptor⟩

theorem Pictured.congr {s s' : AsyncUdpSocketImpl ι} {loop : ReceiveLoop} {phase : Phase}
    (h : s.Pictured loop phase) (hopen : s'.isOpen = s.isOpen) (hshown : s'.shown = s.shown) :
    s'.Pictured loop phase := by
  cases h with
  | pending late ho => exact .pending late (hopen.trans ho)
  | datagram late bytes =>
      rw [← hshown]
      exact .datagram late bytes
  | error late ec => exact .error late ec
  | callback late call => exact .callback late call
  | stopped => exact .stopped

theorem Pictured.close {s s' : AsyncUdpSocketImpl ι} {loop : ReceiveLoop} {phase : Phase}
    (h : s.Pictured loop phase) (hshown : s'.shown = s.shown) :
    s'.Pictured loop.abort (AsyncUdpSocket.abort phase) := by
  cases h with
  | pending late ho => exact .error late .operationAborted
  | datagram late bytes =>
      rw [← hshown]
      exact .datagram late bytes
  | error late ec => exact .error late ec
  | callback late call => exact .callback late call
  | stopped => exact .stopped

theorem Refines.turn {k : ℕ} {s u : AsyncUdpSocketImpl ι} {a : SocketAction ι}
    {old new : ReceiveLoop} (h : s.Refines) (hold : s.loops[k]? = some old)
    (hturn : Turn s a old new u) : (u.setLoop k new).Refines := by
  intro loop hloop
  obtain ⟨hopen, -, hloops, -, -⟩ := hturn.kept
  have hlength : s.loops.length = 1 := by
    have hset := congrArg List.length hloop
    simpa [setLoop, hloops] using hset
  obtain ⟨rfl, hbefore⟩ := single_of_getElem? hold hlength.le
  obtain rfl : new = loop := by simpa [setLoop, hloops, hbefore] using hloop
  obtain ⟨⟨isOpen, phase, rearms⟩, ht, hsame, hpictured⟩ := h old hbefore
  obtain rfl : isOpen = s.isOpen := hsame
  cases hturn with
  | complete k d rest hqueue =>
      cases hpictured with
      | pending late ho =>
          have hnext : AsyncUdpSocket.machine.Reachable ⟨s.isOpen,
              .completed late (.datagram ((s.store d).shown (s.bytes d)).data), rearms⟩ :=
            AsyncUdpSocket.reachable_complete ht rfl (.inl ho)
          exact ⟨_, hnext, rfl, .datagram late _⟩
  | fail k ec hec =>
      cases hpictured with
      | pending late ho =>
          exact ⟨_, AsyncUdpSocket.reachable_complete ht rfl (.inl ho), rfl, .error late ec⟩
  | pass k bytes =>
      cases hpictured with
      | datagram late => exact ⟨_, ht.step (a := .handle) trivial rfl, rfl, .callback late _⟩
  | aborted k =>
      cases hpictured with
      | error late => exact ⟨_, ht.step (a := .handle) trivial rfl, rfl, .stopped⟩
  | report k ec hec =>
      cases hpictured with
      | error late =>
          have hhandler : AsyncUdpSocket.handler late (.error ec) = .callback late (.onError ec) := by
            cases ec with
            | operationAborted => exact absurd rfl hec
            | badDescriptor | other code => rfl
          refine ⟨_, ht.step (a := .handle) trivial rfl, rfl, ?_⟩
          rw [hhandler]
          exact .callback late _
  | rearm k =>
      cases hpictured with
      | callback late call =>
          have hpending := ht.step (a := .rearm) trivial rfl
          cases ho : s.isOpen with
          | true =>
              rw [armed_of_open ho]
              exact ⟨_, hpending, rfl, .pending _ ho⟩
          | false =>
              have harmed : s.armed = .completed (.error .badDescriptor) := by simp [armed, ho]
              rw [harmed]
              exact ⟨_, AsyncUdpSocket.reachable_complete hpending rfl (.inr rfl), rfl, .error _ _⟩
  | throws k =>
      cases hpictured with
      | callback late call => exact ⟨_, ht.step (a := .throws) trivial rfl, rfl, .stopped⟩

theorem Refines.step {s s' : AsyncUdpSocketImpl ι} {a : SocketAction ι} (h : s.Refines)
    (hstep : Step s a s') : s'.Refines := by
  cases hstep with
  | receive =>
      intro loop hloop
      have hempty : s.loops = [] := by
        have hlength := congrArg List.length hloop
        exact List.length_eq_zero_iff.mp (by simpa using hlength)
      obtain rfl : s.armed = loop := by simpa [hempty] using hloop
      obtain ⟨t, ht, hopen, hpictured⟩ := refines_armed s
      exact ⟨t, ht, hopen, hpictured.congr rfl rfl⟩
  | closed hclosed => exact h
  | close hopen =>
      rw [AsyncUdpSocketImpl.close, if_pos hopen]
      intro loop hloop
      obtain ⟨before, hbefore, rfl⟩ := List.map_eq_singleton_iff.mp hloop
      obtain ⟨t, ht, hsame, hpictured⟩ := h before hbefore
      have hclose : t.close = { t with isOpen := false, phase := AsyncUdpSocket.abort t.phase } :=
        if_pos (hsame.trans hopen)
      refine ⟨t.close, ht.step (a := .close) trivial rfl, by rw [hclose], ?_⟩
      rw [hclose]
      exact hpictured.close rfl
  | arrive d hopen =>
      intro loop hloop
      obtain ⟨t, ht, hsame, hpictured⟩ := h loop hloop
      exact ⟨t, ht, hsame, hpictured.congr rfl rfl⟩
  | turn _ k old new u hold hturn => exact h.turn hold hturn

/-- The socket with one loop refines the loop without its buffer. -/
theorem Reachable.refines {size : ℕ} {endpoint : ι} {s : AsyncUdpSocketImpl ι}
    (h : (machine size endpoint).Reachable s) : s.Refines :=
  h.invariant (fun _ hloop => by cases hloop) fun _ _ _ hs _ hstep => hs.step (step_cases hstep)

end AsyncUdpSocketImpl

end CommonLib.AsyncUdp
