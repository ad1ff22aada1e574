import CommonLib.Verification.AsyncUdp.Buffer
import Mathlib.Logic.Function.Basic

/-! # What is received was sent

A network may lose, delay, repeat and reorder datagrams, but it makes none up. Nor does a socket, as
long as one loop uses its buffer. -/

namespace CommonLib.AsyncUdp

namespace AsyncUdpSocketImpl

variable {ι : Type*}

/-- Only an arrival is one. -/
theorem Step.arrived {s s' : AsyncUdpSocketImpl ι} {a : SocketAction ι} (h : Step s a s')
    (ha : ∀ d, a ≠ .arrive d) : s'.arrived = s.arrived := by
  cases h with
  | receive | closed => rfl
  | close hopen => rw [AsyncUdpSocketImpl.close, if_pos hopen]
  | arrive d hopen => exact absurd rfl (ha d)
  | turn _ k old new t hold hturn => exact hturn.kept.2.2.2.1

end AsyncUdpSocketImpl

namespace Network

open AsyncUdpSocketImpl

variable {ι : Type*} [DecidableEq ι] {size : ι → ℕ} {endpoint : ι}

/-! ## The steps -/

inductive Step (w : Network ι) : Network ι → Prop
  | send (c dest : ι) (data : Bytes) : Step w { w with sent := w.sent ++ [(dest, ⟨data, c⟩)] }
  | deliver (dest : ι) (d : Datagram ι) (s : AsyncUdpSocketImpl ι) (hsent : (dest, d) ∈ w.sent)
      (hstep : AsyncUdpSocketImpl.Step (w.socket dest) (.arrive d) s) : Step w (w.setSocket dest s)
  | socket (c : ι) (a : SocketAction ι) (s : AsyncUdpSocketImpl ι) (ha : ∀ d, a ≠ .arrive d)
      (hstep : AsyncUdpSocketImpl.Step (w.socket c) a s) : Step w (w.setSocket c s)

theorem step_socket (w : Network ι) (c : ι) {a : SocketAction ι} (ha : ∀ d, a ≠ .arrive d) :
    w.step (.socket c a) = ((w.socket c).step a).map (w.setSocket c) := by
  cases a with
  | arrive d => exact absurd rfl (ha d)
  | receive | close | complete | fail | handle | rearm | throws => rfl

theorem step_cases {w w' : Network ι} {a : NetworkAction ι} (h : w.step a = some w') : Step w w' := by
  cases a with
  | send c dest data =>
      simp only [step] at h
      split at h <;> cases h
      exact .send c dest data
  | deliver dest d =>
      simp only [step] at h
      split at h
      · next hsent =>
          obtain ⟨s, hs, rfl⟩ := Option.map_eq_some_iff.mp h
          exact .deliver dest d s hsent (AsyncUdpSocketImpl.step_cases hs)
      · cases h
  | socket c a =>
      by_cases ha : ∀ d, a ≠ .arrive d
      · rw [step_socket w c ha] at h
        obtain ⟨s, hs, rfl⟩ := Option.map_eq_some_iff.mp h
        exact .socket c a s ha (AsyncUdpSocketImpl.step_cases hs)
      · obtain ⟨d, hd⟩ := not_forall.mp ha
        obtain rfl : a = .arrive d := not_not.mp hd
        cases h

/-! ## Every arrival was sent -/

structure Honest (size : ι → ℕ) (w : Network ι) : Prop where
  accounted (c : ι) : Accounted (size c) (w.socket c)
  sent (c : ι) (d : Datagram ι) : d ∈ (w.socket c).arrived → (c, d) ∈ w.sent

theorem Honest.setSocket {w : Network ι} (h : Honest size w) {c : ι} {a : SocketAction ι}
    {s : AsyncUdpSocketImpl ι} (hstep : AsyncUdpSocketImpl.Step (w.socket c) a s)
    (hsent : ∀ d ∈ s.arrived, (c, d) ∈ w.sent) : Honest size (w.setSocket c s) where
  accounted i := by
    by_cases hi : i = c
    · subst hi
      simpa [Network.setSocket] using (h.accounted i).step hstep
    · simpa [Network.setSocket, hi] using h.accounted i
  sent i d hd := by
    by_cases hi : i = c
    · subst hi
      exact hsent d (by simpa [Network.setSocket] using hd)
    · exact h.sent i d (by simpa [Network.setSocket, hi] using hd)

theorem Honest.step {w w' : Network ι} (h : Honest size w) (hstep : Step w w') :
    Honest size w' := by
  cases hstep with
  | send c dest data =>
      exact ⟨h.accounted, fun i d hd => List.mem_append_left _ (h.sent i d hd)⟩
  | deliver dest d s hsent hs =>
      refine h.setSocket hs fun e he => ?_
      cases hs with
      | arrive _ hopen =>
          rcases List.mem_append.mp he with hbefore | hnew
          · exact h.sent dest e hbefore
          · rw [List.mem_singleton.mp hnew]
            exact hsent
      | turn _ k old new t hold hturn => cases hturn
  | socket c a s ha hs =>
      refine h.setSocket hs fun d hd => h.sent c d ?_
      rwa [← hs.arrived ha]

theorem Reachable.honest {w : Network ι} (h : (machine size endpoint).Reachable w) :
    Honest size w :=
  h.invariant ⟨fun c => accounted_init (size c) endpoint, fun c d hd => by cases hd⟩
    fun _ _ _ hw _ hstep => hw.step (step_cases hstep)

/-! ## Runs of one socket -/

/-- What a socket can do for which only datagrams come in that have been sent. -/
theorem Reachable.setSocket {w : Network ι} (hw : (machine size endpoint).Reachable w) (c : ι)
    (hinit : w.socket c = .init (size c) endpoint) {s : AsyncUdpSocketImpl ι}
    (h : (AsyncUdpSocketImpl.machine (size c) endpoint).Reaches
      (fun _ a => ∀ d, a = .arrive d → (c, d) ∈ w.sent) s) :
    (machine size endpoint).Reachable (w.setSocket c s) := by
  induction h with
  | init =>
      have hsame : w.setSocket c (.init (size c) endpoint) = w := by
        rw [Network.setSocket, ← hinit, Function.update_eq_self]
      exact hsame.symm ▸ hw
  | @step s s' a _ hok hs ih =>
      have hget : (w.setSocket c s).socket c = s := by simp [Network.setSocket]
      have hset : (w.setSocket c s).setSocket c s' = w.setSocket c s' := by
        simp [Network.setSocket]
      have hmap : (((w.setSocket c s).socket c).step a).map ((w.setSocket c s).setSocket c) =
          some (w.setSocket c s') := by
        rw [hget, ← hset]
        exact congrArg _ hs
      by_cases ha : ∀ d, a ≠ .arrive d
      · exact ih.step (a := .socket c a) trivial ((step_socket _ c ha).trans hmap)
      · obtain ⟨d, hd⟩ := not_forall.mp ha
        obtain rfl : a = .arrive d := not_not.mp hd
        exact ih.step (a := .deliver c d) trivial ((if_pos (hok d rfl)).trans hmap)

/-- Two loops make up a datagram out of two others. -/
theorem exists_forged (endpoint c : ι) (hsize : 2 ≤ size c) (n : ℕ) :
    ∃ w : Network ι, (machine size endpoint).Reachable w ∧ (w.socket c).loops.length = n + 2 ∧
      w.sent = [(c, ⟨[0, 0], c⟩), (c, ⟨[1], c⟩)] ∧ (w.socket c).received = [⟨[1, 0], c⟩] := by
  obtain ⟨k, hk⟩ : ∃ k, size c = k + 2 := ⟨size c - 2, by omega⟩
  have hrun : (machine size endpoint).run (machine size endpoint).init
      [.send c c [0, 0], .send c c [1]] =
        some ⟨fun i => .init (size i) endpoint, [(c, ⟨[0, 0], c⟩), (c, ⟨[1], c⟩)]⟩ := rfl
  obtain ⟨s, hs, hlength, -, hreceived⟩ :=
    exists_overwritten (size c) endpoint n ⟨[0, 0], c⟩ ⟨[1], c⟩
  refine ⟨_, Reachable.setSocket (Machine.reachable_of_run hrun) c rfl (hs.mono fun _ a ha d hd => ?_), ?_, rfl, ?_⟩
  · have hmem := ha d hd
    simp only [List.mem_cons, List.not_mem_nil, or_false] at hmem
    rcases hmem with rfl | rfl
    · exact List.mem_cons_self
    · exact List.mem_cons_of_mem _ List.mem_cons_self
  · simpa [Network.setSocket] using hlength
  · simp only [Network.setSocket, Function.update_self]
    rw [hreceived, hk]
    rfl

/-- Whatever `onReceive` is called with has been sent to this socket, by the sender that is named,
and has lost no more than what does not fit into the buffer: in every run with a given number of
loops on the socket, if and only if that is at most one. -/
theorem received_was_sent_iff (c : ι) (hsize : 2 ≤ size c) (loops : ℕ) :
    (∀ w : Network ι, (machine size endpoint).Reachable w → (w.socket c).loops.length = loops →
      ∀ d ∈ (w.socket c).received, ∃ e, (c, e) ∈ w.sent ∧ d = e.truncate (size c)) ↔ loops ≤ 1 := by
  constructor
  · intro hall
    by_contra hmore
    obtain ⟨n, rfl⟩ : ∃ n, loops = n + 2 := ⟨loops - 2, by omega⟩
    obtain ⟨w, hw, hlength, hsent, hreceived⟩ := exists_forged endpoint c hsize n
    obtain ⟨e, he, hforged⟩ := hall w hw hlength ⟨[1, 0], c⟩ (by simp [hreceived])
    obtain ⟨k, hk⟩ : ∃ k, size c = k + 2 := ⟨size c - 2, by omega⟩
    rw [hsent] at he
    rw [hk] at hforged
    simp only [List.mem_cons, Prod.mk.injEq, true_and, List.not_mem_nil, or_false] at he
    rcases he with rfl | rfl <;> simp [Datagram.truncate] at hforged
  · intro hone w hw hlength d hd
    have hhonest := Reachable.honest hw
    have horder := (hhonest.accounted c).order (hlength.trans_le hone)
    have hmem : d ∈ (w.socket c).arrived.map (Datagram.truncate (size c)) := by
      rw [← horder, List.append_assoc]
      exact List.mem_append_left _ hd
    obtain ⟨e, he, rfl⟩ := List.mem_map.mp hmem
    exact ⟨e, hhonest.sent c e he, rfl⟩

/-- A second loop, with a buffer of the default size. -/
theorem received_was_sent_iff_two :
    ¬ ∀ w : Network ℕ, (machine (fun _ => 65507) 0).Reachable w → (w.socket 5).loops.length = 2 →
      ∀ d ∈ (w.socket 5).received, ∃ e, (5, e) ∈ w.sent ∧ d = e.truncate 65507 :=
  (received_was_sent_iff 5 (by decide) 2).not.mpr (by decide)

end Network

end CommonLib.AsyncUdp
