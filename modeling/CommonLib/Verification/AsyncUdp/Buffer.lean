import CommonLib.Model.AsyncUdpBuffer
import Mathlib.Data.List.Basic
import Mathlib.Tactic.Common

/-! # One buffer for all receive loops

A loop reads the buffer only when its handler is run, some time after its receive was completed.
With one loop nobody writes in between, and the datagrams are passed on in turn; a second call of
`receive` takes that away. -/

namespace CommonLib.AsyncUdp

/-- How many bytes a handler still has to take out of the buffer. -/
def ReceiveLoop.bytes : ReceiveLoop → Option ℕ
  | completed (.ok bytes) => some bytes
  | pending | completed (.error _) | callback | stopped => none

theorem ReceiveLoop.bytes_abort (loop : ReceiveLoop) : loop.abort.bytes = loop.bytes := by
  cases loop <;> rfl

theorem ReceiveLoop.abort_ne_pending (loop : ReceiveLoop) : loop.abort ≠ .pending := by
  cases loop <;> simp [abort]

/-- How many steps a loop has before it until it waits or has ended. -/
def ReceiveLoop.work : ReceiveLoop → ℕ
  | pending | stopped => 0
  | callback => 1
  | completed _ => 2

theorem ReceiveLoop.work_le (loop : ReceiveLoop) : loop.work ≤ 2 := by
  cases loop <;> simp [work]

theorem single_of_getElem? {loops : List ReceiveLoop} {k : ℕ} {loop : ReceiveLoop}
    (h : loops[k]? = some loop) (hone : loops.length ≤ 1) : k = 0 ∧ loops = [loop] := by
  obtain ⟨hk, hget⟩ := List.getElem?_eq_some_iff.mp h
  obtain ⟨first, rfl⟩ := List.length_eq_one_iff.mp (by omega : loops.length = 1)
  obtain rfl : k = 0 := by simpa using hk
  exact ⟨rfl, congrArg (fun first => [first]) hget⟩

namespace AsyncUdpSocketImpl

variable {ι : Type*}

theorem armed_of_open {s : AsyncUdpSocketImpl ι} (hopen : s.isOpen = true) :
    s.armed = .pending := by
  simp [armed, hopen]

theorem bytes_armed (s : AsyncUdpSocketImpl ι) : s.armed.bytes = none := by
  unfold armed
  split <;> rfl

/-! ## The steps -/

/-- A loop takes a step: what it was, what it becomes, and what happens besides. -/
inductive Turn (s : AsyncUdpSocketImpl ι) :
    SocketAction ι → ReceiveLoop → ReceiveLoop → AsyncUdpSocketImpl ι → Prop
  | complete (k : ℕ) (d : Datagram ι) (rest : List (Datagram ι)) (hqueue : s.queue = d :: rest) :
      Turn s (.complete k) .pending (.completed (.ok (s.bytes d))) { s.store d with queue := rest }
  | fail (k : ℕ) (ec : Error) (hec : ec ≠ .operationAborted) :
      Turn s (.fail k ec) .pending (.completed (.error ec)) s
  | pass (k bytes : ℕ) :
      Turn s (.handle k) (.completed (.ok bytes)) .callback
        { s with received := s.received ++ [s.shown bytes] }
  | aborted (k : ℕ) : Turn s (.handle k) (.completed (.error .operationAborted)) .stopped s
  | report (k : ℕ) (ec : Error) (hec : ec ≠ .operationAborted) :
      Turn s (.handle k) (.completed (.error ec)) .callback s
  | rearm (k : ℕ) : Turn s (.rearm k) .callback s.armed s
  | throws (k : ℕ) : Turn s (.throws k) .callback .stopped s

inductive Step (s : AsyncUdpSocketImpl ι) : SocketAction ι → AsyncUdpSocketImpl ι → Prop
  | receive : Step s .receive { s with loops := s.loops ++ [s.armed] }
  | closed (hclosed : s.isOpen = false) : Step s .close s
  | close (hopen : s.isOpen = true) :
      Step s .close s.close
  | arrive (d : Datagram ι) (hopen : s.isOpen = true) :
      Step s (.arrive d) { s with queue := s.queue ++ [d], arrived := s.arrived ++ [d] }
  | turn (a : SocketAction ι) (k : ℕ) (old new : ReceiveLoop) (t : AsyncUdpSocketImpl ι)
      (hold : s.loops[k]? = some old) (hturn : Turn s a old new t) : Step s a (t.setLoop k new)

/-- The completion handler turns its loop. -/
theorem Turn.of_handler (s : AsyncUdpSocketImpl ι) (k : ℕ) (result : Except Error ℕ) :
    ∃ new t, Turn s (.handle k) (.completed result) new t ∧ s.handler k result = t.setLoop k new := by
  cases result with
  | ok bytes => exact ⟨_, _, .pass k bytes, rfl⟩
  | error ec =>
      by_cases hec : ec = .operationAborted
      · subst hec
        exact ⟨_, _, .aborted k, rfl⟩
      · refine ⟨_, _, .report k ec hec, ?_⟩
        cases ec with
        | operationAborted => exact absurd rfl hec
        | badDescriptor | other code => rfl

theorem step_cases {s s' : AsyncUdpSocketImpl ι} {a : SocketAction ι} (h : s.step a = some s') :
    Step s a s' := by
  cases a with
  | receive =>
      cases h
      exact .receive
  | close =>
      cases h
      cases hopen : s.isOpen with
      | true => exact .close hopen
      | false =>
          have hsame : s.close = s := by simp [AsyncUdpSocketImpl.close, hopen]
          rw [hsame]
          exact .closed hopen
  | arrive d =>
      simp only [step] at h
      split at h <;> cases h
      exact .arrive d ‹_›
  | complete k =>
      simp only [step] at h
      split at h <;> cases h
      rename_i d rest hk hqueue
      exact .turn _ k _ _ _ hk (.complete k d rest hqueue)
  | fail k ec =>
      simp only [step] at h
      split at h
      · next hk =>
          split at h <;> cases h
          exact .turn _ k _ _ _ hk (.fail k ec ‹_›)
      · cases h
  | handle k =>
      simp only [step] at h
      split at h <;> cases h
      rename_i result hk
      obtain ⟨new, t, hturn, hhandler⟩ := Turn.of_handler s k result
      rw [hhandler]
      exact .turn _ k _ _ _ hk hturn
  | rearm k =>
      simp only [step] at h
      split at h <;> cases h
      exact .turn _ k _ _ _ ‹_› (.rearm k)
  | throws k =>
      simp only [step] at h
      split at h <;> cases h
      exact .turn _ k _ _ _ ‹_› (.throws k)

/-! ## One loop -/

/-- What the handlers would read that are still to be run. -/
def inBuffer (s : AsyncUdpSocketImpl ι) : List (Datagram ι) :=
  s.loops.filterMap fun loop => loop.bytes.map s.shown

theorem inBuffer_of_single {s : AsyncUdpSocketImpl ι} {loop : ReceiveLoop} (h : s.loops = [loop]) :
    s.inBuffer = (loop.bytes.map s.shown).toList := by
  cases hbytes : loop.bytes <;> simp [inBuffer, h, hbytes]

theorem length_store (s : AsyncUdpSocketImpl ι) (d : Datagram ι) :
    (s.store d).buffer.length = s.buffer.length := by
  simp only [store, List.length_append, List.length_take, List.length_drop]
  omega

/-- Read at once, the buffer shows the datagram as far as it fits. -/
theorem shown_store (s : AsyncUdpSocketImpl ι) (d : Datagram ι) :
    (s.store d).shown (s.bytes d) = d.truncate s.buffer.length := by
  have hlength : (d.data.take s.buffer.length).length = s.bytes d := by
    rw [List.length_take, bytes, Nat.min_comm]
  rw [shown, store, Datagram.truncate, List.take_left' hlength]

/-- A turn keeps the order: a datagram goes from the queue through the buffer to `onReceive`. -/
theorem Turn.order {s t : AsyncUdpSocketImpl ι} {a : SocketAction ι} {old new : ReceiveLoop}
    (h : Turn s a old new t) :
    t.received ++ (new.bytes.map t.shown).toList ++
        t.queue.map (Datagram.truncate s.buffer.length) =
      s.received ++ (old.bytes.map s.shown).toList ++
        s.queue.map (Datagram.truncate s.buffer.length) := by
  cases h with
  | complete k d rest hqueue =>
      have hshown := shown_store s d
      rw [hqueue]
      simpa [ReceiveLoop.bytes, store, shown] using hshown
  | pass k bytes => simp [ReceiveLoop.bytes]
  | rearm k =>
      rw [bytes_armed]
      rfl
  | fail | aborted | report | throws => simp [ReceiveLoop.bytes]

/-- What a turn leaves alone. -/
theorem Turn.kept {s t : AsyncUdpSocketImpl ι} {a : SocketAction ι} {old new : ReceiveLoop}
    (h : Turn s a old new t) : t.isOpen = s.isOpen ∧ t.buffer.length = s.buffer.length ∧
      t.loops = s.loops ∧ t.arrived = s.arrived ∧ t.lost = s.lost := by
  cases h with
  | complete k d rest hqueue => exact ⟨rfl, length_store s d, rfl, rfl, rfl⟩
  | fail | pass | aborted | report | rearm | throws => exact ⟨rfl, rfl, rfl, rfl, rfl⟩

/-- Where the datagrams are that came in, as long as there is at most one loop. -/
structure Accounted (size : ℕ) (s : AsyncUdpSocketImpl ι) : Prop where
  length : s.buffer.length = size
  lost : s.isOpen = true → s.lost = []
  queue : s.isOpen = false → s.queue = []
  live : s.isOpen = true → .completed (.error .operationAborted) ∉ s.loops
  order : s.loops.length ≤ 1 → s.received ++ s.inBuffer ++
    (s.queue ++ s.lost).map (Datagram.truncate size) = s.arrived.map (Datagram.truncate size)

theorem accounted_init (size : ℕ) (endpoint : ι) : Accounted size (init size endpoint) :=
  ⟨List.length_replicate, fun _ => rfl, fun _ => rfl, fun _ => List.not_mem_nil, fun _ => rfl⟩

theorem Turn.not_aborted {s t : AsyncUdpSocketImpl ι} {a : SocketAction ι} {old new : ReceiveLoop}
    (h : Turn s a old new t) (hopen : s.isOpen = true) :
    new ≠ .completed (.error .operationAborted) := by
  cases h with
  | fail k ec hec => simpa using hec
  | rearm k => simp [armed_of_open hopen]
  | complete | pass | aborted | report | throws => simp

theorem Accounted.turn {size k : ℕ} {s t : AsyncUdpSocketImpl ι} {a : SocketAction ι}
    {old new : ReceiveLoop} (h : Accounted size s) (hold : s.loops[k]? = some old)
    (hturn : Turn s a old new t) : Accounted size (t.setLoop k new) := by
  obtain ⟨hopen, hlength, hloops, harrived, hlost⟩ := hturn.kept
  refine ⟨hlength.trans h.length, fun ho => hlost.trans (h.lost (hopen.symm.trans ho)),
    fun hc => ?_, fun ho hmem => ?_, fun hone => ?_⟩
  · have hempty := h.queue (hopen.symm.trans hc)
    change t.queue = []
    cases hturn with
    | complete k d rest hqueue =>
        rw [hempty] at hqueue
        cases hqueue
    | fail | pass | aborted | report | rearm | throws => exact hempty
  · have hsame : s.isOpen = true := hopen.symm.trans ho
    rcases List.mem_or_eq_of_mem_set hmem with hbefore | hnew
    · exact h.live hsame (hloops ▸ hbefore)
    · exact hturn.not_aborted hsame hnew.symm
  · have hlen : s.loops.length ≤ 1 := by simpa [setLoop, hloops] using hone
    obtain ⟨rfl, hloop⟩ := single_of_getElem? hold hlen
    have hnew : (t.setLoop 0 new).loops = [new] := by simp [setLoop, hloops, hloop]
    have horder := hturn.order
    have hbefore := h.order hlen
    rw [h.length] at horder
    rw [inBuffer_of_single hloop, List.map_append, ← List.append_assoc, ← horder] at hbefore
    rw [inBuffer_of_single hnew, List.map_append, ← List.append_assoc]
    change _ = t.arrived.map _
    rw [harrived, ← hbefore, ← hlost]
    rfl

theorem inBuffer_append (s : AsyncUdpSocketImpl ι) {loop : ReceiveLoop} (h : loop.bytes = none) :
    inBuffer { s with loops := s.loops ++ [loop] } = s.inBuffer := by
  simp only [inBuffer, List.filterMap_append, List.filterMap_cons, h, Option.map_none,
    List.filterMap_nil, List.append_nil]
  rfl

theorem inBuffer_close (s : AsyncUdpSocketImpl ι) : s.close.inBuffer = s.inBuffer := by
  unfold AsyncUdpSocketImpl.close
  split
  · simp only [inBuffer, List.filterMap_map, Function.comp_def, ReceiveLoop.bytes_abort]
    rfl
  · rfl

theorem Accounted.step {size : ℕ} {s s' : AsyncUdpSocketImpl ι} {a : SocketAction ι}
    (h : Accounted size s) (hstep : Step s a s') : Accounted size s' := by
  cases hstep with
  | receive =>
      refine ⟨h.length, h.lost, h.queue, fun hopen hmem => ?_, fun hone => ?_⟩
      · rcases List.mem_append.mp hmem with hbefore | hnew
        · exact h.live hopen hbefore
        · have harmed : s.armed = .pending := armed_of_open hopen
          rw [harmed, List.mem_singleton] at hnew
          cases hnew
      have hnone : s.loops.length ≤ 1 := by
        simp only [List.length_append, List.length_singleton] at hone
        omega
      rw [inBuffer_append s (bytes_armed s)]
      exact h.order hnone
  | closed hclosed => exact h
  | close hopen =>
      have hbuffer := inBuffer_close s
      rw [AsyncUdpSocketImpl.close, if_pos hopen] at hbuffer ⊢
      refine ⟨h.length, fun hclosed => (by cases hclosed), fun _ => rfl,
        fun hclosed => (by cases hclosed), fun hone => ?_⟩
      have horder := h.order (by simpa using hone)
      rw [hbuffer]
      simpa [h.lost hopen] using horder
  | arrive d hopen =>
      refine ⟨h.length, h.lost, fun hclosed => ?_, h.live, fun hone => ?_⟩
      · rw [hopen] at hclosed
        cases hclosed
      · have horder := h.order hone
        rw [h.lost hopen, List.append_nil] at horder
        change s.received ++ s.inBuffer ++ (s.queue ++ [d] ++ s.lost).map _ = _
        rw [h.lost hopen, List.append_nil, List.map_append, ← List.append_assoc, horder,
          List.map_append]
  | turn a k old new t hold hturn => exact h.turn hold hturn

theorem Reachable.accounted {size : ℕ} {endpoint : ι} {s : AsyncUdpSocketImpl ι}
    (h : (machine size endpoint).Reachable s) : Accounted size s :=
  h.invariant (accounted_init size endpoint) fun _ _ _ hs _ hstep => hs.step (step_cases hstep)

/-! ## More loops -/

/-- Any number of calls of `receive`. -/
theorem reaches_receive {size : ℕ} {endpoint : ι}
    {ok : AsyncUdpSocketImpl ι → SocketAction ι → Prop} (hok : ∀ s, ok s .receive) (n : ℕ) :
    (machine size endpoint).Reaches ok
      { init size endpoint with loops := List.replicate n .pending } := by
  induction n with
  | zero => exact .init
  | succ n ih =>
      refine ih.step (hok _) ?_
      rw [List.replicate_succ']
      rfl

/-- The datagram `a` of the first loop is overwritten with `b` by the second one. -/
theorem exists_overwritten (size : ℕ) (endpoint : ι) (n : ℕ) (a b : Datagram ι) :
    ∃ s : AsyncUdpSocketImpl ι,
      (machine size endpoint).Reaches (fun _ act => ∀ d, act = .arrive d → d ∈ [a, b]) s ∧
        s.loops.length = n + 2 ∧ s.arrived = [a, b] ∧
        s.received = [(((init size endpoint).store a).store b).shown ((init size endpoint).bytes a)] := by
  have hpending : (machine size endpoint).Reaches (fun _ act => ∀ d, act = .arrive d → d ∈ [a, b])
      { init size endpoint with loops := List.replicate (n + 2) .pending } :=
    reaches_receive (fun _ _ h => by cases h) (n + 2)
  have hfirst := hpending.step (a := .arrive a) (by simp) rfl
  have hsecond := hfirst.step (a := .arrive b) (by simp) rfl
  have hboth := (hsecond.step (a := .complete 0) (by simp) rfl).step (a := .complete 1) (by simp) rfl
  refine ⟨_, hboth.step (a := .handle 0) (by simp) rfl, ?_, rfl, rfl⟩
  exact List.length_set.trans (List.length_set.trans (List.length_set.trans List.length_replicate))

/-- The calls of `onReceive` are about the datagrams that came in, one after the other, as far as
they fit into the buffer: in every run with a given number of loops, if and only if that is at most
one. -/
theorem received_in_order_iff {size : ℕ} (hsize : 0 < size) (endpoint : ι) (loops : ℕ) :
    (∀ s : AsyncUdpSocketImpl ι, (machine size endpoint).Reachable s → s.loops.length = loops →
      s.received <+: s.arrived.map (Datagram.truncate size)) ↔ loops ≤ 1 := by
  constructor
  · intro hall
    by_contra hmore
    obtain ⟨n, rfl⟩ : ∃ n, loops = n + 2 := ⟨loops - 2, by omega⟩
    obtain ⟨size, rfl⟩ : ∃ k, size = k + 1 := ⟨size - 1, by omega⟩
    obtain ⟨s, hs, hlength, harrived, hreceived⟩ :=
      exists_overwritten (size + 1) endpoint n ⟨[0], endpoint⟩ ⟨[1], endpoint⟩
    have hprefix := hall s (hs.mono fun _ _ _ => trivial) hlength
    rw [hreceived, harrived] at hprefix
    simp [Datagram.truncate, shown, store, bytes, init] at hprefix
  · intro hone s hs hlength
    have horder := (Reachable.accounted hs).order (hlength.trans_le hone)
    rw [← horder, List.append_assoc]
    exact List.prefix_append _ _

/-- A second loop, on a socket with the buffer of the default size. -/
theorem received_in_order_iff_two :
    ¬ ∀ s : AsyncUdpSocketImpl ℕ, (machine 65507 0).Reachable s → s.loops.length = 2 →
      s.received <+: s.arrived.map (Datagram.truncate 65507) :=
  (received_in_order_iff (by decide) 0 2).not.mpr (by decide)

/-! ## Nothing stays behind -/

/-- The steps of the one loop, while no receive fails and no handler throws. -/
def ownSteps : List (SocketAction ι) := [.complete 0, .handle 0, .rearm 0]

/-- An open socket, for which these datagrams have come in, with a loop that has not ended. -/
structure Looping (size : ℕ) (arrived : List (Datagram ι)) (s : AsyncUdpSocketImpl ι) : Prop where
  accounted : Accounted size s
  isOpen : s.isOpen = true
  arrived : s.arrived = arrived
  loop : ∃ loop, s.loops = [loop] ∧ loop ≠ .stopped

/-- How many steps of its own the loop has before it. -/
def distance (s : AsyncUdpSocketImpl ι) : ℕ :=
  3 * s.queue.length + (s.loops.map ReceiveLoop.work).sum

theorem Looping.step {size : ℕ} {arrived : List (Datagram ι)} {s s' : AsyncUdpSocketImpl ι}
    {a : SocketAction ι} (h : Looping size arrived s) (ha : a ∈ ownSteps) (hstep : Step s a s') :
    Looping size arrived s' ∧ s'.distance < s.distance := by
  obtain ⟨loop, hloop, hlive⟩ := h.loop
  have hnext := h.accounted.step hstep
  cases hstep with
  | receive | closed | close | arrive => simp [ownSteps] at ha
  | turn a k old new t hold hturn =>
      obtain ⟨hopen, -, hloops, harrived, -⟩ := hturn.kept
      obtain ⟨rfl, hsame⟩ := single_of_getElem? hold (by simp [hloop])
      obtain rfl : loop = old := by simpa [hloop] using hsame
      have hnew : (t.setLoop 0 new).loops = [new] := by simp [setLoop, hloops, hloop]
      have hkeep : new ≠ .stopped → Looping size arrived (t.setLoop 0 new) := fun hne =>
        ⟨hnext, hopen.trans h.isOpen, harrived.trans h.arrived, new, hnew, hne⟩
      have habort : loop ≠ .completed (.error .operationAborted) := by
        rintro rfl
        exact h.accounted.live h.isOpen (by simp [hloop])
      simp only [distance, hnew, hloop, List.map_cons, List.map_nil, List.sum_singleton]
      cases hturn with
      | complete k d rest hqueue =>
          refine ⟨hkeep (by simp), ?_⟩
          simp only [setLoop, hqueue, List.length_cons, ReceiveLoop.work]
          omega
      | pass k bytes => exact ⟨hkeep (by simp), by simp [setLoop, ReceiveLoop.work]⟩
      | report k ec hec => exact ⟨hkeep (by simp), by simp [setLoop, ReceiveLoop.work]⟩
      | rearm k =>
          rw [armed_of_open h.isOpen] at hkeep ⊢
          exact ⟨hkeep (by simp), by simp [setLoop, ReceiveLoop.work]⟩
      | aborted k => exact absurd rfl habort
      | fail | throws => simp [ownSteps] at ha

/-- Where the loop has no step of its own, everything has been passed on. -/
theorem Looping.received {size : ℕ} {arrived : List (Datagram ι)} {s : AsyncUdpSocketImpl ι}
    (h : Looping size arrived s) (hstuck : ∀ a ∈ ownSteps, s.step a = none) :
    s.received = arrived.map (Datagram.truncate size) := by
  obtain ⟨loop, hloop, hlive⟩ := h.loop
  have hcomplete := hstuck (.complete 0) (by simp [ownSteps])
  have hhandle := hstuck (.handle 0) (by simp [ownSteps])
  have hrearm := hstuck (.rearm 0) (by simp [ownSteps])
  have horder := h.accounted.order (by simp [hloop])
  rw [inBuffer_of_single hloop, h.accounted.lost h.isOpen, List.append_nil, h.arrived] at horder
  cases loop with
  | pending =>
      have hqueue : s.queue = [] := by
        cases hqueue : s.queue with
        | nil => rfl
        | cons d rest => simp [AsyncUdpSocketImpl.step, hloop, hqueue] at hcomplete
      simpa [hqueue, ReceiveLoop.bytes] using horder
  | completed result => simp [AsyncUdpSocketImpl.step, hloop] at hhandle
  | callback => simp [AsyncUdpSocketImpl.step, hloop] at hrearm
  | stopped => exact absurd rfl hlive

/-- While one loop runs on an open socket, it passes on everything that has come in within three
steps for each datagram in the queue, and two for what it has in hand, in whatever order its steps
are taken. -/
theorem delivers_all {size : ℕ} {endpoint : ι} {s s' : AsyncUdpSocketImpl ι}
    (h : (machine size endpoint).Reachable s) (hopen : s.isOpen = true) {loop : ReceiveLoop}
    (hloop : s.loops = [loop]) (hlive : loop ≠ .stopped) {actions : List (SocketAction ι)}
    (hactions : ∀ a ∈ actions, a ∈ ownSteps)
    (hrun : (machine size endpoint).run s actions = some s') :
    actions.length ≤ 3 * s.queue.length + 2 ∧
      ((∀ a ∈ ownSteps, s'.step a = none) →
        s'.received = s.arrived.map (Datagram.truncate size)) := by
  have hstart : Looping size s.arrived s :=
    ⟨Reachable.accounted h, hopen, rfl, loop, hloop, hlive⟩
  obtain ⟨hend, hlength⟩ := Machine.run_length_le distance
    (fun t a t' ha ht hs => ht.step ha (step_cases hs)) hactions hstart hrun
  refine ⟨?_, hend.received⟩
  have hwork : s.distance ≤ 3 * s.queue.length + 2 := by
    have hloopwork := loop.work_le
    simp only [distance, hloop, List.map_cons, List.map_nil, List.sum_singleton]
    omega
  omega

/-- A datagram that does not fit. -/
theorem delivers_all_truncated :
    ∃ s s' : AsyncUdpSocketImpl ℕ,
      (machine 2 0).run (init 2 0) [.receive, .arrive ⟨[1, 2, 3], 7⟩] = some s ∧
      (machine 2 0).run s [.complete 0, .handle 0, .rearm 0] = some s' ∧
      3 ≤ 3 * s.queue.length + 2 ∧ s'.received = [⟨[1, 2], 7⟩] := by
  obtain ⟨s, s', hrun, hrun', hopen, hloop, harrived, hstuck⟩ : ∃ s s' : AsyncUdpSocketImpl ℕ,
      (machine 2 0).run (init 2 0) [.receive, .arrive ⟨[1, 2, 3], 7⟩] = some s ∧
      (machine 2 0).run s [.complete 0, .handle 0, .rearm 0] = some s' ∧ s.isOpen = true ∧
      s.loops = [.pending] ∧ s.arrived = [⟨[1, 2, 3], 7⟩] ∧ ∀ a ∈ ownSteps, s'.step a = none :=
    ⟨_, _, rfl, rfl, rfl, rfl, rfl, by decide⟩
  obtain ⟨hlength, hreceived⟩ := delivers_all (Machine.reachable_of_run hrun) hopen hloop
    (by simp) (by simp [ownSteps]) hrun'
  refine ⟨s, s', hrun, hrun', hlength, (hreceived hstuck).trans ?_⟩
  rw [harrived]
  rfl

end AsyncUdpSocketImpl

end CommonLib.AsyncUdp
