import CommonLib.Verification.AsyncTcp.Receive

/-! # Round trip of the length-prefix framing over a truncated stream -/

namespace CommonLib.AsyncTcp

open Receiver

/-- What the two handlers of a `receive` call have been called with, oldest first. -/
structure Calls where
  received : List Bytes
  errors : List ErrorCode
  deriving DecidableEq, Repr

/-- Handlers that write down their calls and return. -/
def recorder : Handlers Calls where
  onReceive calls m := ⟨{ calls with received := calls.received ++ [m] }, .returned⟩
  onError := some fun calls cec => { calls with errors := calls.errors ++ [cec] }

theorem deliver_recorder (calls : Calls) (messages : List Bytes) :
    recorder.deliver calls messages =
      ⟨{ calls with received := calls.received ++ messages }, .returned⟩ := by
  induction messages generalizing calls with
  | nil => simp [Handlers.deliver]
  | cons m messages ih =>
      have hcall : recorder.onReceive calls m =
          ⟨{ calls with received := calls.received ++ [m] }, .returned⟩ := rfl
      rw [Handlers.deliver, hcall, if_pos rfl, ih]
      simp

/-- A recording loop gets past all messages of a stream. -/
theorem drain_recorder (order : ByteOrder) {messages : List Bytes} {rest : Bytes}
    {ended : Option ReadError} {calls : Calls} (hm : ∀ m ∈ messages, m.length < 2 ^ 32) :
    (armed ⟨sendAll order messages ++ rest, ended⟩ calls).drain order recorder =
      (armed ⟨rest, ended⟩ { calls with received := calls.received ++ messages }).drain order
        recorder := by
  rw [drain_sendAll order recorder rest ended hm (by rw [deliver_recorder]), deliver_recorder]

/-- The recorded calls and the loop after a whole stream, of which nothing was read before. -/
def receiveAll (order : ByteOrder) (stream : Bytes) (ended : Option ReadError) : Receiver Calls :=
  (armed ⟨stream, ended⟩ ⟨[], []⟩).drain order recorder

/-- `n` counts the messages whose last byte is among the first `k` bytes of the stream. -/
def WholeMessages (order : ByteOrder) (messages : List Bytes) (k n : ℕ) : Prop :=
  ∀ i, i < n ↔ i < messages.length ∧ (sendAll order (messages.take (i + 1))).length ≤ k

theorem wholeMessages_cons_of_le {order : ByteOrder} {m : Bytes} {messages : List Bytes} {k n : ℕ}
    (hk : (sendBuffer order m).length ≤ k)
    (h : WholeMessages order messages (k - (sendBuffer order m).length) n) :
    WholeMessages order (m :: messages) k (n + 1) := by
  intro i
  cases i with
  | zero => simpa using hk
  | succ i =>
      have hi := h i
      simp only [List.take_succ_cons, sendAll_cons, List.length_append, List.length_cons]
      omega

theorem wholeMessages_cons_of_gt {order : ByteOrder} {m : Bytes} {messages : List Bytes} {k : ℕ}
    (hk : k < (sendBuffer order m).length) : WholeMessages order (m :: messages) k 0 := by
  intro i
  simp only [List.take_succ_cons, sendAll_cons, List.length_append]
  omega

/-- A truncated stream is the frames of its whole messages followed by a proper prefix of one
more frame. A cut on a boundary is the case of an empty prefix. -/
theorem take_sendAll (order : ByteOrder) {messages : List Bytes}
    (hsize : ∀ m ∈ messages, m.length < 2 ^ 32) (k : ℕ) :
    ∃ n m j, WholeMessages order messages k n ∧ m.length < 2 ^ 32 ∧ j < 4 + m.length ∧
      (sendAll order messages).take k =
        sendAll order (messages.take n) ++ (sendBuffer order m).take j := by
  induction messages generalizing k with
  | nil =>
      refine ⟨0, [], 0, ?_, by simp, by simp, by simp⟩
      intro i
      simp
  | cons m messages ih =>
      by_cases hk : (sendBuffer order m).length ≤ k
      · obtain ⟨n, m', j, hwhole, hm', hj, htake⟩ :=
          ih (fun x hx => hsize x (by simp [hx])) (k - (sendBuffer order m).length)
        refine ⟨n + 1, m', j, wholeMessages_cons_of_le hk hwhole, hm', hj, ?_⟩
        rw [sendAll_cons, List.take_append, List.take_of_length_le hk, htake, List.take_succ_cons,
          sendAll_cons, List.append_assoc]
      · have hlt : k < (sendBuffer order m).length := Nat.lt_of_not_le hk
        refine ⟨0, m, k, wholeMessages_cons_of_gt hlt, hsize m (by simp), by simpa using hlt, ?_⟩
        rw [sendAll_cons, List.take_append_of_le_length hlt.le]
        simp

/-- The receiving end of a stream of sent messages, truncated after `k` bytes: an open stream
delivers exactly the whole messages and leaves the loop armed; an ended stream delivers the same
messages, then one error, and no read of that socket ever calls `onReceive` again. -/
theorem receive_sendAll (order : ByteOrder) (messages : List Bytes)
    (hsize : ∀ m ∈ messages, m.length < 2 ^ 32) (k : ℕ) :
    ∃ n, WholeMessages order messages k n ∧
      (receiveAll order ((sendAll order messages).take k) none).user = ⟨messages.take n, []⟩ ∧
      (receiveAll order ((sendAll order messages).take k) none).phase ≠ .stopped ∧
      ∀ ec, ∃ cec r, receiveAll order ((sendAll order messages).take k) (some ec) = r ∧
        r.user = ⟨messages.take n, [cec]⟩ ∧ r.phase = .stopped ∧
        ∀ incoming, (({ r with incoming := incoming } : Receiver Calls).drain order recorder).user
          = r.user := by
  obtain ⟨n, m, j, hwhole, hm, hj, htake⟩ := take_sendAll order hsize k
  have hprefix : ∀ x ∈ messages.take n, x.length < 2 ^ 32 :=
    fun x hx => hsize x (List.mem_of_mem_take hx)
  have hdrain : ∀ ended, ∃ data phase size,
      (phase = .header ∧ size = 4 ∨ phase = .payload size) ∧ data.length < size ∧
      receiveAll order ((sendAll order messages).take k) ended =
        (⟨⟨data, ended⟩, true, phase, ⟨messages.take n, []⟩⟩ : Receiver Calls).drain order
          recorder := by
    intro ended
    obtain ⟨data, phase, size, hphase, hlen, hcut⟩ :=
      drain_cut order recorder hm hj ended ⟨messages.take n, []⟩
    refine ⟨data, phase, size, hphase, hlen, ?_⟩
    rw [receiveAll, htake, drain_recorder order hprefix, ← hcut]
    simp
  obtain ⟨data, phase, size, hphase, hlen, hopen⟩ := hdrain none
  rw [drain_open order recorder hphase hlen] at hopen
  refine ⟨n, hwhole, by rw [hopen], ?_, ?_⟩
  · rw [hopen]
    rcases hphase with ⟨rfl, -⟩ | rfl <;> simp
  · intro ec
    obtain ⟨data, phase, size, hphase, hlen, heq⟩ := hdrain (some ec)
    obtain ⟨connected', cec, hend⟩ :=
      drain_ended order recorder ec true ⟨messages.take n, []⟩ hphase hlen
    rw [hend] at heq
    refine ⟨cec, _, heq, rfl, rfl, ?_⟩
    intro incoming
    rw [drain_of_stuck order recorder (complete_of_stopped order recorder rfl)]

/-- Three messages, one of them empty, cut in the middle of the last payload. -/
theorem receive_sendAll_cut_in_payload :
    ∃ n, WholeMessages .little [[1, 2], [], [3, 4, 5]] 16 n ∧
      (receiveAll .little ((sendAll .little [[1, 2], [], [3, 4, 5]]).take 16) none).user =
        ⟨[[1, 2], [], [3, 4, 5]].take n, []⟩ ∧
      (receiveAll .little ((sendAll .little [[1, 2], [], [3, 4, 5]]).take 16) none).phase ≠
        .stopped ∧
      ∀ ec, ∃ cec r,
        receiveAll .little ((sendAll .little [[1, 2], [], [3, 4, 5]]).take 16) (some ec) = r ∧
        r.user = ⟨[[1, 2], [], [3, 4, 5]].take n, [cec]⟩ ∧ r.phase = .stopped ∧
        ∀ incoming, (({ r with incoming := incoming } : Receiver Calls).drain .little
          recorder).user = r.user :=
  receive_sendAll .little [[1, 2], [], [3, 4, 5]] (by decide) 16

end CommonLib.AsyncTcp
