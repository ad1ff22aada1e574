import CommonLib.Verification.AsyncTcp.RoundTrip

/-! # The end of a connection

The handler of a header takes the end of the stream as the loss of the connection; the handler of a
payload takes it as any other error, and does not disconnect. -/

namespace CommonLib.AsyncTcp

open Receiver

variable {σ : Type*}

/-- The same handlers, with the calls of `onError` written down. -/
def Handlers.logged (h : Handlers σ) : Handlers (σ × List ErrorCode) where
  onReceive s m := ⟨((h.onReceive s.1 m).user, s.2), (h.onReceive s.1 m).exit⟩
  onError := some fun s cec => (h.fail s.1 cec, s.2 ++ [cec])

/-- The loop over a stream that the peer ends behind the given bytes: it disconnects, and calls
`onError` once, with the code of a lost connection. -/
def Recognised (order : ByteOrder) (h : Handlers σ) (user : σ) (bytes : Bytes) (ec : ReadError) :
    Prop :=
  let r := (armed ⟨bytes, some ec⟩ (user, [])).drain order h.logged
  r.connected = false ∧ r.user.2 = [.connectionLost]

/-- The bytes end between two messages or inside of a header, behind messages from whose handling
`onReceive` returns. -/
def EndsOutsidePayload (order : ByteOrder) (h : Handlers σ) (user : σ) (bytes : Bytes) : Prop :=
  ∃ messages rest, (∀ m ∈ messages, m.length < 2 ^ 32) ∧ bytes = sendAll order messages ++ rest ∧
    (h.deliver user messages).exit = .returned ∧ rest.length < 4

theorem deliver_logged (h : Handlers σ) (user : σ) (log : List ErrorCode) (messages : List Bytes) :
    h.logged.deliver (user, log) messages =
      ⟨((h.deliver user messages).user, log), (h.deliver user messages).exit⟩ := by
  induction messages generalizing user with
  | nil => rfl
  | cons m messages ih =>
      have hcall : h.logged.onReceive (user, log) m =
          ⟨((h.onReceive user m).user, log), (h.onReceive user m).exit⟩ := rfl
      rw [Handlers.deliver, Handlers.deliver, hcall]
      split
      · exact ih _
      · rfl

/-! ## The messages in a stream of bytes -/

/-- A header, and less than it announces. -/
def PartialPayload (order : ByteOrder) (rest : Bytes) : Prop :=
  ∃ header payload, rest = header ++ payload ∧ header.length = 4 ∧
    payload.length < order.ofBytes header

theorem sendBuffer_of_header {order : ByteOrder} {header m : Bytes} (hheader : header.length = 4)
    (hm : m.length = order.ofBytes header) :
    m.length < 2 ^ 32 ∧ sendBuffer order m = header ++ m := by
  have hlt := order.ofBytes_lt header
  have hback := order.toBytes_ofBytes header
  rw [hheader] at hlt hback
  have hsize : m.length < 2 ^ 32 := by
    rw [hm]
    exact hlt
  refine ⟨hsize, ?_⟩
  rw [sendBuffer, Nat.mod_eq_of_lt hsize, hm, hback]

/-- Any bytes are whole messages, and less than one more. -/
theorem exists_messages (order : ByteOrder) (bytes : Bytes) :
    ∃ messages rest, (∀ m ∈ messages, m.length < 2 ^ 32) ∧ bytes = sendAll order messages ++ rest ∧
      (rest.length < 4 ∨ PartialPayload order rest) := by
  induction hn : bytes.length using Nat.strong_induction_on generalizing bytes with
  | _ n ih =>
      by_cases hshort : bytes.length < 4
      · exact ⟨[], bytes, by simp, rfl, .inl hshort⟩
      · obtain ⟨header, behind, rfl, hheader⟩ : ∃ header behind, bytes = header ++ behind ∧
            header.length = 4 := by
          refine ⟨bytes.take 4, bytes.drop 4, (List.take_append_drop 4 bytes).symm, ?_⟩
          rw [List.length_take]
          omega
        by_cases hpart : behind.length < order.ofBytes header
        · exact ⟨[], header ++ behind, by simp, rfl, .inr ⟨header, behind, rfl, hheader, hpart⟩⟩
        · obtain ⟨m, left, rfl, hm⟩ : ∃ m left, behind = m ++ left ∧
              m.length = order.ofBytes header := by
            refine ⟨behind.take (order.ofBytes header), behind.drop (order.ofBytes header),
              (List.take_append_drop _ behind).symm, ?_⟩
            rw [List.length_take]
            omega
          obtain ⟨hsize, hframe⟩ := sendBuffer_of_header hheader hm
          have hless : left.length < n := by
            rw [← hn]
            simp only [List.length_append]
            omega
          obtain ⟨messages, rest, hmessages, heq, hrest⟩ := ih left.length hless left rfl
          refine ⟨m :: messages, rest, ?_, ?_, hrest⟩
          · intro x hx
            cases hx with
            | head => exact hsize
            | tail _ hx => exact hmessages x hx
          · rw [sendAll_cons, hframe, heq]
            simp only [List.append_assoc]

/-! ## The last read -/

section LastRead

variable (order : ByteOrder) (h : Handlers σ) {rest : Bytes} {ec : ReadError} {user : σ}

/-- Between messages and inside of a header. -/
theorem drain_rest_header (hrest : rest.length < 4) (hloss : ec.isLoss = true) :
    (armed ⟨rest, some ec⟩ user).drain order h =
      ⟨⟨rest, some ec⟩, false, .stopped, h.fail user .connectionLost⟩ := by
  have hstep : (armed ⟨rest, some ec⟩ user).complete order h =
      some ⟨⟨rest, some ec⟩, false, .stopped, h.fail user .connectionLost⟩ := by
    simp [armed, complete, asyncRead_error hrest, onHeader, hloss]
  rw [drain_of_complete order h hstep]
  exact drain_of_stuck order h (complete_of_stopped order h rfl)

/-- Inside of a payload. -/
theorem drain_rest_payload (hrest : PartialPayload order rest) :
    (armed ⟨rest, some ec⟩ user).drain order h =
      ⟨⟨rest.drop 4, some ec⟩, true, .stopped, h.fail user .receiveFailure⟩ := by
  obtain ⟨header, payload, rfl, hheader, hpart⟩ := hrest
  have hfirst : (armed ⟨header ++ payload, some ec⟩ user).complete order h =
      some ⟨⟨payload, some ec⟩, true, .payload (order.ofBytes header), user⟩ := by
    simp [armed, complete, asyncRead_append hheader, onHeader]
  have hsecond : (⟨⟨payload, some ec⟩, true, .payload (order.ofBytes header), user⟩ :
      Receiver σ).complete order h =
        some ⟨⟨payload, some ec⟩, true, .stopped, h.fail user .receiveFailure⟩ := by
    simp [complete, asyncRead_error hpart, onPayload]
  rw [drain_of_complete order h hfirst, drain_of_complete order h hsecond,
    drain_of_stuck order h (complete_of_stopped order h rfl), ← hheader, List.drop_left]

end LastRead

/-! ## The whole stream -/

/-- The loss of the connection is recognised exactly if it does not strike inside of a payload, and
no call of `onReceive` has ended the loop before. -/
theorem recognised_iff (order : ByteOrder) (h : Handlers σ) (user : σ) (bytes : Bytes)
    {ec : ReadError} (hloss : ec = .eof ∨ ec = .connectionReset) :
    Recognised order h user bytes ec ↔ EndsOutsidePayload order h user bytes := by
  have hisLoss : ec.isLoss = true := by
    rcases hloss with rfl | rfl <;> rfl
  unfold Recognised EndsOutsidePayload
  constructor
  · rintro ⟨-, herrors⟩
    obtain ⟨messages, rest, hsize, rfl, hrest⟩ := exists_messages order bytes
    refine ⟨messages, rest, hsize, rfl, ?_⟩
    have hexit : (h.deliver user messages).exit = .returned := by
      by_contra hstopped
      have hlogged : (h.logged.deliver (user, []) messages).exit ≠ .returned := by
        rwa [deliver_logged]
      have hdrain := drain_sendAll_stopped order h.logged rest (some ec) hsize hlogged
      rw [hdrain.2, deliver_logged] at herrors
      cases herrors
    refine ⟨hexit, hrest.resolve_right fun hpart => ?_⟩
    rw [drain_sendAll order h.logged rest (some ec) hsize (by rwa [deliver_logged]), deliver_logged,
      drain_rest_payload order h.logged hpart] at herrors
    cases herrors
  · rintro ⟨messages, rest, hsize, rfl, hexit, hrest⟩
    rw [drain_sendAll order h.logged rest (some ec) hsize (by rwa [deliver_logged]), deliver_logged,
      drain_rest_header order h.logged hrest hisLoss]
    exact ⟨rfl, rfl⟩

/-- The end of the stream inside of the second header. -/
theorem recognised_in_header :
    Recognised .little recorder ⟨[], []⟩ [2, 0, 0, 0, 8, 9, 1, 0] .eof :=
  (recognised_iff .little recorder ⟨[], []⟩ [2, 0, 0, 0, 8, 9, 1, 0] (.inl rfl)).mpr
    ⟨[[8, 9]], [1, 0], by simp, by decide, by decide, by decide⟩

/-- The peer resets the connection behind the first of five bytes of a payload: the socket stays
connected, and the error is a failed receive. -/
theorem payload_cut_unrecognised :
    ¬ Recognised .little recorder ⟨[], []⟩ [5, 0, 0, 0, 7] .connectionReset ∧
      ((armed ⟨[5, 0, 0, 0, 7], some .connectionReset⟩ ⟨[], []⟩).drain .little
        recorder).connected = true := by
  constructor
  · intro h
    exact absurd h.2 (by decide)
  · decide

end CommonLib.AsyncTcp
