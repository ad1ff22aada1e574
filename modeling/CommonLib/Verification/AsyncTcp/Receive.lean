import CommonLib.Model.AsyncTcp

/-! # Computation rules of the receive loop -/

namespace CommonLib.AsyncTcp

open Receiver

@[simp] theorem length_sendBuffer (order : ByteOrder) (data : Bytes) :
    (sendBuffer order data).length = 4 + data.length := by
  simp [sendBuffer]

@[simp] theorem sendAll_nil (order : ByteOrder) : sendAll order [] = [] := rfl

@[simp] theorem sendAll_cons (order : ByteOrder) (m : Bytes) (messages : List Bytes) :
    sendAll order (m :: messages) = sendBuffer order m ++ sendAll order messages := rfl

theorem sendAll_append (order : ByteOrder) (first second : List Bytes) :
    sendAll order (first ++ second) = sendAll order first ++ sendAll order second := by
  simp [sendAll]

/-! ## Single reads -/

theorem asyncRead_append {size : ℕ} {data rest : Bytes} {ended : Option ReadError}
    (h : data.length = size) :
    asyncRead size ⟨data ++ rest, ended⟩ = .ok data ⟨rest, ended⟩ := by
  subst h
  simp [asyncRead]

theorem asyncRead_pending {size : ℕ} {data : Bytes} (h : data.length < size) :
    asyncRead size ⟨data, none⟩ = .pending := by
  simp [asyncRead, Nat.not_le.mpr h]

theorem asyncRead_error {size : ℕ} {data : Bytes} {ec : ReadError} (h : data.length < size) :
    asyncRead size ⟨data, some ec⟩ = .error ec := by
  simp [asyncRead, Nat.not_le.mpr h]

variable {σ : Type*} (order : ByteOrder) (h : Handlers σ)

/-! ## Draining the stream -/

/-- Every completion uses up bytes or moves the loop on to a cheaper stage. -/
theorem work_complete_lt {r r' : Receiver σ} (hr : r.complete order h = some r') :
    r'.work < r.work := by
  unfold complete at hr
  cases hphase : r.phase with
  | stopped => simp [hphase] at hr
  | header =>
      simp only [hphase, asyncRead] at hr
      split at hr
      · rename_i hlen
        cases hr
        simp only [work, hphase, List.length_drop]
        omega
      · split at hr
        · cases hr
        · simp only [onHeader] at hr
          split at hr <;> cases hr <;> simp [work, hphase]
  | payload size =>
      simp only [hphase, asyncRead] at hr
      split at hr
      · rename_i hlen
        simp only [onPayload] at hr
        split at hr <;> cases hr <;> simp only [work, hphase, List.length_drop] <;> omega
      · split at hr
        · cases hr
        · cases hr
          simp [work, hphase]

theorem drain_of_complete {r r' : Receiver σ} (hr : r.complete order h = some r') :
    r.drain order h = r'.drain order h :=
  exhaust_step (fun _ _ => work_complete_lt order h) hr

theorem drain_of_stuck {r : Receiver σ} (hr : r.complete order h = none) :
    r.drain order h = r :=
  exhaust_of_stuck hr _

/-- A drained loop waits for bytes that have not arrived, or has stopped. -/
theorem complete_drain (r : Receiver σ) : (r.drain order h).complete order h = none :=
  next_exhaust (fun _ _ => work_complete_lt order h) le_rfl

theorem complete_of_stopped {r : Receiver σ} (hr : r.phase = .stopped) :
    r.complete order h = none := by
  simp [complete, hr]

/-- A stopped loop stays as it is, whatever else arrives on the socket. -/
theorem drain_of_stopped {r : Receiver σ} (hr : r.phase = .stopped) (incoming : Incoming) :
    ({ r with incoming := incoming } : Receiver σ).drain order h =
      { r with incoming := incoming } :=
  drain_of_stuck order h (complete_of_stopped order h hr)

/-! ## Whole messages -/

theorem ofBytes_header {m : Bytes} (hm : m.length < 2 ^ 32) :
    order.ofBytes (order.toBytes 4 (m.length % 2 ^ 32)) = m.length := by
  rw [ByteOrder.ofBytes_toBytes, Nat.mod_eq_of_lt hm, Nat.mod_eq_of_lt (by simpa using hm)]

/-- The header of a message sets up the read of exactly its payload. -/
theorem drain_header {m rest : Bytes} {ended : Option ReadError} {connected : Bool} {user : σ}
    (hm : m.length < 2 ^ 32) :
    (⟨⟨sendBuffer order m ++ rest, ended⟩, connected, .header, user⟩ : Receiver σ).drain order h =
      (⟨⟨m ++ rest, ended⟩, connected, .payload m.length, user⟩ : Receiver σ).drain order h := by
  apply drain_of_complete
  have hread : asyncRead 4 ⟨sendBuffer order m ++ rest, ended⟩ =
      .ok (order.toBytes 4 (m.length % 2 ^ 32)) ⟨m ++ rest, ended⟩ := by
    rw [sendBuffer, List.append_assoc]
    exact asyncRead_append (by simp)
  simp only [complete, hread, onHeader, ofBytes_header order hm]

/-- A handler that returns on a message re-arms the loop behind it. -/
theorem drain_message {m rest : Bytes} {ended : Option ReadError} {user : σ}
    (hm : m.length < 2 ^ 32) (hexit : (h.onReceive user m).exit = .returned) :
    (armed ⟨sendBuffer order m ++ rest, ended⟩ user).drain order h =
      (armed ⟨rest, ended⟩ (h.onReceive user m).user).drain order h := by
  rw [armed, drain_header order h hm]
  apply drain_of_complete
  simp [complete, onPayload, asyncRead_append rfl, hexit, armed]

/-- A handler that does not return on a message leaves the loop stopped behind it. -/
theorem drain_message_stopped {m rest : Bytes} {ended : Option ReadError} {user : σ}
    (hm : m.length < 2 ^ 32) (hexit : (h.onReceive user m).exit ≠ .returned) :
    (armed ⟨sendBuffer order m ++ rest, ended⟩ user).drain order h =
      ⟨⟨rest, ended⟩, true, .stopped, (h.onReceive user m).user⟩ := by
  rw [armed, drain_header order h hm]
  have hstep : (⟨⟨m ++ rest, ended⟩, true, .payload m.length, user⟩ : Receiver σ).complete order h =
      some ⟨⟨rest, ended⟩, true, .stopped, (h.onReceive user m).user⟩ := by
    cases hcall : (h.onReceive user m).exit with
    | returned => exact absurd hcall hexit
    | threw => simp [complete, onPayload, asyncRead_append rfl, hcall]
    | aborted => simp [complete, onPayload, asyncRead_append rfl, hcall]
  rw [drain_of_complete order h hstep]
  exact drain_of_stopped order h (r := ⟨⟨rest, ended⟩, true, .stopped, _⟩) rfl _

/-- What successive calls of `onReceive` make of the captured state, up to the first call that
does not return. -/
def Handlers.deliver : σ → List Bytes → Outcome σ
  | user, [] => ⟨user, .returned⟩
  | user, m :: messages =>
      if (h.onReceive user m).exit = .returned then
        Handlers.deliver (h.onReceive user m).user messages
      else h.onReceive user m

/-- The loop hands the messages of a stream to `onReceive` one after the other. -/
theorem drain_sendAll (rest : Bytes) (ended : Option ReadError) {messages : List Bytes}
    {user : σ} (hm : ∀ m ∈ messages, m.length < 2 ^ 32)
    (hexit : (h.deliver user messages).exit = .returned) :
    (armed ⟨sendAll order messages ++ rest, ended⟩ user).drain order h =
      (armed ⟨rest, ended⟩ (h.deliver user messages).user).drain order h := by
  induction messages generalizing user with
  | nil => rfl
  | cons m messages ih =>
      have hrest : ∀ m ∈ messages, m.length < 2 ^ 32 := fun m hmem => hm m (by simp [hmem])
      by_cases hcall : (h.onReceive user m).exit = .returned
      · rw [Handlers.deliver, if_pos hcall] at hexit ⊢
        rw [sendAll_cons, List.append_assoc, drain_message order h (hm m (by simp)) hcall,
          ih hrest hexit]
      · rw [Handlers.deliver, if_neg hcall] at hexit
        exact absurd hexit hcall

/-- Once a call does not return, the loop has stopped and no later message is looked at. -/
theorem drain_sendAll_stopped (rest : Bytes) (ended : Option ReadError) {messages : List Bytes}
    {user : σ} (hm : ∀ m ∈ messages, m.length < 2 ^ 32)
    (hexit : (h.deliver user messages).exit ≠ .returned) :
    ((armed ⟨sendAll order messages ++ rest, ended⟩ user).drain order h).phase = .stopped ∧
      ((armed ⟨sendAll order messages ++ rest, ended⟩ user).drain order h).user =
        (h.deliver user messages).user := by
  induction messages generalizing user with
  | nil => exact absurd rfl hexit
  | cons m messages ih =>
      have hrest : ∀ m ∈ messages, m.length < 2 ^ 32 := fun m hmem => hm m (by simp [hmem])
      by_cases hcall : (h.onReceive user m).exit = .returned
      · rw [Handlers.deliver, if_pos hcall] at hexit ⊢
        rw [sendAll_cons, List.append_assoc, drain_message order h (hm m (by simp)) hcall]
        exact ih hrest hexit
      · rw [Handlers.deliver, if_neg hcall, sendAll_cons, List.append_assoc,
          drain_message_stopped order h (hm m (by simp)) hcall]
        exact ⟨rfl, rfl⟩

/-! ## A stream that is cut inside a message -/

/-- Too few bytes for the pending read leave an open stream waiting in the same stage. -/
theorem drain_open {data : Bytes} {connected : Bool} {user : σ} {phase : Phase} {size : ℕ}
    (hphase : phase = .header ∧ size = 4 ∨ phase = .payload size) (hlen : data.length < size) :
    (⟨⟨data, none⟩, connected, phase, user⟩ : Receiver σ).drain order h =
      ⟨⟨data, none⟩, connected, phase, user⟩ := by
  apply drain_of_stuck
  rcases hphase with ⟨rfl, rfl⟩ | rfl <;>
    simp [complete, asyncRead_pending hlen, onHeader, onPayload]

/-- Too few bytes for the pending read of an ended stream: one call of `onError`, then the loop
is over. -/
theorem drain_ended (ec : ReadError) (connected : Bool) (user : σ) {data : Bytes} {phase : Phase}
    {size : ℕ} (hphase : phase = .header ∧ size = 4 ∨ phase = .payload size)
    (hlen : data.length < size) :
    ∃ connected' cec, (⟨⟨data, some ec⟩, connected, phase, user⟩ : Receiver σ).drain order h =
      ⟨⟨data, some ec⟩, connected', .stopped, h.fail user cec⟩ := by
  obtain ⟨connected', cec, hstep⟩ : ∃ connected' cec,
      (⟨⟨data, some ec⟩, connected, phase, user⟩ : Receiver σ).complete order h =
        some ⟨⟨data, some ec⟩, connected', .stopped, h.fail user cec⟩ := by
    rcases hphase with ⟨rfl, rfl⟩ | rfl
    · cases hloss : ec.isLoss with
      | false => exact ⟨connected, .receiveFailure, by
          simp [complete, asyncRead_error hlen, onHeader, hloss]⟩
      | true => exact ⟨false, .connectionLost, by
          simp [complete, asyncRead_error hlen, onHeader, hloss]⟩
    · exact ⟨connected, .receiveFailure, by simp [complete, asyncRead_error hlen, onPayload]⟩
  refine ⟨connected', cec, ?_⟩
  rw [drain_of_complete order h hstep]
  exact drain_of_stuck order h (complete_of_stopped order h rfl)

/-- A stream cut inside a message is left with a read that the remaining bytes cannot fill. -/
theorem drain_cut {m : Bytes} {k : ℕ} (hm : m.length < 2 ^ 32) (hk : k < 4 + m.length)
    (ended : Option ReadError) (user : σ) :
    ∃ data phase size, (phase = .header ∧ size = 4 ∨ phase = .payload size) ∧ data.length < size ∧
      (armed ⟨(sendBuffer order m).take k, ended⟩ user).drain order h =
        (⟨⟨data, ended⟩, true, phase, user⟩ : Receiver σ).drain order h := by
  by_cases hheader : k < 4
  · refine ⟨(sendBuffer order m).take k, .header, 4, .inl ⟨rfl, rfl⟩, ?_, rfl⟩
    simp only [List.length_take, length_sendBuffer]
    omega
  · refine ⟨m.take (k - 4), .payload m.length, m.length, .inr rfl, ?_, ?_⟩
    · simp only [List.length_take]
      omega
    · have hsplit : (sendBuffer order m).take k =
          order.toBytes 4 (m.length % 2 ^ 32) ++ m.take (k - 4) := by
        rw [sendBuffer, List.take_append, List.take_of_length_le (by simp; omega)]
        simp
      apply drain_of_complete
      rw [hsplit]
      simp only [armed, complete, asyncRead_append (order.length_toBytes 4 _), onHeader,
        ofBytes_header order hm]

end CommonLib.AsyncTcp
