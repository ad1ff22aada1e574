import CommonLib.Verification.AsyncEventBroker.Routing

/-! # Messages too short for a frame

The receive loop hands every payload to `onReceive`, and `onReceive` hands it to `Frame::parse`,
whose assertion nobody has established. -/

namespace CommonLib.AsyncEventBroker

open AsyncTcp

variable {ι : Type*} [DecidableEq ι]

namespace Broker

/-! ## One message -/

/-- The assertion fails in the handler of a message of fewer than three bytes, and nowhere else. -/
theorem aborted_step {b b' : Broker ι} {a : Action ι} (hstep : b.step a = some b') :
    b'.aborted = true ↔ ∃ s raw, a = .receive s raw ∧ raw.length < 3 := by
  obtain ⟨hlive, hrule⟩ := step_cases hstep
  have hlive' : ¬ b.aborted = true := Bool.eq_false_iff.mp hlive
  have hlong : ∀ {s : ι} {raw : Bytes} {frame : Frame}, Frame.parse raw = some frame →
      ¬ ∃ s' raw', Action.receive s raw = .receive s' raw' ∧ raw'.length < 3 := by
    rintro s raw frame hraw ⟨s', raw', ha, hlt⟩
    cases ha
    rw [(Frame.parse_eq_none_iff raw).mpr hlt] at hraw
    cases hraw
  cases hrule with
  | abort s raw hs hraw => exact iff_of_true rfl ⟨s, raw, rfl, (Frame.parse_eq_none_iff raw).mp hraw⟩
  | regist s raw frame hs hraw htype hlock | unregist s raw frame hs hraw htype hlock
  | data s raw frame hs hraw htype | ignore s raw frame hs hraw htype =>
      exact iff_of_false hlive' (hlong hraw)
  | accept | acknowledge | forward | skip | routed | disconnect | release =>
      exact iff_of_false hlive' (by simp)

theorem step_short {b b' : Broker ι} {s : ι} {raw : Bytes} (hraw : raw.length < 3)
    (hstep : b.step (.receive s raw) = some b') : b' = { b with aborted := true } := by
  have hnone := (Frame.parse_eq_none_iff raw).mpr hraw
  obtain ⟨-, hrule⟩ := step_cases hstep
  cases hrule with
  | abort => rfl
  | regist s raw frame hs hframe | unregist s raw frame hs hframe | data s raw frame hs hframe
  | ignore s raw frame hs hframe =>
      rw [hnone] at hframe
      cases hframe

end Broker

namespace Served

variable {order : ByteOrder}

/-- No message of fewer than three bytes is completed by the action: the length in its header
was at least three, or its bytes are not all there. -/
def LongEnough (w : Served ι) (a : SocketAction ι) : Prop :=
  ∀ s size, a = .complete s → w.phase s = .payload size →
    size ≤ (w.incoming s).bytes.length → 3 ≤ size

/-- The process stands, and a session that waits for a frame gets it handled as soon as the
registry is free. -/
structure Standing (w : Served ι) : Prop where
  parsed : w.broker.aborted = false
  served : ∀ s raw, w.broker.session s = .receiving → 3 ≤ raw.length → w.broker.readers = [] →
    (w.broker.step (.receive s raw)).isSome

theorem standing_iff (w : Served ι) : w.Standing ↔ w.broker.aborted = false := by
  constructor
  · exact Standing.parsed
  · intro hlive
    refine ⟨hlive, fun s raw hs hraw hlock => ?_⟩
    obtain ⟨frame, hframe⟩ := Frame.exists_parse hraw
    simp only [Broker.step, hlive, hs, Broker.onReceive, hframe, hlock, if_true]
    split_ifs <;> simp_all

/-! ## One step -/

/-- The action hands the payload of a complete message to the handler of its session. -/
def Hands (w : Served ι) (a : SocketAction ι) (b : Broker ι) : Prop :=
  ∃ s size, a = .complete s ∧ w.phase s = .payload size ∧ size ≤ (w.incoming s).bytes.length ∧
    w.broker.step (.receive s ((w.incoming s).bytes.take size)) = some b

/-- The action completes no message, and the broker rests or moves by another action. -/
def Aside (w : Served ι) (a : SocketAction ι) (b : Broker ι) : Prop :=
  w.LongEnough a ∧ (b = w.broker ∨
    ∃ a', (∀ s raw, a' ≠ .receive s raw) ∧ w.broker.step a' = some b)

theorem onError_broker {w w' : Served ι} {s : ι} (h : w.onError s = some w') :
    w.broker.step (.disconnect s) = some w'.broker := by
  unfold onError at h
  rw [Option.map_eq_some_iff] at h
  obtain ⟨b, hb, rfl⟩ := h
  exact hb

theorem complete_cases {w w' : Served ι} {s : ι} (h : w.complete order s = some w') :
    w.Hands (.complete s) w'.broker ∨ w.Aside (.complete s) w'.broker := by
  unfold complete at h
  cases hphase : w.phase s with
  | stopped =>
      rw [hphase] at h
      cases h
  | header =>
      have hlong : w.LongEnough (.complete s) := by
        intro s' size ha hpayload _
        cases ha
        rw [hphase] at hpayload
        cases hpayload
      right
      simp only [hphase] at h
      split at h
      · cases h
      · cases h
        exact ⟨hlong, .inl rfl⟩
      · exact ⟨hlong, .inr ⟨.disconnect s, by simp, onError_broker h⟩⟩
  | payload size =>
      simp only [hphase, asyncRead] at h
      by_cases hsize : size ≤ (w.incoming s).bytes.length
      · simp only [if_pos hsize, Option.map_eq_some_iff] at h
        obtain ⟨b, hb, rfl⟩ := h
        exact .inl ⟨s, size, rfl, hphase, hsize, hb⟩
      · have hlong : w.LongEnough (.complete s) := by
          intro s' size' ha hpayload hle
          cases ha
          rw [hphase, Phase.payload.injEq] at hpayload
          exact absurd (hpayload ▸ hle) hsize
        right
        simp only [if_neg hsize] at h
        cases hended : (w.incoming s).ended with
        | none =>
            simp only [hended] at h
            cases h
        | some ec =>
            simp only [hended] at h
            exact ⟨hlong, .inr ⟨.disconnect s, by simp, onError_broker h⟩⟩

theorem step_cases {w w' : Served ι} {a : SocketAction ι} (h : w.step order a = some w') :
    w.broker.aborted = false ∧ (w.Hands a w'.broker ∨ w.Aside a w'.broker) := by
  unfold step at h
  split at h
  · cases h
  · rename_i hlive
    refine ⟨by simpa using hlive, ?_⟩
    cases a with
    | arrive s bytes | hangup s ec =>
        simp only at h
        split at h <;> cases h
        exact .inr ⟨by simp [LongEnough], .inl rfl⟩
    | complete s =>
        simp only at h
        split at h
        · exact complete_cases h
        · cases h
    | proceed a =>
        right
        refine ⟨by simp [LongEnough], .inr ⟨a, ?_⟩⟩
        cases a with
        | receive s raw | disconnect s => cases h
        | accept s | acknowledge s | forward s | release s =>
            rw [Option.map_eq_some_iff] at h
            obtain ⟨b, hb, rfl⟩ := h
            exact ⟨by simp, hb⟩

/-- What the sessions do behind their sockets is a run of the broker. -/
theorem Reachable.broker {w : Served ι} (h : (machine ι order).Reachable w) :
    (Broker.machine ι).Reachable w.broker := by
  refine h.invariant (P := fun w => (Broker.machine ι).Reachable w.broker) .init ?_
  intro w a w' hw _ hstep
  rcases (step_cases hstep).2 with ⟨s, size, -, -, -, hb⟩ | ⟨-, heq | ⟨a', -, hb⟩⟩
  · exact hw.step (a := .receive s _) trivial hb
  · rw [heq]
    exact hw
  · exact hw.step (a := a') trivial hb

theorem standing_step_iff {w w' : Served ι} {a : SocketAction ι}
    (hstep : w.step order a = some w') : w'.Standing ↔ w.LongEnough a := by
  obtain ⟨hlive, ⟨s, size, rfl, hphase, hsize, hb⟩ | ⟨hlong, hb⟩⟩ := step_cases hstep
  · have hiff : w'.broker.aborted = true ↔ size < 3 := by
      rw [Broker.aborted_step hb]
      simp [hsize]
    have hlong : w.LongEnough (.complete s) ↔ 3 ≤ size := by
      constructor
      · intro h
        exact h s size rfl hphase hsize
      · intro h s' size' ha hphase' _
        cases ha
        rw [hphase, Phase.payload.injEq] at hphase'
        exact hphase' ▸ h
    rw [standing_iff, hlong, ← Nat.not_lt, ← hiff, Bool.not_eq_true]
  · refine iff_of_true ((standing_iff w').mpr ?_) hlong
    rcases hb with heq | ⟨a', ha', hb⟩
    · rw [heq]
      exact hlive
    · rw [← Bool.not_eq_true, Broker.aborted_step hb]
      rintro ⟨s, raw, rfl, -⟩
      exact ha' s raw rfl

/-- A message too short leaves everything but the process as it was. -/
theorem registry_of_short {w w' : Served ι} {a : SocketAction ι}
    (hstep : w.step order a = some w') (hshort : ¬ w.LongEnough a) :
    w'.broker.registry = w.broker.registry := by
  obtain ⟨-, ⟨s, size, rfl, hphase, hsize, hb⟩ | ⟨hlong, -⟩⟩ := step_cases hstep
  · have hlt : size < 3 := by
      by_contra hge
      refine hshort fun s' size' ha hphase' _ => ?_
      cases ha
      rw [hphase, Phase.payload.injEq] at hphase'
      omega
    rw [Broker.step_short (by simpa [hsize] using hlt) hb]
  · exact absurd hlong hshort

/-! ## Every run -/

/-- Whatever the clients send, the broker stands throughout a run exactly if the run completes
no message of fewer than three bytes. Such a message does not touch the registry. -/
theorem standing_iff_longEnough (order : ByteOrder) (actions : List (SocketAction ι)) :
    ((machine ι order).Holds Standing init actions ↔
      (machine ι order).Meets LongEnough init actions) ∧
    ∀ w a w', (machine ι order).step w a = some w' → ¬ LongEnough w a →
      w'.broker.registry = w.broker.registry :=
  ⟨Machine.holds_iff_meets (I := fun _ => True) (fun _ _ _ _ _ => trivial)
    (fun _ _ _ _ _ hstep => standing_step_iff hstep) trivial ((standing_iff _).mpr rfl) actions,
    fun _ _ _ hstep hshort => registry_of_short hstep hshort⟩

/-- A client sends one frame of an unknown type, and the broker stands. -/
theorem standing_unknown_frame :
    (machine (Fin 2) .little).Holds Standing init
      [.proceed (.accept 0), .arrive 0 (sendBuffer .little (Frame.make 5 9 [])),
        .complete 0, .complete 0] := by
  apply (standing_iff_longEnough .little _).1.mpr
  intro w₁ h₁
  cases h₁
  refine ⟨by simp [LongEnough], ?_⟩
  intro w₂ h₂
  cases h₂
  refine ⟨by simp [LongEnough], ?_⟩
  intro w₃ h₃
  cases h₃
  refine ⟨?_, ?_⟩
  · intro s size ha hphase _
    cases ha
    cases hphase
  · intro w₄ h₄
    cases h₄
    refine ⟨?_, trivial⟩
    intro s size ha hphase _
    cases ha
    cases hphase
    decide

/-- A client that sends four zero bytes, the empty message, takes the broker down: the frame of
the other client is not handled any more. -/
theorem empty_message_aborts :
    ∃ w : Served (Fin 2), (machine (Fin 2) .little).run init
        [.proceed (.accept 0), .proceed (.accept 1),
          .arrive 0 (sendBuffer .little []), .complete 0, .complete 0] = some w ∧
      w.broker.aborted = true ∧ ¬ w.Standing ∧ w.broker.session 1 = .receiving ∧
      ∀ a, w.step .little a = none := by
  refine ⟨_, rfl, rfl, ?_, rfl, fun a => rfl⟩
  rw [standing_iff]
  decide

end Served

end CommonLib.AsyncEventBroker
