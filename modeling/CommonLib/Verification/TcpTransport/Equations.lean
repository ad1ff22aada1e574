import CommonLib.Model.TcpTransport

/-! Computation rules of the transport, and its steps as local rules. -/

namespace CommonLib.TcpTransport

open AsyncTcp AsyncEventTransport

variable {η : Type*}

/-! ## Sockets -/

namespace Socket

@[simp] theorem release_stage (k : Socket η) : k.release.stage = k.stage := by
  unfold release
  split <;> rfl

@[simp] theorem release_receiving (k : Socket η) : k.release.receiving = k.receiving := by
  unfold release
  split <;> rfl

theorem release_of_silent {k : Socket η} (h : k.receiving = []) : k.release = k.disconnect := by
  simp [release, h]

@[simp] theorem hangup_stage (k : Socket η) (loop : ℕ) (header : Bool) (ec : ReadError) :
    (k.hangup loop header ec).stage = k.stage := by
  simp only [hangup]
  split <;> rfl

@[simp] theorem hangup_receiving (k : Socket η) (loop : ℕ) (header : Bool) (ec : ReadError) :
    (k.hangup loop header ec).receiving = k.receiving.eraseIdx loop := rfl

/-- A socket that is open behind the end of a loop was open before. -/
theorem isOpen_of_hangup {k : Socket η} {loop : ℕ} {header : Bool} {ec : ReadError}
    (h : (k.hangup loop header ec).isOpen = true) : k.isOpen = true := by
  simp only [hangup] at h
  split at h
  · cases h
  · exact h

theorem isOpen_of_release {k : Socket η} (h : k.release.isOpen = true) : k.isOpen = true := by
  unfold release at h
  split at h
  · cases h
  · exact h

end Socket

namespace Transport

/-- The sockets after one of them has changed. -/
theorem getElem?_setSocket {s : Transport η} {i j : ℕ} {f : Socket η → Socket η} {k : Socket η}
    (h : (s.setSocket i f).sockets[j]? = some k) :
    (j = i ∧ ∃ k', s.sockets[i]? = some k' ∧ k = f k') ∨ (j ≠ i ∧ s.sockets[j]? = some k) := by
  change (s.sockets.modify i f)[j]? = some k at h
  rw [List.getElem?_modify] at h
  by_cases hij : i = j
  · subst hij
    simp only [if_true, Option.map_eq_map, Option.map_eq_some_iff] at h
    obtain ⟨k', hk', rfl⟩ := h
    exact .inl ⟨rfl, k', hk', rfl⟩
  · simp only [hij, if_false, Option.map_eq_map, Option.map_id'] at h
    exact .inr ⟨Ne.symm hij, h⟩

theorem getElem?_setSocket_self {s : Transport η} {i : ℕ} {f : Socket η → Socket η} {k : Socket η}
    (h : s.sockets[i]? = some k) : (s.setSocket i f).sockets[i]? = some (f k) := by
  change (s.sockets.modify i f)[i]? = some (f k)
  simp [h]

theorem getElem?_setSocket_ne {s : Transport η} {i j : ℕ} {f : Socket η → Socket η}
    (h : j ≠ i) : (s.setSocket i f).sockets[j]? = s.sockets[j]? := by
  change (s.sockets.modify i f)[j]? = s.sockets[j]?
  simp [Ne.symm h]

theorem setSocket_setSocket (s : Transport η) (i : ℕ) (f g : Socket η → Socket η) :
    (s.setSocket i f).setSocket i g = s.setSocket i fun k => g (f k) := by
  simp only [setSocket, List.modify_modify_eq]
  rfl

/-- The sockets after another one was created. -/
theorem getElem?_create {sockets : List (Socket η)} {i : ℕ} {k : Socket η}
    (h : (sockets ++ [Socket.create])[i]? = some k) :
    i = sockets.length ∧ k = .create ∨ i < sockets.length ∧ sockets[i]? = some k := by
  rcases Nat.lt_or_ge i sockets.length with hlt | hge
  · rw [List.getElem?_append_left hlt] at h
    exact .inr ⟨hlt, h⟩
  · rw [List.getElem?_append_right hge, List.getElem?_singleton] at h
    split at h <;> cases h
    exact .inl ⟨by omega, rfl⟩

/-! ## The rules -/

/-- The rules by which the calling thread, the strand and the handlers move, one for each branch
of the code. -/
inductive Step (topic : UInt16) (s : Transport η) : Action η → Transport η → Prop
  | open (guarded handler) (hc : s.caller = .idle) :
      Step topic s (.open guarded handler)
        ({ s with calls := s.calls ++ [Call.open handler] }.setCaller
          (if guarded then .guarding handler else .testing handler))
  | publish (payload) (hc : s.caller = .idle) :
      Step topic s (.publish payload) { s with tasks := s.tasks ++ [Task.publish payload] }
  | disconnect (hc : s.caller = .idle) :
      Step topic s .disconnect { s with
        tasks := s.tasks ++ [Task.disconnect], calls := s.calls ++ [Call.close] }
  | refuse (handler) (hc : s.caller = .guarding handler) (hconnected : s.connected = true) :
      Step topic s .caller (s.setCaller .idle)
  | pass (handler) (hc : s.caller = .guarding handler) (hconnected : s.connected = false) :
      Step topic s .caller (s.setCaller (.testing handler))
  | reject (handler i) (hc : s.caller = .testing handler) (hsocket : s.socket = some i) :
      Step topic s .caller (s.setCaller .idle)
  | vacant (handler) (hc : s.caller = .testing handler) (hsocket : s.socket = none) :
      Step topic s .caller (s.setCaller (.creating handler))
  | create (handler) (hc : s.caller = .creating handler) :
      Step topic s .caller (s.create.setCaller (.dialing handler))
  | dialNull (handler) (hc : s.caller = .dialing handler) (hsocket : s.socket = none) :
      Step topic s .caller (s.crash .caller)
  | dial (handler i) (hc : s.caller = .dialing handler) (hsocket : s.socket = some i) :
      Step topic s .caller (s.setCaller (.starting i handler))
  | gone (i handler k) (hc : s.caller = .starting i handler) (hk : s.sockets[i]? = some k)
      (hsocket : s.socket ≠ some i) (hsilent : k.receiving = []) :
      Step topic s .caller (s.crash .caller)
  | already (i handler k) (hc : s.caller = .starting i handler) (hk : s.sockets[i]? = some k)
      (hconnected : k.connected = true) : Step topic s .caller (s.setCaller .idle)
  | start (i handler k) (hc : s.caller = .starting i handler) (hk : s.sockets[i]? = some k)
      (halive : s.socket = some i ∨ k.receiving ≠ []) (hconnected : k.connected = false) :
      Step topic s .caller ((s.setSocket i (Socket.start · handler)).setCaller .idle)
  | throws (i handler) (hc : s.caller = .starting i handler) :
      Step topic s .throws (s.setCaller .idle)
  | takePublish (payload rest) (hs : s.strand = .idle)
      (htasks : s.tasks = .publish payload :: rest) :
      Step topic s .strand ({ s with tasks := rest }.setStrand (.connectedTest payload))
  | takeDisconnect (rest) (hs : s.strand = .idle) (htasks : s.tasks = .disconnect :: rest) :
      Step topic s .strand ({ s with tasks := rest }.setStrand .socketTest)
  | drop (payload) (hs : s.strand = .connectedTest payload) (hconnected : s.connected = false) :
      Step topic s .strand (s.setStrand .idle)
  | goOn (payload) (hs : s.strand = .connectedTest payload) (hconnected : s.connected = true) :
      Step topic s .strand (s.setStrand (.sending payload))
  | sendNull (payload) (hs : s.strand = .sending payload) (hsocket : s.socket = none) :
      Step topic s .strand (s.crash .strand)
  | send (payload i) (hs : s.strand = .sending payload) (hsocket : s.socket = some i) :
      Step topic s .strand
        ((s.setSocket i (Socket.send · (Frame.make topic Frame.DATA payload))).setStrand .idle)
  | nothing (hs : s.strand = .socketTest) (hsocket : s.socket = none) :
      Step topic s .strand (s.setStrand .idle)
  | found (i) (hs : s.strand = .socketTest) (hsocket : s.socket = some i) :
      Step topic s .strand (s.setStrand .closing)
  | closeNull (hs : s.strand = .closing) (hsocket : s.socket = none) :
      Step topic s .strand (s.crash .strand)
  | close (i) (hs : s.strand = .closing) (hsocket : s.socket = some i) :
      Step topic s .strand ((s.setSocket i Socket.disconnect).setStrand .resetting)
  | resetNull (hs : s.strand = .resetting) (hsocket : s.socket = none) :
      Step topic s .strand (s.setStrand .clearing)
  | reset (i) (hs : s.strand = .resetting) (hsocket : s.socket = some i) :
      Step topic s .strand
        ({ s.setSocket i Socket.release with socket := none }.setStrand .clearing)
  | clear (hs : s.strand = .clearing) :
      Step topic s .strand ({ s with connected := false }.setStrand .idle)
  | succeed (i k) (hk : s.sockets[i]? = some k) (hstage : k.stage = .pending)
      (hopen : k.isOpen = true) : Step topic s (.succeed i) (s.setStage i .succeeded)
  | fail (i k) (hk : s.sockets[i]? = some k) (hstage : k.stage = .pending) :
      Step topic s (.fail i) (s.setStage i .failed)
  | failed (i k) (hk : s.sockets[i]? = some k) (hstage : k.stage = .failed) :
      Step topic s (.handler i) (s.setStage i .done).onError
  | connected (i k) (hk : s.sockets[i]? = some k) (hstage : k.stage = .succeeded) :
      Step topic s (.handler i)
        (s.setSocket i fun k => { k with connected := true, stage := .storing })
  | store (i k) (hk : s.sockets[i]? = some k) (hstage : k.stage = .storing) :
      Step topic s (.handler i) ({ s with connected := true }.setStage i
        (if k.handler.isSome then .registering else .done))
  | registNull (i k) (hk : s.sockets[i]? = some k) (hstage : k.stage = .registering)
      (hsocket : s.socket = none) : Step topic s (.handler i) (s.crash .handler)
  | regist (i k j) (hk : s.sockets[i]? = some k) (hstage : k.stage = .registering)
      (hsocket : s.socket = some j) :
      Step topic s (.handler i)
        ((s.setSocket j (Socket.send · (Frame.make topic Frame.REGIST []))).setStage i .arming)
  | armNull (i k) (hk : s.sockets[i]? = some k) (hstage : k.stage = .arming)
      (hsocket : s.socket = none) : Step topic s (.handler i) (s.crash .handler)
  | arm (i k j) (hk : s.sockets[i]? = some k) (hstage : k.stage = .arming)
      (hsocket : s.socket = some j) :
      Step topic s (.handler i) ((s.setSocket j (Socket.receive · k.handler)).setStage i .done)
  | hangup (i k loop header ec) (hk : s.sockets[i]? = some k) (hloop : loop < k.receiving.length) :
      Step topic s (.hangup i loop header ec)
        (s.setSocket i (Socket.hangup · loop header ec)).onError

variable {topic : UInt16} {s s' : Transport η}

theorem Step.of_stepCaller (h : s.stepCaller = some s') : Step topic s .caller s' := by
  unfold stepCaller at h
  split at h
  · cases h
  · rename_i handler hc
    cases h
    cases hconnected : s.connected with
    | true => exact .refuse handler hc hconnected
    | false => exact .pass handler hc hconnected
  · rename_i handler hc
    cases h
    cases hsocket : s.socket with
    | none => exact .vacant handler hc hsocket
    | some i => exact .reject handler i hc hsocket
  · cases h
    exact .create _ ‹_›
  · split at h <;> cases h
    · exact .dialNull _ ‹_› ‹_›
    · exact .dial _ _ ‹_› ‹_›
  · rename_i i handler hc
    split at h
    · cases h
    · rename_i k hk
      split at h
      · rename_i hgone
        cases h
        exact .gone i handler k hc hk hgone.1 (List.isEmpty_iff.mp hgone.2)
      · rename_i hgone
        split at h <;> cases h
        · exact .already i handler k hc hk ‹_›
        · refine .start i handler k hc hk ?_ (Bool.eq_false_iff.mpr ‹_›)
          by_cases hsocket : s.socket = some i
          · exact .inl hsocket
          · exact .inr fun hsilent => hgone ⟨hsocket, List.isEmpty_iff.mpr hsilent⟩

theorem Step.of_stepStrand (h : s.stepStrand topic = some s') : Step topic s .strand s' := by
  unfold stepStrand at h
  split at h
  · split at h <;> cases h
    · exact .takePublish _ _ ‹_› ‹_›
    · exact .takeDisconnect _ ‹_› ‹_›
  · rename_i payload hs
    cases h
    cases hconnected : s.connected with
    | true => exact .goOn payload hs hconnected
    | false => exact .drop payload hs hconnected
  · rename_i payload hs
    cases h
    unfold withSocket
    split
    · exact .sendNull payload hs ‹_›
    · exact .send payload _ hs ‹_›
  · rename_i hs
    cases h
    cases hsocket : s.socket with
    | none => exact .nothing hs hsocket
    | some i => exact .found i hs hsocket
  · rename_i hs
    cases h
    unfold withSocket
    split
    · exact .closeNull hs ‹_›
    · exact .close _ hs ‹_›
  · split at h <;> cases h
    · exact .resetNull ‹_› ‹_›
    · exact .reset _ ‹_› ‹_›
  · cases h
    exact .clear ‹_›

theorem Step.of_stepHandler {i : ℕ} (h : s.stepHandler topic i = some s') :
    Step topic s (.handler i) s' := by
  unfold stepHandler at h
  split at h
  · cases h
  · rename_i k hk
    split at h <;> cases h
    · exact .failed i k hk ‹_›
    · exact .connected i k hk ‹_›
    · exact .store i k hk ‹_›
    · unfold withSocket
      split
      · exact .registNull i k hk ‹_› ‹_›
      · exact .regist i k _ hk ‹_› ‹_›
    · unfold withSocket
      split
      · exact .armNull i k hk ‹_› ‹_›
      · exact .arm i k _ hk ‹_› ‹_›

/-- Every enabled action moves the transport by one of the rules. -/
theorem step_cases {a : Action η} (h : s.step topic a = some s') :
    s.crashed = none ∧ Step topic s a s' := by
  unfold step at h
  split at h
  · cases h
  · rename_i hlive
    refine ⟨by simpa using hlive, ?_⟩
    cases a with
    | «open» guarded handler =>
        simp only at h
        split at h <;> cases h
        exact .open guarded handler ‹_›
    | publish payload =>
        simp only at h
        split at h <;> cases h
        exact .publish payload ‹_›
    | disconnect =>
        simp only at h
        split at h <;> cases h
        exact .disconnect ‹_›
    | caller => exact .of_stepCaller h
    | throws =>
        simp only at h
        split at h <;> cases h
        exact .throws _ _ ‹_›
    | strand => exact .of_stepStrand h
    | succeed i =>
        simp only at h
        split at h
        · cases h
        · split at h <;> cases h
          rename_i k hk hready
          exact .succeed i k hk hready.1 hready.2
    | fail i =>
        simp only at h
        split at h
        · cases h
        · split at h <;> cases h
          exact .fail i _ ‹_› ‹_›
    | handler i => exact .of_stepHandler h
    | hangup i loop header ec =>
        simp only at h
        split at h
        · cases h
        · split at h <;> cases h
          exact .hangup i _ loop header ec ‹_› ‹_›

end Transport

end CommonLib.TcpTransport
