import CommonLib.Verification.TcpTransport.Equations

/-! # A lost or refused link

The error handlers that the transport passes to its sockets only log. So `_connected` and `_socket`
stay as they are, and a transport that has lost its link counts as established until `disconnect` is
called. -/

namespace CommonLib.TcpTransport

open AsyncTcp AsyncEventTransport

variable {η : Type*}

namespace Transport

/-- After every error handler of a connection attempt or a receive loop, the transport was as at
the start. -/
def Recovered (s : Transport η) : Prop :=
  ∀ outcome ∈ s.outcomes, outcome = (false, none)

/-- The action runs the error handler of a connection attempt or a receive loop. -/
def HandlesError (s : Transport η) : Action η → Prop
  | .handler i => ∃ k ∈ s.sockets[i]?, k.stage = .failed
  | .hangup .. => True
  | _ => False

/-- A disconnect task has already reset the transport when an error handler runs. -/
def Released (s : Transport η) (a : Action η) : Prop :=
  s.HandlesError a → s.connected = false ∧ s.socket = none

instance (s : Transport η) : (a : Action η) → Decidable (s.HandlesError a)
  | .handler i => inferInstanceAs (Decidable (∃ k ∈ s.sockets[i]?, k.stage = .failed))
  | .hangup .. => inferInstanceAs (Decidable True)
  | .open .. | .publish _ | .disconnect | .caller | .throws | .strand | .succeed _ | .fail _ =>
      inferInstanceAs (Decidable False)

instance (s : Transport η) (a : Action η) : Decidable (s.Released a) :=
  inferInstanceAs (Decidable (_ → _))

/-! ## What an error handler leaves behind -/

theorem onError_recovered_iff {s : Transport η} (hs : s.Recovered) :
    s.onError.Recovered ↔ s.connected = false ∧ s.socket = none := by
  constructor
  · intro hs'
    have hlast := hs' (s.connected, s.socket)
      (List.mem_append_right _ (List.mem_singleton.mpr rfl))
    exact Prod.mk.inj hlast
  · intro hreset outcome hmem
    rcases List.mem_append.mp hmem with hmem | hmem
    · exact hs outcome hmem
    · rw [List.mem_singleton.mp hmem, hreset.1, hreset.2]

/-- A completion handler at another stage is none of an error. -/
theorem released_of_stage {s : Transport η} {i : ℕ} {k : Socket η} (hk : s.sockets[i]? = some k)
    (hstage : k.stage ≠ .failed) : s.Released (.handler i) := by
  intro herror
  obtain ⟨k', hk', hfailed⟩ := herror
  cases hk.symm.trans hk'
  exact absurd hfailed hstage

theorem recovered_step {topic : UInt16} {s s' : Transport η} {a : Action η} (hs : s.Recovered)
    (hstep : Step topic s a s') : s'.Recovered ↔ s.Released a := by
  cases hstep with
  | failed i k hk hstage =>
      have hdone : (s.setStage i .done).Recovered := hs
      rw [onError_recovered_iff hdone]
      constructor
      · intro hreset _
        exact hreset
      · intro hreleased
        exact hreleased ⟨k, hk, hstage⟩
  | hangup i k loop header ec hk hloop =>
      have hended : (s.setSocket i (Socket.hangup · loop header ec)).Recovered := hs
      rw [onError_recovered_iff hended]
      constructor
      · intro hreset _
        exact hreset
      · intro hreleased
        exact hreleased trivial
  | connected i k hk hstage | store i k hk hstage | registNull i k hk hstage
  | regist i k j hk hstage | armNull i k hk hstage | arm i k j hk hstage =>
      exact ⟨fun _ => released_of_stage hk (by rw [hstage]; decide), fun _ => hs⟩
  | _ => exact ⟨fun _ => False.elim, fun _ => hs⟩

/-! ## Without a disconnect -/

/-- Nothing takes the socket away, once there is one. -/
structure Held (s : Transport η) : Prop where
  tasks : Task.disconnect ∉ s.tasks
  strand : s.strand ≠ .resetting ∧ s.strand ≠ .closing ∧ s.strand ≠ .socketTest
  socket : 0 < s.sockets.length → s.socket ≠ none
  outcomes : ∀ outcome ∈ s.outcomes, outcome.2 ≠ none

theorem held_init : (init : Transport η).Held where
  tasks := by simp [init]
  strand := by simp [init]
  socket := by simp [init]
  outcomes := by simp [init]

theorem Held.congr {s s' : Transport η} (h : s.Held) (htasks : s'.tasks = s.tasks)
    (hstrand : s'.strand = s.strand) (hsockets : s'.sockets.length = s.sockets.length)
    (hsocket : s'.socket = s.socket) (houtcomes : s'.outcomes = s.outcomes) : s'.Held := by
  obtain ⟨tasks, strand, socket, outcomes⟩ := h
  constructor
  · rwa [htasks]
  · rwa [hstrand]
  · rwa [hsockets, hsocket]
  · rwa [houtcomes]

theorem length_setSocket (s : Transport η) (i : ℕ) (f : Socket η → Socket η) :
    (s.setSocket i f).sockets.length = s.sockets.length :=
  List.length_modify f s.sockets i

theorem Held.setStrand {s : Transport η} (h : s.Held) {pc : Strand}
    (hpc : pc ≠ .resetting ∧ pc ≠ .closing ∧ pc ≠ .socketTest) : (s.setStrand pc).Held where
  tasks := h.tasks
  strand := hpc
  socket := h.socket
  outcomes := h.outcomes

/-- An error handler belongs to a socket, and so the transport has one. -/
theorem Held.onError {s : Transport η} (h : s.Held) (hsockets : 0 < s.sockets.length) :
    s.onError.Held where
  tasks := h.tasks
  strand := h.strand
  socket := h.socket
  outcomes := by
    intro outcome hmem
    rcases List.mem_append.mp hmem with hmem | hmem
    · exact h.outcomes outcome hmem
    · rw [List.mem_singleton.mp hmem]
      exact h.socket hsockets

theorem length_pos_of_getElem? {s : Transport η} {i : ℕ} {k : Socket η}
    (hk : s.sockets[i]? = some k) : 0 < s.sockets.length :=
  List.length_pos_of_mem (List.mem_of_getElem? hk)

theorem Held.step {topic : UInt16} {s s' : Transport η} {a : Action η} (h : s.Held)
    (hok : a ≠ .disconnect) (hstep : Step topic s a s') : s'.Held := by
  cases hstep with
  | publish payload hc =>
      refine ⟨?_, h.strand, h.socket, h.outcomes⟩
      simpa using h.tasks
  | disconnect hc => exact absurd rfl hok
  | create handler hc => exact ⟨h.tasks, h.strand, fun _ => nofun, h.outcomes⟩
  | takePublish payload rest hs htasks =>
      have htaken : { s with tasks := rest }.Held := by
        refine ⟨fun hmem => h.tasks ?_, h.strand, h.socket, h.outcomes⟩
        rw [htasks]
        exact List.mem_cons_of_mem _ hmem
      exact htaken.setStrand ⟨nofun, nofun, nofun⟩
  | takeDisconnect rest hs htasks =>
      refine absurd ?_ h.tasks
      rw [htasks]
      exact List.mem_cons_self
  | drop payload hs hconnected | goOn payload hs hconnected =>
      exact h.setStrand ⟨nofun, nofun, nofun⟩
  | send payload i hs hsocket =>
      have hsent : (s.setSocket i (Socket.send · (Frame.make topic Frame.DATA payload))).Held :=
        h.congr rfl rfl (length_setSocket s i _) rfl rfl
      exact hsent.setStrand ⟨nofun, nofun, nofun⟩
  | nothing hs | found i hs => exact absurd hs h.strand.2.2
  | closeNull hs | close i hs => exact absurd hs h.strand.2.1
  | resetNull hs | reset i hs => exact absurd hs h.strand.1
  | clear hs => exact ⟨h.tasks, ⟨nofun, nofun, nofun⟩, h.socket, h.outcomes⟩
  | failed i k hk hstage =>
      have hdone : (s.setStage i .done).Held := h.congr rfl rfl (length_setSocket s i _) rfl rfl
      exact hdone.onError (length_pos_of_getElem? (getElem?_setSocket_self hk))
  | hangup i k loop header ec hk hloop =>
      have hended : (s.setSocket i (Socket.hangup · loop header ec)).Held :=
        h.congr rfl rfl (length_setSocket s i _) rfl rfl
      exact hended.onError (length_pos_of_getElem? (getElem?_setSocket_self hk))
  | start i handler k hc hk halive hconnected =>
      exact h.congr rfl rfl (length_setSocket s i _) rfl rfl
  | succeed i k hk hstage | fail i k hk hstage | connected i k hk hstage | store i k hk hstage =>
      exact h.congr rfl rfl (length_setSocket s i _) rfl rfl
  | regist i k j hk hstage hsocket | arm i k j hk hstage hsocket =>
      refine h.congr rfl rfl ?_ rfl rfl
      exact (length_setSocket _ i _).trans (length_setSocket s j _)
  | _ => exact h.congr rfl rfl rfl rfl rfl

theorem Reaches.held {topic : UInt16} {s : Transport η}
    (h : (machine η topic).Reaches (fun _ a => a ≠ .disconnect) s) : s.Held :=
  h.invariant held_init fun _ _ _ hs hok hstep => hs.step hok (step_cases hstep).2

/-! ## The next call -/

/-- A call makes a new connection attempt exactly if there is no socket. -/
theorem reopens_iff {topic : UInt16} {s : Transport η} (hcrashed : s.crashed = none)
    (hc : s.caller = .idle) (handler : Option η) :
    (∃ s', (machine η topic).run s [.open false handler, .caller, .caller] = some s' ∧
      s'.sockets.length = s.sockets.length + 1) ↔ s.socket = none := by
  cases hsocket : s.socket with
  | none =>
      simp [Machine.run, machine, step, stepCaller, hcrashed, hc, hsocket, setCaller, create]
  | some i =>
      simp [Machine.run, machine, step, stepCaller, hcrashed, hc, hsocket, setCaller]

/-- Error handlers find the transport reset exactly if a disconnect task has reset it before them;
without a call of `disconnect` none ever does. Until it is reset, every call for a connection is
turned down. -/
theorem recovered_iff_released (topic : UInt16) :
    (∀ actions : List (Action η), (machine η topic).Holds Recovered init actions ↔
      (machine η topic).Meets Released init actions) ∧
    (∀ s : Transport η, (machine η topic).Reaches (fun _ a => a ≠ .disconnect) s →
      ∀ outcome ∈ s.outcomes, outcome.2 ≠ none) ∧
    ∀ (s : Transport η) (handler : Option η), s.crashed = none → s.caller = .idle →
      ((∃ s', (machine η topic).run s [.open false handler, .caller, .caller] = some s' ∧
        s'.sockets.length = s.sockets.length + 1) ↔ s.socket = none) := by
  refine ⟨fun actions => ?_, ?_, ?_⟩
  · apply Machine.holds_iff_meets (I := fun _ => True)
    · exact fun _ _ _ _ _ => trivial
    · intro s a s' _ hs hstep
      exact recovered_step hs (step_cases hstep).2
    · trivial
    · intro outcome hmem
      cases hmem
  · intro s hs
    exact (Reaches.held hs).outcomes
  · intro s handler hcrashed hc
    exact reopens_iff hcrashed hc handler

/-- The disconnect task runs while the attempt is pending, which then fails. -/
theorem recovered_disconnected :
    (machine ℕ 7).Holds Recovered init
      [.connect, .caller, .caller, .caller, .caller, .disconnect, .strand, .strand, .strand,
        .strand, .strand, .fail 0, .handler 0] ∧
    ∃ s s' : Transport ℕ, (machine ℕ 7).run init
        [.connect, .caller, .caller, .caller, .caller, .disconnect, .strand, .strand, .strand,
          .strand, .strand, .fail 0, .handler 0] = some s ∧
      s.outcomes = [(false, none)] ∧
      (machine ℕ 7).run s [.connect, .caller, .caller] = some s' ∧ s'.sockets.length = 2 := by
  refine ⟨((recovered_iff_released 7).1 _).mpr (by decide), _, _, rfl, rfl, rfl, rfl⟩

/-- A refused connection, and a link that the broker has closed: the transport keeps its socket, in
the second case it also says connected, and the next call is turned down. -/
theorem lost_link_kept :
    (∃ s s' : Transport ℕ, (machine ℕ 7).run init
        [.connect, .caller, .caller, .caller, .caller, .fail 0, .handler 0] = some s ∧
      s.outcomes = [(false, some 0)] ∧ ¬ s.Recovered ∧
      (machine ℕ 7).run s [.connect, .caller] = some s' ∧ s'.caller = .idle ∧
      s'.sockets.length = 1) ∧
    ∃ s s' : Transport ℕ, (machine ℕ 7).run init
        [.subscribe 1, .caller, .caller, .caller, .caller, .succeed 0, .handler 0, .handler 0,
          .handler 0, .handler 0, .hangup 0 0 true .eof] = some s ∧
      s.outcomes = [(true, some 0)] ∧ ¬ s.Recovered ∧
      (machine ℕ 7).run s [.subscribe 1, .caller] = some s' ∧ s'.caller = .idle ∧
      s'.sockets.length = 1 := by
  constructor
  · refine ⟨_, _, rfl, rfl, fun hs => ?_, rfl, rfl, rfl⟩
    exact absurd (hs (false, some 0) (by decide)) (by decide)
  · refine ⟨_, _, rfl, rfl, fun hs => ?_, rfl, rfl, rfl⟩
    exact absurd (hs (true, some 0) (by decide)) (by decide)

end Transport

end CommonLib.TcpTransport
