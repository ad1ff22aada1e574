import CommonLib.Verification.TcpTransport.Equations

/-! # The transport and its socket

A completion handler that was queued with success goes on whatever the strand does. The two agree
as long as no disconnect task takes the socket away in front of such a handler. -/

namespace CommonLib.TcpTransport

open AsyncTcp AsyncEventTransport

variable {η : Type*}

/-- The attempt has succeeded and its completion handler has not finished. -/
def Stage.live : Stage → Bool
  | .succeeded | .storing | .registering | .arming => true
  | _ => false

/-- In a task that is about to use `_socket`. -/
def Strand.usesSocket : Strand → Bool
  | .sending _ | .closing | .resetting => true
  | _ => false

namespace Transport

/-- Connected means that there is a socket, unless a task of the strand is in progress; and neither
a task nor a handler has dereferenced a null socket. -/
structure NullSafe (s : Transport η) : Prop where
  attached : s.connected = true → s.socket = none → s.strand ≠ .idle
  strand : s.crashed ≠ some .strand
  handler : s.crashed ≠ some .handler

/-- The strand does not reset `_socket` while a handler of a successful attempt is queued or under
way. -/
def Finished (s : Transport η) (a : Action η) : Prop :=
  a = .strand → s.strand = .resetting → ∀ k ∈ s.sockets, k.stage.live = false

instance (s : Transport η) (a : Action η) [DecidableEq η] : Decidable (s.Finished a) :=
  inferInstanceAs (Decidable (_ → _ → _))

structure Attached (s : Transport η) : Prop where
  flag : s.connected = true → s.socket = none → s.strand = .clearing
  busy : s.strand.usesSocket = true → s.socket ≠ none
  live : ∀ (i : ℕ) (k : Socket η), s.sockets[i]? = some k → k.stage.live = true →
    s.socket = some i
  opened : ∀ (i : ℕ) (k : Socket η), s.sockets[i]? = some k → k.stage = .pending →
    k.isOpen = true → s.socket = some i
  silent : ∀ (i : ℕ) (k : Socket η), s.sockets[i]? = some k → k.receiving ≠ [] → k.stage = .done
  creating : ∀ handler, s.caller = .creating handler → s.socket = none
  dialing : ∀ handler i, s.caller = .dialing handler → s.socket = some i →
    ∀ k, s.sockets[i]? = some k → k.stage = .unstarted
  starting : ∀ i handler, s.caller = .starting i handler →
    ∀ k, s.sockets[i]? = some k → k.stage = .unstarted

theorem attached_init : (init : Transport η).Attached where
  flag := by simp [init]
  busy := by simp [init, Strand.usesSocket]
  live := by simp [init]
  opened := by simp [init]
  silent := by simp [init]
  creating := by simp [init]
  dialing := by simp [init]
  starting := by simp [init]

/-- Tasks, calls, histories and the mark of a dead process do not matter. -/
theorem Attached.congr {s s' : Transport η} (h : s.Attached) (hsockets : s'.sockets = s.sockets)
    (hsocket : s'.socket = s.socket) (hconnected : s'.connected = s.connected)
    (hcaller : s'.caller = s.caller) (hstrand : s'.strand = s.strand) : s'.Attached := by
  obtain ⟨flag, busy, live, opened, silent, creating, dialing, starting⟩ := h
  constructor <;> simpa only [hsockets, hsocket, hconnected, hcaller, hstrand]

/-! ## Steps of one party -/

theorem Attached.setCaller {s : Transport η} (h : s.Attached) {pc : Caller η}
    (hcreating : ∀ handler, pc = .creating handler → s.socket = none)
    (hdialing : ∀ handler, pc ≠ .dialing handler)
    (hstarting : ∀ i handler, pc = .starting i handler →
      ∀ k, s.sockets[i]? = some k → k.stage = .unstarted) : (s.setCaller pc).Attached where
  flag := h.flag
  busy := h.busy
  live := h.live
  opened := h.opened
  silent := h.silent
  creating := hcreating
  dialing := fun handler _ hpc => absurd hpc (hdialing handler)
  starting := hstarting

theorem Attached.callerIdle {s : Transport η} (h : s.Attached) : (s.setCaller .idle).Attached :=
  h.setCaller nofun nofun nofun

/-- The flag is stored, and the strand moves on. -/
theorem Attached.setFlag {s : Transport η} (h : s.Attached) {b : Bool} {pc : Strand}
    (hflag : b = true → s.socket = none → pc = .clearing)
    (hbusy : pc.usesSocket = true → s.socket ≠ none) :
    { s with connected := b, strand := pc }.Attached where
  flag := hflag
  busy := hbusy
  live := h.live
  opened := h.opened
  silent := h.silent
  creating := h.creating
  dialing := h.dialing
  starting := h.starting

theorem Attached.setStrand {s : Transport η} (h : s.Attached) {pc : Strand}
    (hclearing : s.strand ≠ .clearing) (hbusy : pc.usesSocket = true → s.socket ≠ none) :
    (s.setStrand pc).Attached :=
  h.setFlag (fun hconnected hsocket => absurd (h.flag hconnected hsocket) hclearing) hbusy

/-- One socket changes. -/
theorem Attached.setSocket {s : Transport η} (h : s.Attached) (i : ℕ) (f : Socket η → Socket η)
    (hlive : ∀ k, s.sockets[i]? = some k → (f k).stage.live = true → s.socket = some i)
    (hopened : ∀ k, s.sockets[i]? = some k → (f k).stage = .pending → (f k).isOpen = true →
      s.socket = some i)
    (hsilent : ∀ k, s.sockets[i]? = some k → (f k).receiving ≠ [] → (f k).stage = .done)
    (hunstarted : ∀ k, s.sockets[i]? = some k → k.stage = .unstarted → s.caller ≠ .idle →
      (f k).stage = .unstarted) : (s.setSocket i f).Attached where
  flag := h.flag
  busy := h.busy
  live := by
    intro j k hk hstage
    rcases getElem?_setSocket hk with ⟨rfl, k', hk', rfl⟩ | ⟨-, hk⟩
    · exact hlive k' hk' hstage
    · exact h.live j k hk hstage
  opened := by
    intro j k hk hstage hisOpen
    rcases getElem?_setSocket hk with ⟨rfl, k', hk', rfl⟩ | ⟨-, hk⟩
    · exact hopened k' hk' hstage hisOpen
    · exact h.opened j k hk hstage hisOpen
  silent := by
    intro j k hk hreceiving
    rcases getElem?_setSocket hk with ⟨rfl, k', hk', rfl⟩ | ⟨-, hk⟩
    · exact hsilent k' hk' hreceiving
    · exact h.silent j k hk hreceiving
  creating := h.creating
  dialing := by
    intro handler j hc hsocket k hk
    rcases getElem?_setSocket hk with ⟨rfl, k', hk', rfl⟩ | ⟨-, hk⟩
    · refine hunstarted k' hk' (h.dialing handler j hc hsocket k' hk') ?_
      intro hidle
      cases hc.symm.trans hidle
    · exact h.dialing handler j hc hsocket k hk
  starting := by
    intro j handler hc k hk
    rcases getElem?_setSocket hk with ⟨rfl, k', hk', rfl⟩ | ⟨-, hk⟩
    · refine hunstarted k' hk' (h.starting j handler hc k' hk') ?_
      intro hidle
      cases hc.symm.trans hidle
    · exact h.starting j handler hc k hk

/-- A change of a socket that leaves its attempt alone and arms no loop. -/
theorem Attached.setSocket_of_same {s : Transport η} (h : s.Attached) (i : ℕ)
    (f : Socket η → Socket η) (hstage : ∀ k, (f k).stage = k.stage)
    (hopen : ∀ k, (f k).isOpen = true → k.isOpen = true)
    (hreceiving : ∀ k, (f k).receiving ≠ [] → k.receiving ≠ []) : (s.setSocket i f).Attached := by
  apply h.setSocket i f
  · intro k hk hlive
    exact h.live i k hk (hstage k ▸ hlive)
  · intro k hk hpending hisOpen
    exact h.opened i k hk (hstage k ▸ hpending) (hopen k hisOpen)
  · intro k hk hne
    exact (hstage k).trans (h.silent i k hk (hreceiving k hne))
  · intro k _ hunstarted _
    exact (hstage k).trans hunstarted

/-- The attempt of a socket that was started moves on. -/
theorem Attached.advance {s : Transport η} (h : s.Attached) {i : ℕ} {k : Socket η}
    (hk : s.sockets[i]? = some k) (hstarted : k.stage ≠ .unstarted) (f : Socket η → Socket η)
    (hpending : (f k).stage ≠ .pending) (hlive : (f k).stage.live = true → s.socket = some i)
    (hsilent : (f k).receiving ≠ [] → (f k).stage = .done) : (s.setSocket i f).Attached := by
  apply h.setSocket i f
  · intro k' hk' hlive'
    cases hk.symm.trans hk'
    exact hlive hlive'
  · intro k' hk' hpending'
    cases hk.symm.trans hk'
    exact absurd hpending' hpending
  · intro k' hk' hreceiving
    cases hk.symm.trans hk'
    exact hsilent hreceiving
  · intro k' hk' hunstarted
    cases hk.symm.trans hk'
    exact absurd hunstarted hstarted

theorem Attached.setStage {s : Transport η} (h : s.Attached) {i : ℕ} {k : Socket η} {stage : Stage}
    (hk : s.sockets[i]? = some k) (hstage : k.stage ≠ .done) (hstarted : k.stage ≠ .unstarted)
    (hpending : stage ≠ .pending) (hlive : stage.live = true → s.socket = some i) :
    (s.setStage i stage).Attached := by
  apply h.advance hk hstarted _ hpending hlive
  intro hreceiving
  exact absurd (h.silent i k hk hreceiving) hstage

theorem Attached.create {s : Transport η} (h : s.Attached) {handler : Option η}
    (hc : s.caller = .creating handler) : (s.create.setCaller (.dialing handler)).Attached := by
  have hsocket := h.creating handler hc
  exact {
    flag := fun _ hnone => nomatch hnone
    busy := fun _ => nofun
    live := by
      intro i k hk hlive
      rcases getElem?_create hk with ⟨-, rfl⟩ | ⟨-, hk⟩
      · cases hlive
      · cases hsocket.symm.trans (h.live i k hk hlive)
    opened := by
      intro i k hk hpending hisOpen
      rcases getElem?_create hk with ⟨-, rfl⟩ | ⟨-, hk⟩
      · cases hpending
      · cases hsocket.symm.trans (h.opened i k hk hpending hisOpen)
    silent := by
      intro i k hk hreceiving
      rcases getElem?_create hk with ⟨-, rfl⟩ | ⟨-, hk⟩
      · exact absurd rfl hreceiving
      · exact h.silent i k hk hreceiving
    creating := nofun
    dialing := by
      intro _ i _ hi k hk
      cases hi
      rcases getElem?_create hk with ⟨-, rfl⟩ | ⟨hlt, -⟩
      · rfl
      · exact absurd hlt (Nat.lt_irrefl _)
    starting := nofun }

theorem Attached.start {s : Transport η} (h : s.Attached) {i : ℕ} {handler : Option η}
    {k : Socket η} (hc : s.caller = .starting i handler) (hk : s.sockets[i]? = some k)
    (halive : s.socket = some i ∨ k.receiving ≠ []) :
    ((s.setSocket i (Socket.start · handler)).setCaller .idle).Attached := by
  have hunstarted := h.starting i handler hc k hk
  have hsilent : k.receiving = [] := by
    by_contra hne
    cases hunstarted.symm.trans (h.silent i k hk hne)
  have hsocket : s.socket = some i := halive.resolve_right (not_not_intro hsilent)
  apply Attached.setSocket (s := s.setCaller .idle) h.callerIdle
  · intro k' _ hlive
    cases hlive
  · intro k' _ _ _
    exact hsocket
  · intro k' hk' hreceiving
    cases hk.symm.trans hk'
    exact absurd hsilent hreceiving
  · intro k' _ _ hidle
    exact absurd rfl hidle

/-- Reset behind all handlers, `_socket` is missed by nobody. -/
theorem Attached.reset {s : Transport η} (h : s.Attached) {i : ℕ} (hsocket : s.socket = some i)
    (hok : ∀ k ∈ s.sockets, k.stage.live = false) :
    ({ s.setSocket i Socket.release with socket := none }.setStrand .clearing).Attached := by
  have hrelease : (s.setSocket i Socket.release).Attached :=
    h.setSocket_of_same i Socket.release Socket.release_stage
      (fun _ => Socket.isOpen_of_release) (fun k => by simp)
  exact {
    flag := fun _ _ => rfl
    busy := nofun
    live := by
      intro j k hk hlive
      rcases getElem?_setSocket hk with ⟨-, k', hk', rfl⟩ | ⟨-, hk⟩
      · rw [Socket.release_stage, hok k' (List.mem_of_getElem? hk')] at hlive
        cases hlive
      · rw [hok k (List.mem_of_getElem? hk)] at hlive
        cases hlive
    opened := by
      intro j k hk hpending hisOpen
      rcases getElem?_setSocket hk with ⟨-, k', hk', rfl⟩ | ⟨hne, hk⟩
      · -- no loop keeps the socket alive, so the destructor closes it
        have hsilent : k'.receiving = [] := by
          by_contra hreceiving
          rw [Socket.release_stage, h.silent i k' hk' hreceiving] at hpending
          cases hpending
        rw [Socket.release_of_silent hsilent] at hisOpen
        cases hisOpen
      · cases hsocket.symm.trans (h.opened j k hk hpending hisOpen)
        exact absurd rfl hne
    silent := hrelease.silent
    creating := fun _ _ => rfl
    dialing := nofun
    starting := hrelease.starting }

theorem Attached.store {s : Transport η} (h : s.Attached) {i : ℕ} {k : Socket η}
    (hk : s.sockets[i]? = some k) (hstage : k.stage = .storing) :
    ({ s with connected := true }.setStage i
      (if k.handler.isSome then .registering else .done)).Attached := by
  have hsocket := h.live i k hk (by rw [hstage]; rfl)
  have hconnected : { s with connected := true }.Attached :=
    h.setFlag (fun _ hnone => nomatch hsocket.symm.trans hnone) h.busy
  exact hconnected.setStage hk (by rw [hstage]; decide) (by rw [hstage]; decide)
    (by split <;> decide) fun _ => hsocket

/-- A handler arms its loop on the socket it has connected. -/
theorem Attached.arm {s : Transport η} (h : s.Attached) {i j : ℕ} {k : Socket η}
    (hk : s.sockets[i]? = some k) (hstage : k.stage = .arming) (hsocket : s.socket = some j) :
    ((s.setSocket j (Socket.receive · k.handler)).setStage i .done).Attached := by
  have hlive := h.live i k hk (by rw [hstage]; rfl)
  cases hsocket.symm.trans hlive
  rw [Transport.setStage, setSocket_setSocket]
  exact h.advance hk (by rw [hstage]; decide) _ nofun nofun fun _ => rfl

/-! ## Every run -/

theorem Attached.step {topic : UInt16} {s s' : Transport η} {a : Action η} (h : s.Attached)
    (hok : s.Finished a) (hstep : Step topic s a s') : s'.Attached := by
  cases hstep with
  | «open» guarded handler hc =>
      have hcalls : { s with calls := s.calls ++ [Call.open handler] }.Attached :=
        h.congr rfl rfl rfl rfl rfl
      cases guarded with
      | true => exact hcalls.setCaller nofun nofun nofun
      | false => exact hcalls.setCaller nofun nofun nofun
  | publish payload hc | disconnect hc => exact h.congr rfl rfl rfl rfl rfl
  | refuse handler hc hconnected | reject handler i hc hsocket | already i handler k hc hk
  | throws i handler hc => exact h.callerIdle
  | pass handler hc hconnected => exact h.setCaller nofun nofun nofun
  | vacant handler hc hsocket => exact h.setCaller (fun _ _ => hsocket) nofun nofun
  | create handler hc => exact h.create hc
  | dialNull handler hc hsocket | gone i handler k hc hk hsocket hsilent
  | sendNull payload hs hsocket | closeNull hs hsocket | registNull i k hk hstage hsocket
  | armNull i k hk hstage hsocket => exact h.congr rfl rfl rfl rfl rfl
  | dial handler i hc hsocket =>
      refine h.setCaller nofun nofun ?_
      intro j _ heq k hk
      cases heq
      exact h.dialing handler i hc hsocket k hk
  | start i handler k hc hk halive hconnected => exact h.start hc hk halive
  | takePublish payload rest hs htasks | takeDisconnect rest hs htasks =>
      have htaken : { s with tasks := rest }.Attached := h.congr rfl rfl rfl rfl rfl
      exact htaken.setStrand (by change s.strand ≠ _; rw [hs]; decide) nofun
  | drop payload hs hconnected => exact h.setStrand (by rw [hs]; nofun) nofun
  | goOn payload hs hconnected =>
      refine h.setStrand (by rw [hs]; nofun) fun _ hsocket => ?_
      cases hs.symm.trans (h.flag hconnected hsocket)
  | send payload i hs hsocket =>
      have hsent := h.setSocket_of_same i (Socket.send · (Frame.make topic Frame.DATA payload))
        (fun _ => rfl) (fun _ hopen => hopen) (fun _ hne => hne)
      exact hsent.setStrand (by change s.strand ≠ _; rw [hs]; nofun) nofun
  | nothing hs hsocket => exact h.setStrand (by rw [hs]; decide) nofun
  | found i hs hsocket =>
      exact h.setStrand (by rw [hs]; decide) fun _ hnone => nomatch hsocket.symm.trans hnone
  | close i hs hsocket =>
      have hclosed := h.setSocket_of_same i Socket.disconnect (fun _ => rfl)
        (fun _ hopen => nomatch hopen) (fun _ hne => hne)
      exact hclosed.setStrand (by change s.strand ≠ _; rw [hs]; decide)
        fun _ hnone => nomatch hsocket.symm.trans hnone
  | resetNull hs hsocket => exact absurd hsocket (h.busy (by rw [hs]; rfl))
  | reset i hs hsocket => exact h.reset hsocket (hok rfl hs)
  | clear hs => exact h.setFlag nofun nofun
  | succeed i k hk hstage hopen =>
      exact h.setStage hk (by rw [hstage]; decide) (by rw [hstage]; decide) nofun
        fun _ => h.opened i k hk hstage hopen
  | fail i k hk hstage =>
      exact h.setStage hk (by rw [hstage]; decide) (by rw [hstage]; decide) nofun nofun
  | failed i k hk hstage =>
      have hdone : (s.setStage i .done).Attached :=
        h.setStage hk (by rw [hstage]; decide) (by rw [hstage]; decide) nofun nofun
      exact hdone.congr rfl rfl rfl rfl rfl
  | connected i k hk hstage =>
      refine h.advance hk (by rw [hstage]; decide) _ nofun
        (fun _ => h.live i k hk (by rw [hstage]; rfl)) fun hreceiving => ?_
      cases hstage.symm.trans (h.silent i k hk hreceiving)
  | store i k hk hstage => exact h.store hk hstage
  | regist i k j hk hstage hsocket =>
      have hlive := h.live i k hk (by rw [hstage]; rfl)
      cases hsocket.symm.trans hlive
      have hsent := h.setSocket_of_same i (Socket.send · (Frame.make topic Frame.REGIST []))
        (fun _ => rfl) (fun _ hopen => hopen) (fun _ hne => hne)
      exact hsent.setStage (getElem?_setSocket_self hk) (by change k.stage ≠ _; rw [hstage]; decide)
        (by change k.stage ≠ _; rw [hstage]; decide) nofun fun _ => hlive
  | arm i k j hk hstage hsocket => exact h.arm hk hstage hsocket
  | hangup i k loop header ec hk hloop =>
      have hended : (s.setSocket i (Socket.hangup · loop header ec)).Attached := by
        apply h.setSocket_of_same i
        · exact fun k => k.hangup_stage loop header ec
        · exact fun _ => Socket.isOpen_of_hangup
        · intro k' hne hnil
          rw [Socket.hangup_receiving, hnil] at hne
          exact hne rfl
      exact hended.congr rfl rfl rfl rfl rfl

/-- The tasks and handlers of an attached transport find a socket. -/
theorem Attached.not_null {topic : UInt16} {s s' : Transport η} {a : Action η} (h : s.Attached)
    (hcrashed : s.crashed = none) (hstep : Step topic s a s') :
    s'.crashed = none ∨ s'.crashed = some .caller := by
  cases hstep with
  | dialNull handler hc hsocket | gone i handler k hc hk hsocket hsilent => exact .inr rfl
  | sendNull payload hs hsocket => exact absurd hsocket (h.busy (by rw [hs]; rfl))
  | closeNull hs hsocket => exact absurd hsocket (h.busy (by rw [hs]; rfl))
  | registNull i k hk hstage hsocket =>
      cases hsocket.symm.trans (h.live i k hk (by rw [hstage]; rfl))
  | armNull i k hk hstage hsocket =>
      cases hsocket.symm.trans (h.live i k hk (by rw [hstage]; rfl))
  | _ => exact .inl hcrashed

theorem Reaches.attached {topic : UInt16} {s : Transport η}
    (h : (machine η topic).Reaches Finished s) : s.Attached :=
  h.invariant attached_init fun _ _ _ hs hok hstep => hs.step hok (step_cases hstep).2

theorem Reaches.nullSafe {topic : UInt16} {s : Transport η}
    (h : (machine η topic).Reaches Finished s) : s.NullSafe := by
  have hattached := Reaches.attached h
  have hcrashed : s.crashed = none ∨ s.crashed = some .caller := by
    cases h with
    | init => exact .inl rfl
    | step hr hok hstep =>
        obtain ⟨hlive, hrule⟩ := step_cases hstep
        exact (Reaches.attached hr).not_null hlive hrule
  constructor
  · intro hconnected hsocket hidle
    cases hidle.symm.trans (hattached.flag hconnected hsocket)
  · rcases hcrashed with heq | heq <;> simp [heq]
  · rcases hcrashed with heq | heq <;> simp [heq]

/-! ## A socket that is taken away too early -/

/-- Some continuation leads to a state that is not safe. -/
def Endangered (topic : UInt16) (s : Transport η) : Prop :=
  (machine η topic).Leads (fun s => ¬ s.NullSafe) s

theorem Endangered.of_step {topic : UInt16} {s s' : Transport η} {a : Action η}
    (hstep : s.step topic a = some s') (h : s'.Endangered topic) : s.Endangered topic :=
  Machine.Leads.of_step (m := machine η topic) hstep h

theorem step_handler {topic : UInt16} {s : Transport η} (hcrashed : s.crashed = none) (i : ℕ) :
    s.step topic (.handler i) = s.stepHandler topic i := by
  simp [step, hcrashed]

/-- The handler declares a transport connected that has no socket. -/
theorem endangered_of_storing {topic : UInt16} {s : Transport η} (hcrashed : s.crashed = none)
    (hsocket : s.socket = none) (hstrand : s.strand = .idle) {i : ℕ} {k : Socket η}
    (hk : s.sockets[i]? = some k) (hstage : k.stage = .storing) : s.Endangered topic := by
  apply Endangered.of_step (a := .handler i)
  · rw [step_handler hcrashed]
    simp only [stepHandler, hk, hstage]
    rfl
  · apply Machine.leads_of
    intro hsafe
    exact hsafe.attached rfl hsocket hstrand

theorem endangered_of_succeeded {topic : UInt16} {s : Transport η} (hcrashed : s.crashed = none)
    (hsocket : s.socket = none) (hstrand : s.strand = .idle) {i : ℕ} {k : Socket η}
    (hk : s.sockets[i]? = some k) (hstage : k.stage = .succeeded) : s.Endangered topic := by
  apply Endangered.of_step (a := .handler i)
  · rw [step_handler hcrashed]
    simp only [stepHandler, hk, hstage]
    rfl
  · exact endangered_of_storing hcrashed hsocket hstrand (getElem?_setSocket_self hk) rfl

/-- The handler of `subscribe` dereferences `_socket`. -/
theorem endangered_of_registering {topic : UInt16} {s : Transport η} (hcrashed : s.crashed = none)
    (hsocket : s.socket = none) {i : ℕ} {k : Socket η} (hk : s.sockets[i]? = some k)
    (hstage : k.stage = .registering ∨ k.stage = .arming) : s.Endangered topic := by
  have hstep : s.step topic (.handler i) = some (s.crash .handler) := by
    rw [step_handler hcrashed]
    rcases hstage with hstage | hstage <;> simp [stepHandler, withSocket, hk, hstage, hsocket]
  apply Endangered.of_step hstep
  apply Machine.leads_of
  intro hsafe
  exact hsafe.handler rfl

/-- Behind the reset the disconnect task still clears the flag, and then a handler that goes on
finds no socket. -/
theorem endangered_of_reset {topic : UInt16} {s : Transport η} (hcrashed : s.crashed = none)
    (hsocket : s.socket = none) (hstrand : s.strand = .clearing) {i : ℕ} {k : Socket η}
    (hk : s.sockets[i]? = some k) (hlive : k.stage.live = true) : s.Endangered topic := by
  have hclear : s.step topic .strand = some ({ s with connected := false }.setStrand .idle) := by
    simp [step, stepStrand, hcrashed, hstrand]
  cases hstage : k.stage with
  | succeeded =>
      exact .of_step hclear (endangered_of_succeeded hcrashed hsocket rfl hk hstage)
  | storing => exact .of_step hclear (endangered_of_storing hcrashed hsocket rfl hk hstage)
  | registering => exact endangered_of_registering hcrashed hsocket hk (.inl hstage)
  | arming => exact endangered_of_registering hcrashed hsocket hk (.inr hstage)
  | _ =>
      rw [hstage] at hlive
      cases hlive

theorem endangered_of_not_finished {topic : UInt16} {s s' : Transport η} {a : Action η}
    (hstep : s.step topic a = some s') (hok : ¬ s.Finished a) : s'.Endangered topic := by
  simp only [Finished, not_forall] at hok
  obtain ⟨rfl, hs, k, hmem, hlive⟩ := hok
  obtain ⟨i, hk⟩ := List.mem_iff_getElem?.mp hmem
  obtain ⟨hcrashed, hrule⟩ := step_cases hstep
  cases hrule with
  | resetNull _ hsocket =>
      exact endangered_of_reset hcrashed hsocket rfl hk (Bool.not_eq_false _ ▸ hlive)
  | reset j _ hsocket =>
      by_cases hij : i = j
      · subst hij
        refine endangered_of_reset hcrashed rfl rfl (getElem?_setSocket_self hk) ?_
        rw [Socket.release_stage]
        exact Bool.not_eq_false _ ▸ hlive
      · refine endangered_of_reset hcrashed rfl rfl ((getElem?_setSocket_ne hij).trans hk) ?_
        exact Bool.not_eq_false _ ▸ hlive
  | takePublish _ _ hs' | takeDisconnect _ hs' | drop _ hs' | goOn _ hs' | sendNull _ hs'
  | send _ _ hs' | nothing hs' | found _ hs' | closeNull hs' | close _ hs' | clear hs' =>
      cases hs.symm.trans hs'

/-- As long as no disconnect task resets `_socket` in front of an unfinished handler, connected
means that there is a socket and nothing dereferences a null pointer. Each step that does so is
followed by some continuation that is not safe. -/
theorem nullSafe_of_finished (topic : UInt16) :
    (∀ s : Transport η, (machine η topic).Reaches Finished s → s.NullSafe) ∧
    ∀ (s : Transport η) (a : Action η) (s' : Transport η),
      s.step topic a = some s' → ¬ s.Finished a →
        ∃ actions s'', (machine η topic).run s' actions = some s'' ∧ ¬ s''.NullSafe := by
  constructor
  · intro s hs
    exact Reaches.nullSafe hs
  · intro s a s' hstep hok
    exact endangered_of_not_finished hstep hok

/-- A subscription, a publication, and a disconnect task that runs when the handler has finished. -/
theorem nullSafe_subscribed :
    ∃ s : Transport ℕ, (machine ℕ 7).run init
        [.subscribe 1, .caller, .caller, .caller, .caller, .succeed 0, .handler 0, .handler 0,
          .handler 0, .handler 0, .publish [5], .strand, .strand, .strand, .disconnect, .strand,
          .strand, .strand, .strand] = some s ∧
      s.strand = .clearing ∧ s.connected = true ∧ s.socket = none ∧ s.NullSafe := by
  have hmeets : (machine ℕ 7).Meets Finished init
      [.subscribe 1, .caller, .caller, .caller, .caller, .succeed 0, .handler 0, .handler 0,
        .handler 0, .handler 0, .publish [5], .strand, .strand, .strand, .disconnect, .strand,
        .strand, .strand, .strand] := by
    decide
  refine ⟨_, rfl, rfl, rfl, rfl, ?_⟩
  exact (nullSafe_of_finished 7).1 _ (Machine.Reaches.init.run_of_meets hmeets rfl)

/-- The handler of a connection is queued with success when the disconnect task runs: it declares
a transport without a socket connected, and the next publication dereferences the null pointer. -/
theorem queued_handler_unsafe :
    ∃ s s' : Transport ℕ, (machine ℕ 7).run init
        [.connect, .caller, .caller, .caller, .caller, .succeed 0, .disconnect, .strand, .strand,
          .strand, .strand, .strand, .handler 0, .handler 0] = some s ∧
      s.connected = true ∧ s.socket = none ∧ s.strand = .idle ∧ s.tasks = [] ∧ ¬ s.NullSafe ∧
      (machine ℕ 7).run s [.publish [5], .strand, .strand, .strand] = some s' ∧
      s'.crashed = some .strand :=
  ⟨_, _, rfl, rfl, rfl, rfl, rfl, fun hs => hs.attached rfl rfl rfl, rfl, rfl⟩

end Transport

end CommonLib.TcpTransport
