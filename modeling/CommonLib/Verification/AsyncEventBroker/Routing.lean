import CommonLib.Verification.AsyncEventBroker.Equations

/-! # Routing refines the subscription relation

The registry is a map of lists of weak pointers that loops edit in place. What it stands for is
a relation between sessions and topics, and that relation is fixed by what has been handled. -/

namespace CommonLib.AsyncEventBroker

variable {ι : Type*}

/-! ## The subscription relation -/

/-- A REGIST of the topic by the session was handled, and since then neither an UNREGIST frame
nor the disconnection of that session. -/
def Subscribed (handled : List (Event ι)) (s : ι) (topic : UInt16) : Prop :=
  ∃ before after, handled = before ++ .regist s topic :: after ∧
    .unregist s ∉ after ∧ .disconnected s ∉ after

theorem not_subscribed_nil (s : ι) (topic : UInt16) : ¬ Subscribed [] s topic := by
  rintro ⟨before, after, h, -⟩
  simp at h

theorem subscribed_append (handled : List (Event ι)) (event : Event ι) (s : ι) (topic : UInt16) :
    Subscribed (handled ++ [event]) s topic ↔
      event = .regist s topic ∨
        (Subscribed handled s topic ∧ event ≠ .unregist s ∧ event ≠ .disconnected s) := by
  constructor
  · rintro ⟨before, after, h, hunregist, hdisconnected⟩
    rcases List.eq_nil_or_concat after with rfl | ⟨middle, last, rfl⟩
    · left
      simpa using (List.append_inj' h rfl).2
    · right
      rw [List.concat_eq_append] at h hunregist hdisconnected
      rw [← List.cons_append, ← List.append_assoc] at h
      obtain ⟨hinit, hlast⟩ := List.append_inj' h rfl
      simp only [List.cons.injEq, and_true] at hlast
      subst hlast
      simp only [List.mem_append, List.mem_singleton, not_or] at hunregist hdisconnected
      exact ⟨⟨before, middle, hinit, hunregist.1, hdisconnected.1⟩,
        Ne.symm hunregist.2, Ne.symm hdisconnected.2⟩
  · rintro (rfl | ⟨⟨before, after, rfl, hunregist, hdisconnected⟩, hne, hne'⟩)
    · exact ⟨handled, [], rfl, by simp, by simp⟩
    · refine ⟨before, after ++ [event], by simp, ?_, ?_⟩
      · simpa [hunregist] using Ne.symm hne
      · simpa [hdisconnected] using Ne.symm hne'

/-- The session's receive loop runs: it waits for a frame or is in the handler of one. -/
def Session.Serving : Session ι → Prop
  | absent | leaving | expired => False
  | receiving | acking _ | routing .. => True

/-- The session's disconnection has been handled. -/
def Session.Gone : Session ι → Prop
  | leaving | expired => True
  | absent | receiving | acking _ | routing .. => False

theorem Session.Serving.alive {st : Session ι} (h : st.Serving) : st.alive = true := by
  cases st <;> first | rfl | cases h

theorem Session.Serving.not_gone {st : Session ι} (h : st.Serving) : ¬ st.Gone := by
  cases st <;> first | exact id | cases h

namespace Broker

/-! ## The invariant -/

/-- What a session's stage says about registry, lock and history: an entry of the registry
belongs to a running receive loop, and a `route` under way works through the list that the
registry still has. -/
structure Fits (b : Broker ι) (s : ι) (stage : Session ι) : Prop where
  serving : ∀ topic, s ∈ b.registry.entries topic → stage.Serving
  acking : ∀ topic, stage = .acking topic → s ∈ b.registry.entries topic
  reading : ∀ topic payload sentTo rest, stage = .routing topic payload sentTo rest →
    s ∈ b.readers
  routing : ∀ topic payload sentTo rest, stage = .routing topic payload sentTo rest →
    sentTo ++ rest = b.registry.entries topic
  gone : .disconnected s ∈ b.handled → stage.Gone

/-- The registry says what the history says, and every session fits. -/
structure Consistent (b : Broker ι) : Prop where
  subscribed : ∀ s topic, s ∈ b.registry.entries topic ↔ Subscribed b.handled s topic
  fits : ∀ s, b.Fits s (b.session s)

theorem consistent_init : (init : Broker ι).Consistent where
  subscribed s topic := by simpa [init] using not_subscribed_nil s topic
  fits s := ⟨by simp [init], by simp [init], by simp [init], by simp [init], by simp [init]⟩

/-- A receive loop that waits for its next frame fits unless it has handled a disconnection. -/
theorem fits_receiving {b : Broker ι} {s : ι} (h : .disconnected s ∉ b.handled) :
    b.Fits s .receiving :=
  ⟨fun _ _ => trivial, by simp, by simp, by simp, fun hgone => absurd hgone h⟩

/-- A session whose receive loop has not ended has not handled its disconnection. -/
theorem Consistent.not_disconnected {b : Broker ι} (h : b.Consistent) {s : ι}
    (hs : ¬ (b.session s).Gone) : .disconnected s ∉ b.handled :=
  fun hmem => hs ((h.fits s).gone hmem)

/-- While nobody holds the lock shared, no session is in the loop of `route`. -/
theorem Consistent.not_routing {b : Broker ι} (h : b.Consistent) (hlock : b.readers = [])
    (s : ι) (topic : UInt16) (payload : Bytes) (sentTo rest : List ι) :
    b.session s ≠ .routing topic payload sentTo rest := by
  intro hs
  have hmem := (h.fits s).reading topic payload sentTo rest hs
  rw [hlock] at hmem
  cases hmem

/-- Whoever is left in the list of a `route` under way can be locked. -/
theorem Consistent.alive_of_routing {b : Broker ι} (h : b.Consistent) {s weak : ι}
    {topic : UInt16} {payload : Bytes} {sentTo rest : List ι}
    (hs : b.session s = .routing topic payload sentTo rest) (hweak : weak ∈ rest) :
    b.alive weak = true := by
  have hmem : weak ∈ b.registry.entries topic := by
    rw [← (h.fits s).routing topic payload sentTo rest hs]
    exact List.mem_append_right _ hweak
  exact ((h.fits weak).serving topic hmem).alive

variable [DecidableEq ι]

/-- A session moves on to a stage that fits, while the others fit as they are. -/
theorem consistent_setSession {b : Broker ι} {s : ι} {stage : Session ι}
    (hsubscribed : ∀ w topic, w ∈ b.registry.entries topic ↔ Subscribed b.handled w topic)
    (hstage : b.Fits s stage) (hother : ∀ w, w ≠ s → b.Fits w (b.session w)) :
    (b.setSession s stage).Consistent := by
  refine ⟨hsubscribed, fun w => ?_⟩
  have hw : b.Fits w ((b.setSession s stage).session w) := by
    by_cases hws : w = s
    · subst hws
      rw [setSession_self]
      exact hstage
    · rw [setSession_of_ne b stage hws]
      exact hother w hws
  exact ⟨hw.serving, hw.acking, hw.reading, hw.routing, hw.gone⟩

/-- A session moves on while registry, lock and history stay as they are. -/
theorem Consistent.setSession {b : Broker ι} (h : b.Consistent) {s : ι} {stage : Session ι}
    (hstage : b.Fits s stage) : (b.setSession s stage).Consistent :=
  consistent_setSession h.subscribed hstage fun w _ => h.fits w

theorem Fits.send {b : Broker ι} {w : ι} {stage : Session ι} (h : b.Fits w stage) (s : ι)
    (frame : Bytes) (sender : ι) : (b.send s frame sender).Fits w stage :=
  ⟨h.serving, h.acking, h.reading, h.routing, h.gone⟩

theorem Consistent.send {b : Broker ι} (h : b.Consistent) (s : ι) (frame : Bytes) (sender : ι) :
    (b.send s frame sender).Consistent :=
  ⟨h.subscribed, fun w => (h.fits w).send s frame sender⟩

/-! ## One lemma for each rule that changes more than a session's stage -/

theorem entries_onSubscribe (b : Broker ι) (s w : ι) (topic topic' : UInt16) :
    w ∈ (b.onSubscribe s topic).registry.entries topic' ↔
      (w = s ∧ topic' = topic) ∨ w ∈ b.registry.entries topic' := by
  change w ∈ (b.registry.regist topic s).entries topic' ↔ _
  by_cases htopic : topic' = topic
  · subst htopic
    rw [TopicRegistry.entries_regist_self]
    simp [or_comm]
  · rw [TopicRegistry.entries_regist_of_ne _ _ htopic]
    simp [htopic]

theorem Consistent.onSubscribe {b : Broker ι} (h : b.Consistent) {s : ι}
    (hs : b.session s = .receiving) (hlock : b.readers = []) (topic : UInt16) :
    (b.onSubscribe s topic).Consistent := by
  have hentries := fun w topic' => entries_onSubscribe b s w topic topic'
  refine consistent_setSession ?_ ?_ ?_
  · intro w topic'
    change w ∈ (b.onSubscribe s topic).registry.entries topic' ↔
      Subscribed (b.handled ++ [.regist s topic]) w topic'
    rw [hentries, h.subscribed, subscribed_append]
    simp [eq_comm]
  · refine ⟨fun _ _ => trivial, ?_, by simp, by simp, ?_⟩
    · intro topic' heq
      cases heq
      exact (hentries s topic).mpr (.inl ⟨rfl, rfl⟩)
    · intro hmem
      have hgone := h.not_disconnected (s := s) (by simp [hs, Session.Gone])
      exact absurd hmem (by simpa [log] using hgone)
  · intro w hws
    refine ⟨?_, ?_, ?_, ?_, ?_⟩
    · intro topic' hw
      rcases (hentries w topic').mp hw with ⟨hw, -⟩ | hw
      · exact absurd hw hws
      · exact (h.fits w).serving topic' hw
    · intro topic' hw
      exact (hentries w topic').mpr (.inr ((h.fits w).acking topic' hw))
    · exact (h.fits w).reading
    · intro topic' payload sentTo rest hw
      exact absurd hw (h.not_routing hlock w topic' payload sentTo rest)
    · intro hmem
      exact (h.fits w).gone (by simpa [log] using hmem)

/-- The common part of an UNREGIST frame and of a disconnection, before the session moves on. -/
theorem entries_onUnsubscribe {b : Broker ι} {s : ι} (hs : b.session s = .receiving)
    (event : Event ι) (w : ι) (topic : UInt16) :
    w ∈ (b.onUnsubscribe s event).registry.entries topic ↔
      w ∈ b.registry.entries topic ∧ w ≠ s := by
  change w ∈ (b.registry.unregist b.alive s).entries topic ↔ _
  rw [TopicRegistry.entries_unregist, List.mem_filter]
  refine and_congr_right fun _ => ?_
  by_cases hws : w = s
  · subst hws
    simp [alive, hs, Session.alive]
  · simp [hws]

theorem subscribed_onUnsubscribe {b : Broker ι} (h : b.Consistent) {s : ι}
    (hs : b.session s = .receiving) {event : Event ι}
    (hevent : event = .unregist s ∨ event = .disconnected s) (w : ι) (topic : UInt16) :
    w ∈ (b.onUnsubscribe s event).registry.entries topic ↔
      Subscribed (b.onUnsubscribe s event).handled w topic := by
  change _ ↔ Subscribed (b.handled ++ [event]) w topic
  rw [entries_onUnsubscribe hs, subscribed_append, h.subscribed]
  rcases hevent with rfl | rfl <;> simp [eq_comm]

/-- The other sessions fit without the one that has left. -/
theorem Consistent.fits_onUnsubscribe {b : Broker ι} (h : b.Consistent) {s : ι}
    (hs : b.session s = .receiving) (hlock : b.readers = []) {event : Event ι}
    (hevent : event = .unregist s ∨ event = .disconnected s) {w : ι} (hws : w ≠ s) :
    (b.onUnsubscribe s event).Fits w (b.session w) := by
  refine ⟨?_, ?_, (h.fits w).reading, ?_, ?_⟩
  · intro topic hw
    exact (h.fits w).serving topic ((entries_onUnsubscribe hs event w topic).mp hw).1
  · intro topic hw
    exact (entries_onUnsubscribe hs event w topic).mpr ⟨(h.fits w).acking topic hw, hws⟩
  · intro topic payload sentTo rest hw
    exact absurd hw (h.not_routing hlock w topic payload sentTo rest)
  · intro hmem
    change Event.disconnected w ∈ b.handled ++ [event] at hmem
    apply (h.fits w).gone
    rcases hevent with rfl | rfl <;> simpa [hws] using hmem

theorem Consistent.onUnregist {b : Broker ι} (h : b.Consistent) {s : ι}
    (hs : b.session s = .receiving) (hlock : b.readers = []) :
    (b.onUnsubscribe s (.unregist s)).Consistent := by
  refine ⟨subscribed_onUnsubscribe h hs (.inl rfl), fun w => ?_⟩
  change (b.onUnsubscribe s (.unregist s)).Fits w (b.session w)
  by_cases hws : w = s
  · subst hws
    rw [hs]
    have hgone := h.not_disconnected (s := w) (by simp [hs, Session.Gone])
    exact fits_receiving (by simpa [onUnsubscribe, log] using hgone)
  · exact h.fits_onUnsubscribe hs hlock (.inl rfl) hws

theorem Consistent.onDisconnect {b : Broker ι} (h : b.Consistent) {s : ι}
    (hs : b.session s = .receiving) (hlock : b.readers = []) :
    ((b.onUnsubscribe s (.disconnected s)).setSession s .leaving).Consistent := by
  refine consistent_setSession (subscribed_onUnsubscribe h hs (.inr rfl)) ?_ ?_
  · refine ⟨fun topic hmem => ?_, by simp, by simp, by simp, fun _ => trivial⟩
    exact absurd rfl ((entries_onUnsubscribe hs _ s topic).mp hmem).2
  · exact fun w hws => h.fits_onUnsubscribe hs hlock (.inr rfl) hws

theorem Consistent.onEvent {b : Broker ι} (h : b.Consistent) {s : ι}
    (hs : b.session s = .receiving) (topic : UInt16) (payload : Bytes) :
    (b.onEvent s topic payload).Consistent := by
  have hhandled : ∀ w, .disconnected w ∈ b.handled ++ [.data s topic payload] →
      .disconnected w ∈ b.handled := fun w hmem => by simpa using hmem
  refine consistent_setSession ?_ ?_ ?_
  · intro w topic'
    change w ∈ b.registry.entries topic' ↔
      Subscribed (b.handled ++ [.data s topic payload]) w topic'
    rw [subscribed_append, h.subscribed]
    simp
  · refine ⟨fun _ _ => trivial, by simp, fun _ _ _ _ _ => List.mem_cons_self, ?_, ?_⟩
    · intro topic' payload' sentTo rest hstage
      cases hstage
      rfl
    · exact fun hmem => absurd (hhandled s hmem) (h.not_disconnected (by simp [hs, Session.Gone]))
  · intro w _
    have hw := h.fits w
    refine ⟨hw.serving, hw.acking, ?_, hw.routing, fun hmem => hw.gone (hhandled w hmem)⟩
    exact fun topic' payload' sentTo rest hstage =>
      List.mem_cons_of_mem s (hw.reading topic' payload' sentTo rest hstage)

/-- A session at the end of its `route` gives the shared lock back. -/
theorem Consistent.routed {b : Broker ι} (h : b.Consistent) {s : ι} {topic : UInt16}
    {payload : Bytes} {sentTo : List ι} (hs : b.session s = .routing topic payload sentTo []) :
    ({ b with readers := b.readers.erase s }.setSession s .receiving).Consistent := by
  refine consistent_setSession h.subscribed ?_ fun w hws => ?_
  · exact fits_receiving (h.not_disconnected (by simp [hs, Session.Gone]))
  · have hw := h.fits w
    refine ⟨hw.serving, hw.acking, ?_, hw.routing, hw.gone⟩
    exact fun topic' payload' sentTo' rest hstage =>
      (List.mem_erase_of_ne hws).mpr (hw.reading topic' payload' sentTo' rest hstage)

/-! ## Every run -/

theorem Consistent.step {b b' : Broker ι} {a : Action ι} (h : b.Consistent)
    (hstep : b.step a = some b') : b'.Consistent := by
  obtain ⟨-, hrule⟩ := step_cases hstep
  cases hrule with
  | accept s hs =>
      exact h.setSession (fits_receiving (h.not_disconnected (by simp [hs, Session.Gone])))
  | abort s raw hs hraw => exact ⟨h.subscribed, fun w => ⟨(h.fits w).serving, (h.fits w).acking,
      (h.fits w).reading, (h.fits w).routing, (h.fits w).gone⟩⟩
  | regist s raw frame hs hraw htype hlock => exact h.onSubscribe hs hlock frame.topic
  | unregist s raw frame hs hraw htype hlock => exact h.onUnregist hs hlock
  | data s raw frame hs hraw htype => exact h.onEvent hs frame.topic frame.payload
  | ignore s raw frame hs hraw htype => exact h
  | acknowledge s topic hs =>
      have hgone : .disconnected s ∉ b.handled := h.not_disconnected (by simp [hs, Session.Gone])
      exact (h.send s _ s).setSession (fits_receiving hgone)
  | forward s topic payload sentTo weak rest hs halive =>
      refine (h.send weak _ s).setSession ⟨fun _ _ => trivial, by simp, ?_, ?_, ?_⟩
      · intro topic' payload' sentTo' rest' _
        exact (h.fits s).reading topic payload sentTo (weak :: rest) hs
      · intro topic' payload' sentTo' rest' hstage
        cases hstage
        rw [List.append_assoc]
        exact (h.fits s).routing topic payload sentTo (weak :: rest) hs
      · exact fun hmem => absurd hmem (h.not_disconnected (by simp [hs, Session.Gone]))
  | skip s topic payload sentTo weak rest hs halive =>
      exact absurd (h.alive_of_routing hs List.mem_cons_self) (by simp [halive])
  | routed s topic payload sentTo hs => exact h.routed hs
  | disconnect s hs hlock => exact h.onDisconnect hs hlock
  | release s hs =>
      refine h.setSession ⟨fun topic hmem => ?_, by simp, by simp, by simp, fun _ => trivial⟩
      have hserving := (h.fits s).serving topic hmem
      rw [hs] at hserving
      cases hserving

theorem Reachable.consistent {b : Broker ι} (h : (machine ι).Reachable b) : b.Consistent :=
  h.invariant consistent_init fun _ _ _ hb _ hstep => hb.step hstep

/-! ## One call of `route` -/

/-- The frames that the handlers of `s` have sent to `w`. -/
def sentBy (b : Broker ι) (s w : ι) : List (Delivery ι) :=
  (b.sent w).filter fun delivery => delivery.sender = s

theorem sentBy_send_self (b : Broker ι) (s w : ι) (frame : Bytes) :
    (b.send w frame s).sentBy s w = b.sentBy s w ++ [⟨frame, s⟩] := by
  simp [sentBy]

theorem sentBy_send_of_ne (b : Broker ι) {s w : ι} (v : ι) (frame : Bytes) (h : v ≠ w) :
    (b.send w frame s).sentBy s v = b.sentBy s v := by
  rw [sentBy, send_sent_of_ne b frame s h, sentBy]

theorem sentBy_send_of_sender_ne (b : Broker ι) {s sender : ι} (v w : ι) (frame : Bytes)
    (h : sender ≠ s) : (b.send w frame sender).sentBy s v = b.sentBy s v := by
  by_cases hvw : v = w
  · subst hvw
    simp [sentBy, h]
  · rw [sentBy, send_sent_of_ne b frame sender hvw, sentBy]

/-- The handler of a DATA frame starts a `route` through the present list of its topic. -/
theorem step_data {b b' : Broker ι} {s : ι} {raw : Bytes} {frame : Frame}
    (hraw : Frame.parse raw = some frame) (htype : frame.type = Frame.DATA)
    (hstep : b.step (.receive s raw) = some b') :
    b' = b.onEvent s frame.topic frame.payload := by
  obtain ⟨-, hrule⟩ := step_cases hstep
  cases hrule with
  | data s raw frame' hs hraw' htype' =>
      rw [hraw, Option.some.injEq] at hraw'
      rw [hraw']
  | abort s raw hs hraw' =>
      rw [hraw] at hraw'
      cases hraw'
  | regist s raw frame' hs hraw' htype' hlock | unregist s raw frame' hs hraw' htype' hlock =>
      rw [hraw, Option.some.injEq] at hraw'
      rw [← hraw', htype] at htype'
      exact absurd htype' (by decide)
  | ignore s raw _ hs hraw' htype' =>
      rw [hraw, Option.some.injEq] at hraw'
      exact absurd (hraw' ▸ htype) htype'.2.2

/-- While a session is in the loop of `route`, only its own next iteration changes its stage and
what it has sent. -/
theorem frame_of_routing {b b' : Broker ι} {s : ι} {topic : UInt16} {payload : Bytes}
    {sentTo rest : List ι} {a : Action ι} (hs : b.session s = .routing topic payload sentTo rest)
    (ha : a ≠ .forward s) (hstep : b.step a = some b') :
    b'.session s = b.session s ∧ ∀ w, b'.sentBy s w = b.sentBy s w := by
  obtain ⟨-, hrule⟩ := step_cases hstep
  cases hrule with
  | abort v raw hv hraw | ignore v raw frame hv hraw htype => exact ⟨rfl, fun _ => rfl⟩
  | unregist v raw frame hv hraw htype hlock => exact ⟨rfl, fun _ => rfl⟩
  | accept v hv | regist v raw frame hv hraw htype hlock | data v raw frame hv hraw htype
  | disconnect v hv hlock | release v hv =>
      have hne : s ≠ v := ne_of_apply_ne b.session (by simp [hs, hv])
      exact ⟨setSession_of_ne _ _ hne, fun _ => rfl⟩
  | acknowledge v topic' hv =>
      have hne : s ≠ v := ne_of_apply_ne b.session (by simp [hs, hv])
      exact ⟨setSession_of_ne _ _ hne, fun w => sentBy_send_of_sender_ne b w v _ hne.symm⟩
  | forward v topic' payload' sentTo' weak rest' hv halive =>
      have hne : s ≠ v := fun h => ha (by rw [h])
      exact ⟨setSession_of_ne _ _ hne, fun w => sentBy_send_of_sender_ne b w weak _ hne.symm⟩
  | skip v topic' payload' sentTo' weak rest' hv halive | routed v topic' payload' sentTo' hv =>
      have hne : s ≠ v := fun h => ha (by rw [h])
      exact ⟨setSession_of_ne _ _ hne, fun _ => rfl⟩

/-- An iteration of the loop in `route` sends one frame to the next session of the list. -/
theorem Consistent.step_forward {b : Broker ι} (h : b.Consistent) (hlive : b.aborted = false)
    {s weak : ι} {topic : UInt16} {payload : Bytes} {sentTo rest : List ι}
    (hs : b.session s = .routing topic payload sentTo (weak :: rest)) :
    b.step (.forward s) = some ((b.send weak (Frame.make topic Frame.DATA payload) s).setSession s
      (.routing topic payload (sentTo ++ [weak]) rest)) := by
  have halive := h.alive_of_routing hs List.mem_cons_self
  simp [Broker.step, hlive, Broker.forward, hs, halive]

/-- The loop of `route` in any interleaving: after `k` of its iterations, the first `k` sessions
of the list have been sent one frame for each time they are in it, and nobody anything else. -/
theorem Consistent.run_routing {b b' : Broker ι} (h : b.Consistent) {s : ι} {topic : UInt16}
    {payload : Bytes} {sentTo rest : List ι}
    (hs : b.session s = .routing topic payload sentTo rest) {actions : List (Action ι)}
    (hcount : actions.count (.forward s) ≤ rest.length)
    (hrun : (machine ι).run b actions = some b') :
    b'.session s = .routing topic payload (sentTo ++ rest.take (actions.count (.forward s)))
      (rest.drop (actions.count (.forward s))) ∧
    ∀ w, b'.sentBy s w = b.sentBy s w ++ List.replicate
      ((rest.take (actions.count (.forward s))).count w) ⟨Frame.make topic Frame.DATA payload, s⟩ := by
  induction actions generalizing b sentTo rest with
  | nil =>
      cases hrun
      simp [hs]
  | cons a actions ih =>
      obtain ⟨next, hstep, hrest⟩ := Machine.exists_of_run_cons hrun
      change b.step a = some next at hstep
      have hnext := h.step hstep
      by_cases ha : a = .forward s
      · subst ha
        rw [List.count_cons_self] at hcount ⊢
        cases rest with
        | nil => simp at hcount
        | cons weak rest =>
            rw [h.step_forward (step_cases hstep).1 hs, Option.some.injEq] at hstep
            subst hstep
            obtain ⟨hsession, hsent⟩ :=
              ih hnext (setSession_self _ s _) (by simpa using hcount) hrest
            refine ⟨by rw [hsession]; simp, fun w => ?_⟩
            rw [hsent w, List.take_succ_cons, List.count_cons]
            change (b.send weak _ s).sentBy s w ++ _ = _
            by_cases hw : weak = w
            · subst hw
              rw [sentBy_send_self]
              simp [List.replicate_succ]
            · rw [sentBy_send_of_ne _ _ _ (Ne.symm hw)]
              simp [hw]
      · rw [List.count_cons_of_ne ha] at hcount ⊢
        obtain ⟨hsession, hsent⟩ := frame_of_routing hs ha hstep
        obtain ⟨hsession', hsent'⟩ := ih hnext (hsession.trans hs) hcount hrest
        exact ⟨hsession', fun w => by rw [hsent' w, hsent w]⟩

/-! ## The registry is the subscription relation -/

/-- In every reachable state the registry is the subscription relation, and a session is in it
when its ACK goes out. From a DATA frame on, whatever else happens, each iteration of `route`
serves one more entry, up to all of them. -/
theorem routes_to_subscribers {b : Broker ι} (hb : (machine ι).Reachable b) :
    (∀ s topic, s ∈ b.registry.entries topic ↔ Subscribed b.handled s topic) ∧
    (∀ s topic, .disconnected s ∈ b.handled → s ∉ b.registry.entries topic) ∧
    (∀ s b', b.step (.acknowledge s) = some b' → ∃ topic,
      b'.sent s = b.sent s ++ [⟨Frame.make topic Frame.ACK [], s⟩] ∧
        Subscribed b'.handled s topic) ∧
    (∀ s topic payload sentTo weak rest, b.aborted = false →
      b.session s = .routing topic payload sentTo (weak :: rest) →
        (b.step (.forward s)).isSome) ∧
    ∀ s raw frame b₁ actions b₂, Frame.parse raw = some frame → frame.type = Frame.DATA →
      b.step (.receive s raw) = some b₁ → (machine ι).run b₁ actions = some b₂ →
      actions.count (.forward s) ≤ (b.registry.entries frame.topic).length →
        b₂.session s = .routing frame.topic frame.payload
          ((b.registry.entries frame.topic).take (actions.count (.forward s)))
          ((b.registry.entries frame.topic).drop (actions.count (.forward s))) ∧
        ∀ w, b₂.sentBy s w = b.sentBy s w ++ List.replicate
          (((b.registry.entries frame.topic).take (actions.count (.forward s))).count w)
          ⟨Frame.make frame.topic Frame.DATA frame.payload, s⟩ := by
  have h := Reachable.consistent hb
  refine ⟨h.subscribed, ?_, ?_, ?_, ?_⟩
  · intro s topic hgone hmem
    exact ((h.fits s).serving topic hmem).not_gone ((h.fits s).gone hgone)
  · intro s b' hstep
    obtain ⟨-, hrule⟩ := step_cases hstep
    cases hrule with
    | acknowledge s topic hs =>
        exact ⟨topic, send_sent_self b s _ s, (h.subscribed s topic).mp ((h.fits s).acking topic hs)⟩
  · intro s topic payload sentTo weak rest hlive hs
    rw [h.step_forward hlive hs]
    rfl
  · intro s raw frame b₁ actions b₂ hraw htype hstep hrun hcount
    have hb₁ := step_data hraw htype hstep
    subst hb₁
    exact (h.step hstep).run_routing (setSession_self _ s _) hcount hrun

/-- Session 0 has subscribed to topic 5 when session 1 publishes there. -/
theorem routes_to_subscribers_one :
    ∃ b b₁ b₂ : Broker (Fin 2),
      (machine (Fin 2)).run init [.accept 0, .accept 1,
        .receive 0 (Frame.make 5 Frame.REGIST []), .acknowledge 0] = some b ∧
      (0 ∈ b.registry.entries 5 ↔ Subscribed b.handled 0 5) ∧
      b.step (.receive 1 (Frame.make 5 Frame.DATA [7])) = some b₁ ∧
      (machine (Fin 2)).run b₁ [.forward 1] = some b₂ ∧
      b₂.sentBy 1 0 = [⟨Frame.make 5 Frame.DATA [7], 1⟩] := by
  obtain ⟨b, b₁, b₂, hb, hentries, hstep, hrun, hsent⟩ : ∃ b b₁ b₂ : Broker (Fin 2),
      (machine (Fin 2)).run init [.accept 0, .accept 1,
        .receive 0 (Frame.make 5 Frame.REGIST []), .acknowledge 0] = some b ∧
      b.registry.entries 5 = [0] ∧ b.step (.receive 1 (Frame.make 5 Frame.DATA [7])) = some b₁ ∧
      (machine (Fin 2)).run b₁ [.forward 1] = some b₂ ∧ b.sentBy 1 0 = [] :=
    ⟨_, _, _, rfl, by decide +kernel, rfl, rfl, by decide +kernel⟩
  have h := routes_to_subscribers (Machine.reachable_of_run hb)
  have hserved := h.2.2.2.2 1 _ ⟨5, Frame.DATA, [7]⟩ b₁ [.forward 1] b₂ (Frame.parse_make ..) rfl
    hstep hrun (by simp [hentries])
  refine ⟨b, b₁, b₂, hb, h.1 0 5, hstep, hrun, ?_⟩
  simpa [hentries, hsent] using hserved.2 0

end Broker

end CommonLib.AsyncEventBroker
