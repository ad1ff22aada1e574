import CommonLib.Verification.AsyncEventWire.Refinement

/-! # What arrives, byte by byte

The refinement carries the laws of the system of frames down to the sockets: nothing is forged,
repeated, reordered or taken across topics, and where the links have run dry nothing is missing. -/

namespace CommonLib

namespace AsyncEventBroker.Broker

variable {ι : Type*} [DecidableEq ι]

/-! ## Every DATA frame is of an event -/

/-- The session under way with an event was given it, and its list holds sessions that have
registered for the topic. -/
def Rooted (handled : List (Event ι)) (p : ι) : Session ι → Prop
  | .routing topic payload _ rest =>
      .data p topic payload ∈ handled ∧ ∀ s ∈ rest, .regist s topic ∈ handled
  | .absent | .receiving | .acking _ | .leaving | .expired => True

/-- A DATA frame was sent to `s` for an event of a topic for which `s` has registered. -/
structure Explained (b : Broker ι) : Prop where
  sent : ∀ s, ∀ delivery ∈ b.sent s, ∀ payload, dataPayload delivery.frame = some payload →
    ∃ topic, .regist s topic ∈ b.handled ∧ .data delivery.sender topic payload ∈ b.handled
  session : ∀ p, Rooted b.handled p (b.session p)

omit [DecidableEq ι] in
theorem explained_init : (init : Broker ι).Explained :=
  ⟨fun _ _ h => (by cases h), fun _ => trivial⟩

omit [DecidableEq ι] in
theorem Rooted.mono {handled handled' : List (Event ι)} {p : ι} {stage : Session ι}
    (h : Rooted handled p stage) (hsub : handled ⊆ handled') : Rooted handled' p stage := by
  cases stage with
  | routing topic payload sentTo rest =>
      exact ⟨hsub h.1, fun s hs => hsub (h.2 s hs)⟩
  | absent | receiving | acking _ | leaving | expired => trivial

omit [DecidableEq ι] in
/-- The log grows and the sockets are left alone. -/
theorem Explained.log {b b' : Broker ι} (h : b.Explained) (hsent : b'.sent = b.sent)
    (hsession : b'.session = b.session) (hhandled : b.handled ⊆ b'.handled) : b'.Explained := by
  refine ⟨fun s delivery hdelivery payload hpayload => ?_, fun p => ?_⟩
  · rw [hsent] at hdelivery
    obtain ⟨topic, hregist, hdata⟩ := h.sent s delivery hdelivery payload hpayload
    exact ⟨topic, hhandled hregist, hhandled hdata⟩
  · rw [hsession]
    exact (h.session p).mono hhandled

theorem Explained.setSession {b : Broker ι} (h : b.Explained) {s : ι} {stage : Session ι}
    (hstage : Rooted b.handled s stage) : (b.setSession s stage).Explained := by
  refine ⟨h.sent, fun p => ?_⟩
  by_cases hp : p = s
  · subst hp
    rw [setSession_self]
    exact hstage
  · rw [setSession_of_ne _ _ hp]
    exact h.session p

theorem Explained.send {b : Broker ι} (h : b.Explained) (s : ι) {frame : Bytes} {sender : ι}
    (hframe : ∀ payload, dataPayload frame = some payload →
      ∃ topic, .regist s topic ∈ b.handled ∧ .data sender topic payload ∈ b.handled) :
    (b.send s frame sender).Explained := by
  refine ⟨fun v delivery hdelivery payload hpayload => ?_, h.session⟩
  by_cases hv : v = s
  · subst hv
    rw [send_sent_self] at hdelivery
    rcases List.mem_append.mp hdelivery with hold | hnew
    · exact h.sent v delivery hold payload hpayload
    · rw [List.mem_singleton.mp hnew] at hpayload ⊢
      exact hframe payload hpayload
  · rw [send_sent_of_ne _ _ _ hv] at hdelivery
    exact h.sent v delivery hdelivery payload hpayload

omit [DecidableEq ι] in
theorem Consistent.regist_mem {b : Broker ι} (h : b.Consistent) {s : ι} {topic : UInt16}
    (hs : s ∈ b.registry.entries topic) : .regist s topic ∈ b.handled := by
  obtain ⟨before, after, heq, -⟩ := (h.subscribed s topic).mp hs
  simp [heq]

theorem Explained.step {b b' : Broker ι} {a : Action ι} (h : b.Explained) (hb : b.Consistent)
    (hstep : b.step a = some b') : b'.Explained := by
  obtain ⟨-, hrule⟩ := step_cases hstep
  cases hrule with
  | accept s hs => exact h.setSession trivial
  | abort s raw hs hraw => exact h.log rfl rfl (List.Subset.refl _)
  | regist s raw frame hs hraw htype hlock =>
      have hlog : Explained ({ b with registry := b.registry.regist frame.topic s }.log
          (.regist s frame.topic)) := h.log rfl rfl (List.subset_append_left _ _)
      exact hlog.setSession trivial
  | unregist s raw frame hs hraw htype hlock =>
      exact h.log rfl rfl (List.subset_append_left _ _)
  | data s raw frame hs hraw htype =>
      have hlog : Explained ({ b with readers := s :: b.readers }.log
          (.data s frame.topic frame.payload)) := h.log rfl rfl (List.subset_append_left _ _)
      refine hlog.setSession ⟨List.mem_append_right _ (List.mem_singleton_self _), ?_⟩
      intro weak hweak
      exact List.mem_append_left _ (hb.regist_mem hweak)
  | ignore s raw frame hs hraw htype => exact h
  | acknowledge s topic hs =>
      have hsend : (b.send s (Frame.make topic Frame.ACK []) s).Explained := by
        refine h.send s ?_
        intro payload hpayload
        simp [dataPayload_make] at hpayload
      exact hsend.setSession trivial
  | forward s topic payload sentTo weak rest hs halive =>
      have hroot := h.session s
      rw [hs] at hroot
      obtain ⟨hdata, hregist⟩ := hroot
      have hsend : (b.send weak (Frame.make topic Frame.DATA payload) s).Explained := by
        refine h.send weak ?_
        intro payload' hpayload
        rw [dataPayload_data, Option.some.injEq] at hpayload
        exact ⟨topic, hregist weak List.mem_cons_self, hpayload ▸ hdata⟩
      exact hsend.setSession ⟨hdata, fun v hv => hregist v (List.mem_cons_of_mem _ hv)⟩
  | skip s topic payload sentTo weak rest hs halive =>
      have hroot := h.session s
      rw [hs] at hroot
      exact h.setSession ⟨hroot.1, fun v hv => hroot.2 v (List.mem_cons_of_mem _ hv)⟩
  | routed s topic payload sentTo hs =>
      have hlock : Explained { b with readers := b.readers.erase s } :=
        h.log rfl rfl (List.Subset.refl _)
      exact hlock.setSession trivial
  | disconnect s hs hlock =>
      have hlog : (b.onUnsubscribe s (.disconnected s)).Explained :=
        h.log rfl rfl (List.subset_append_left _ _)
      exact hlog.setSession trivial
  | release s hs => exact h.setSession trivial

theorem Reachable.explained {b : Broker ι} (h : (machine ι).Reachable b) : b.Explained :=
  h.invariant_of (Q := Consistent) (fun _ hb => Reachable.consistent hb) explained_init
    fun _ _ _ hb hexplained _ hstep => hexplained.step hb hstep

end AsyncEventBroker.Broker

namespace AsyncEventTransport

open AsyncTcp AsyncEventBroker

variable {ι : Type*} [DecidableEq ι]

namespace System

/-! ## Frames -/

/-- A subscriber registers for the topic it was made for. -/
theorem Coherent.topic_of_regist {topic : ι → UInt16} {w : System ι} (h : w.Coherent topic) {c : ι}
    {topic' : UInt16} (hmem : .regist c topic' ∈ w.broker.handled) : topic' = topic c := by
  obtain ⟨raw, hraw, heq⟩ := exists_frame (h.served c) hmem (by simp [Event.isFrameOf])
  rcases eventOf_of_faithful (h.client c) (c := c) (List.mem_of_mem_take hraw) with
    ⟨-, he⟩ | ⟨payload, he⟩
  · rw [he] at heq
    cases heq
    rfl
  · rw [he] at heq
    cases heq

/-- A message comes from a transport with the topic of the receiver. -/
theorem Coherent.topic_of_message {topic : ι → UInt16} {w : System ι} (h : w.Coherent topic)
    (hb : w.broker.Explained) {s : ι} {message : ι × Bytes}
    (hmem : message ∈ (w.client s).received) : topic message.1 = topic s := by
  rw [h.received s] at hmem
  obtain ⟨delivery, hdelivery, hmessage⟩ := List.mem_filterMap.mp hmem
  obtain ⟨payload, hpayload, rfl⟩ := Option.map_eq_some_iff.mp hmessage
  obtain ⟨topic', hregist, hdata⟩ :=
    hb.sent s delivery (List.mem_of_mem_take hdelivery) payload hpayload
  have hsender : topic' = topic delivery.sender :=
    topic_of_data (h.client _) (h.served _) hdata
  exact hsender.symm.trans (h.topic_of_regist hregist)

/-- What has arrived from a transport of the same topic is a first part of its window. -/
theorem Coherent.messages_prefix {topic : ι → UInt16} {w : System ι} (h : w.Coherent topic)
    {s p : ι} (htopic : topic p = topic s) :
    messagesFrom (w.client s) p <+: window s p (topic s) w.broker.handled := by
  have howes := h.owes s p htopic
  rw [Broker.Owes, ← List.take_append_drop (w.down s) (w.broker.sent s), payloadsFrom_append,
    List.append_assoc] at howes
  rw [messagesFrom_eq (h.received s), ← howes]
  exact List.prefix_append _ _

theorem Coherent.published {topic : ι → UInt16} {w : System ι} (h : w.Coherent topic) (p : ι) :
    w.broker.handled.filterMap (publishedBy p) =
      ((w.client p).sent.take (w.up p)).filterMap dataPayload := by
  rw [filterMap_publishedBy, h.served, List.filterMap_filterMap]
  exact List.filterMap_congr fun raw _ => bind_eventOf p raw

/-- What has arrived from a transport are payloads given to its `publish`, in that order and none
of them twice. -/
theorem Coherent.messages_sublist {topic : ι → UInt16} {w : System ι} (h : w.Coherent topic)
    (hb : w.broker.Explained) (s p : ι) :
    (messagesFrom (w.client s) p).Sublist (w.client p).posted := by
  by_cases htopic : topic p = topic s
  · have hwindow : (window s p (topic s) w.broker.handled).Sublist
        (w.broker.handled.filterMap (publishedBy p)) := (between_sublist _ _ _).filterMap _
    have hran : (w.broker.handled.filterMap (publishedBy p)).Sublist (w.client p).ran := by
      rw [h.published p, ← (h.client p).payloads]
      exact (List.take_sublist _ _).filterMap _
    have hposted : (w.client p).ran.Sublist (w.client p).posted :=
      (List.sublist_append_left _ _).trans (h.client p).order
    exact (h.messages_prefix htopic).sublist.trans (hwindow.trans (hran.trans hposted))
  · have hnone : messagesFrom (w.client s) p = [] := by
      refine List.filterMap_eq_nil_iff.mpr fun message hmessage => ?_
      refine if_neg fun hp => htopic ?_
      rw [← hp]
      exact h.topic_of_message hb hmessage
    rw [hnone]
    exact List.nil_sublist _

/-- Where nothing is left on the links or in the session of `p`, its whole window has arrived. -/
theorem Coherent.messages_eq {topic : ι → UInt16} {w : System ι} (h : w.Coherent topic)
    {s p : ι} (htopic : topic p = topic s) (hdown : w.down s = (w.broker.sent s).length)
    (hidle : w.broker.pending s p = []) :
    messagesFrom (w.client s) p = window s p (topic s) w.broker.handled := by
  have howes := h.owes s p htopic
  rw [Broker.Owes, hidle, List.append_nil] at howes
  rw [messagesFrom_eq (h.received s), hdown, List.take_length]
  exact howes

end System

namespace Link

/-- Everything that was sent over the link has been read. -/
structure Dry (l : Link) : Prop where
  ahead : l.ahead = []
  phase : l.phase = .header

theorem Carries.of_dry {order : ByteOrder} {messages : List Bytes} {n : ℕ} {l : Link}
    (h : l.Carries order messages n) (hdry : l.Dry) : n = messages.length := by
  have hexpects := h.expects
  rw [hdry.phase, hdry.ahead] at hexpects
  change [] = sendAll order (messages.drop n) at hexpects
  refine le_antisymm h.count ?_
  by_contra hlt
  rw [List.drop_eq_getElem_cons (Nat.lt_of_not_le hlt), sendAll_cons] at hexpects
  have hlength := congrArg List.length hexpects
  rw [List.length_append, length_sendBuffer, List.length_nil] at hlength
  omega

end Link

namespace Wire

/-! ## The wired system -/

/-- Every state of the wired system is one of the system of frames, and its links carry the
frames that this system has under way: the same transports, the same broker. -/
theorem refines_frames {order : ByteOrder} {topic : ι → UInt16} {w : Wire ι}
    (h : (machine order topic).Reaches Orderly w) :
    ∃ s, (System.machine topic).Reachable s ∧ s.broker = w.broker ∧
      ∀ c, w.client c = (s.client c).erase ∧
        (w.up c).Carries order (w.client c).sent (s.up c) ∧
        (w.down c).Carries order ((w.broker.sent c).map Delivery.frame) (s.down c) := by
  obtain ⟨s, hs, hw⟩ := Reaches.represents h
  refine ⟨s, hs, hw.broker.symm, fun c => ⟨hw.client c, ?_, ?_⟩⟩
  · rw [hw.client c]
    exact hw.up c
  · rw [hw.broker]
    exact hw.down c

/-- One event from client 1 to client 0, its bytes in several pieces. -/
def oneEvent : List (WireAction (Fin 2)) :=
  [.client 0 (.connect true), .client 0 .onConnected, .client 0 .regist, .up 0 (.accept 0 7),
    .up 0 (.arrive 5), .broker (.accept 0), .serve 0, .up 0 (.arrive 2), .serve 0,
    .broker (.acknowledge 0), .down 0 (.accept 0 3), .down 0 (.accept 0 4), .down 0 (.arrive 7),
    .take 0, .take 0, .client 1 (.connect false), .client 1 .onConnected,
    .client 1 (.publish [7]), .client 1 .runTask, .broker (.accept 1), .up 1 (.accept 0 8),
    .up 1 (.arrive 8), .serve 1, .serve 1, .broker (.forward 1), .broker (.forward 1),
    .down 0 (.accept 1 8), .down 0 (.arrive 8), .take 0, .take 0]

theorem refines_frames_one :
    ∃ w : Wire (Fin 2), (machine .little fun _ => 5).run init oneEvent = some w ∧
      (w.client 0).received = [((), [7])] ∧
      ∃ s : System (Fin 2), (System.machine fun _ => 5).Reachable s ∧
        (s.client 0).received.map Prod.snd = [[7]] := by
  obtain ⟨w, hrun, hmeets, hreceived⟩ : ∃ w : Wire (Fin 2),
      (machine .little fun _ => 5).run init oneEvent = some w ∧
      (machine .little fun _ => 5).Meets Orderly init oneEvent ∧
      (w.client 0).received = [((), [7])] :=
    ⟨_, rfl, by decide +kernel, by decide +kernel⟩
  obtain ⟨s, hs, -, hclient⟩ := refines_frames (Machine.Reaches.init.run_of_meets hmeets hrun)
  refine ⟨w, hrun, hreceived, s, hs, ?_⟩
  have herased := congrArg (fun c => c.received.map Prod.snd) (hclient 0).1
  simp only [hreceived, Client.erase, List.map_map] at herased
  exact herased.symm

/-- The payloads of the messages from `p`. -/
def payloadsOf (p : ι) (messages : List (ι × Bytes)) : List Bytes :=
  messages.filterMap fun message => if message.1 = p then some message.2 else none

/-- What `onMessage` of a subscriber was called with is a merge of parts of what the transports
of its topic were given to publish: no message is made up, doubled, moved before an earlier one
of the same transport, or brought over from another topic. -/
theorem received_from_posted {order : ByteOrder} {topic : ι → UInt16} {w : Wire ι}
    (h : (machine order topic).Reaches Orderly w) (s : ι) :
    ∃ messages : List (ι × Bytes),
      (w.client s).received.map Prod.snd = messages.map Prod.snd ∧
      (∀ message ∈ messages, topic message.1 = topic s) ∧
      ∀ p, (payloadsOf p messages).Sublist (w.client p).posted := by
  obtain ⟨t, ht, hw⟩ := Reaches.represents h
  have hcoherent := System.Reachable.coherent ht
  have hexplained := Broker.Reachable.explained (System.Reachable.broker ht)
  refine ⟨(t.client s).received, ?_, fun message hmessage => ?_, fun p => ?_⟩
  · rw [hw.client s]
    simp [Client.erase]
  · exact hcoherent.topic_of_message hexplained hmessage
  · rw [hw.client p]
    exact hcoherent.messages_sublist hexplained s p

theorem received_from_posted_one :
    ∃ w : Wire (Fin 2), (machine .little fun _ => 5).run init oneEvent = some w ∧
      ∃ messages : List (Fin 2 × Bytes), messages.map Prod.snd = [[7]] ∧
        ∀ p, (payloadsOf p messages).Sublist (w.client p).posted := by
  obtain ⟨w, hrun, hmeets, hreceived⟩ : ∃ w : Wire (Fin 2),
      (machine .little fun _ => 5).run init oneEvent = some w ∧
      (machine .little fun _ => 5).Meets Orderly init oneEvent ∧
      (w.client 0).received = [((), [7])] :=
    ⟨_, rfl, by decide +kernel, by decide +kernel⟩
  obtain ⟨messages, hmessages, -, hposted⟩ :=
    received_from_posted (Machine.Reaches.init.run_of_meets hmeets hrun) 0
  rw [hreceived] at hmessages
  exact ⟨w, hrun, messages, hmessages.symm, hposted⟩

/-- Where the receive loop of a subscriber has read its link dry, what it has from a transport of
its topic whose own link is dry and whose session is not busy with an event is everything that
this transport published between the REGIST of the subscriber and its removal. -/
theorem nothing_missing {order : ByteOrder} {topic : ι → UInt16} {w : Wire ι}
    (h : (machine order topic).Reaches Orderly w) {s : ι} (hdown : (w.down s).Dry) :
    ∃ messages : List (ι × Bytes),
      (w.client s).received.map Prod.snd = messages.map Prod.snd ∧
      ∀ p, topic p = topic s → (w.up p).Dry → w.broker.session p = .receiving →
        payloadsOf p messages = window s p (topic s) w.broker.handled ∧
        w.broker.handled.filterMap (publishedBy p) = (w.client p).ran := by
  obtain ⟨t, ht, hw⟩ := Reaches.represents h
  have hcoherent := System.Reachable.coherent ht
  refine ⟨(t.client s).received, ?_, fun p htopic hup hidle => ⟨?_, ?_⟩⟩
  · rw [hw.client s]
    simp [Client.erase]
  · have hread : t.down s = (t.broker.sent s).length := by
      simpa using (hw.down s).of_dry hdown
    have hpending : t.broker.pending s p = [] := by
      rw [hw.broker] at hidle
      exact Broker.pending_eq_nil (by simp [hidle])
    rw [hw.broker]
    exact hcoherent.messages_eq htopic hread hpending
  · have hserved : t.up p = (t.client p).sent.length := (hw.up p).of_dry hup
    rw [hw.broker, hcoherent.published p, hserved, List.take_length,
      (hcoherent.client p).payloads, hw.client p]
    rfl

theorem nothing_missing_one :
    ∃ w : Wire (Fin 2), (machine .little fun _ => 5).run init oneEvent = some w ∧
      ∃ messages : List (Fin 2 × Bytes), messages.map Prod.snd = [[7]] ∧
        payloadsOf 1 messages = [[7]] ∧ (w.client 1).ran = [[7]] := by
  obtain ⟨w, hrun, hmeets, hreceived, hdown, hup, hidle, hwindow, hran⟩ : ∃ w : Wire (Fin 2),
      (machine .little fun _ => 5).run init oneEvent = some w ∧
      (machine .little fun _ => 5).Meets Orderly init oneEvent ∧
      (w.client 0).received = [((), [7])] ∧
      ((w.down 0).ahead = [] ∧ (w.down 0).phase = .header) ∧
      ((w.up 1).ahead = [] ∧ (w.up 1).phase = .header) ∧
      w.broker.session 1 = .receiving ∧ window 0 1 5 w.broker.handled = [[7]] ∧
      (w.client 1).ran = [[7]] :=
    ⟨_, rfl, by decide +kernel, by decide +kernel, by decide +kernel, by decide +kernel,
      by decide +kernel, by decide +kernel, by decide +kernel⟩
  obtain ⟨messages, hmessages, hall⟩ :=
    nothing_missing (Machine.Reaches.init.run_of_meets hmeets hrun) ⟨hdown.1, hdown.2⟩
  rw [hreceived] at hmessages
  have hwhole := (hall 1 rfl ⟨hup.1, hup.2⟩ hidle).1
  exact ⟨w, hrun, messages, hmessages.symm, hwhole.trans hwindow, hran⟩

end Wire

end AsyncEventTransport

end CommonLib
