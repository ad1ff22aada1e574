import CommonLib.Verification.AsyncEventTransport.Delivery
import CommonLib.Verification.AsyncEventWire.Link

/-! # The system on its sockets refines the system of frames

Bytes in flight, partial reads and length headers are invisible from above: where the writes of
a socket do not overlap, every state of the wired system shows a state of the system whose links
are FIFOs of whole frames. -/

namespace CommonLib

theorem Frame.length_make (topic : UInt16) (type : UInt8) (payload : Bytes) :
    (make topic type payload).length = payload.length + 3 := rfl

theorem Frame.length_of_parse {raw : Bytes} {frame : Frame} (h : parse raw = some frame) :
    raw.length = frame.payload.length + 3 := by
  match raw, h with
  | _ :: _ :: _ :: _, h =>
      cases h
      rfl

namespace AsyncEventBroker

variable {ι : Type*}

/-! ## Frames that fit in the length header -/

def Session.Short : Session ι → Prop
  | routing _ payload _ _ => payload.length + 3 < 2 ^ 32
  | absent | receiving | acking _ | leaving | expired => True

namespace Broker

/-- Every frame that was sent fits, and so does every payload that is still to be sent. -/
structure Short (b : Broker ι) : Prop where
  sent : ∀ s, ∀ delivery ∈ b.sent s, delivery.frame.length < 2 ^ 32
  session : ∀ s, (b.session s).Short

theorem short_init : (init : Broker ι).Short :=
  ⟨fun _ _ h => (by cases h), fun _ => trivial⟩

variable [DecidableEq ι]

theorem Short.setSession {b : Broker ι} (h : b.Short) (s : ι) {stage : Session ι}
    (hstage : stage.Short) : (b.setSession s stage).Short := by
  refine ⟨h.sent, fun v => ?_⟩
  by_cases hv : v = s
  · subst hv
    rw [setSession_self]
    exact hstage
  · rw [setSession_of_ne _ _ hv]
    exact h.session v

theorem Short.send {b : Broker ι} (h : b.Short) (s : ι) {frame : Bytes}
    (hframe : frame.length < 2 ^ 32) (sender : ι) : (b.send s frame sender).Short := by
  refine ⟨fun v delivery hdelivery => ?_, h.session⟩
  by_cases hv : v = s
  · subst hv
    rw [send_sent_self] at hdelivery
    rcases List.mem_append.mp hdelivery with hold | hnew
    · exact h.sent v delivery hold
    · rw [List.mem_singleton.mp hnew]
      exact hframe
  · rw [send_sent_of_ne _ _ _ hv] at hdelivery
    exact h.sent v delivery hdelivery

theorem Short.step {b b' : Broker ι} {a : Action ι} (h : b.Short)
    (hraw : ∀ s raw, a = .receive s raw → raw.length < 2 ^ 32) (hstep : b.step a = some b') :
    b'.Short := by
  obtain ⟨-, hrule⟩ := step_cases hstep
  cases hrule with
  | accept s hs => exact h.setSession s trivial
  | abort s raw hs hparse => exact ⟨h.sent, h.session⟩
  | regist s raw frame hs hparse htype hlock =>
      have hlog : Short ({ b with registry := b.registry.regist frame.topic s }.log
          (.regist s frame.topic)) := ⟨h.sent, h.session⟩
      exact hlog.setSession s trivial
  | unregist s raw frame hs hparse htype hlock => exact ⟨h.sent, h.session⟩
  | data s raw frame hs hparse htype =>
      have hlog : Short ({ b with readers := s :: b.readers }.log
          (.data s frame.topic frame.payload)) := ⟨h.sent, h.session⟩
      have hpayload : frame.payload.length + 3 < 2 ^ 32 :=
        Frame.length_of_parse hparse ▸ hraw s raw rfl
      exact hlog.setSession s hpayload
  | ignore s raw frame hs hparse htype => exact h
  | acknowledge s topic hs =>
      have hframe : (Frame.make topic Frame.ACK []).length < 2 ^ 32 := by
        rw [Frame.length_make]
        decide
      exact (h.send s hframe s).setSession s trivial
  | forward s topic payload sentTo weak rest hs halive =>
      have hpayload : payload.length + 3 < 2 ^ 32 := by
        have hstage := h.session s
        rw [hs] at hstage
        exact hstage
      exact (h.send weak (Frame.length_make topic Frame.DATA payload ▸ hpayload) s).setSession s
        hpayload
  | skip s topic payload sentTo weak rest hs halive =>
      have hpayload : payload.length + 3 < 2 ^ 32 := by
        have hstage := h.session s
        rw [hs] at hstage
        exact hstage
      exact h.setSession s hpayload
  | routed s topic payload sentTo hs =>
      have hlock : Short { b with readers := b.readers.erase s } := ⟨h.sent, h.session⟩
      exact hlock.setSession s trivial
  | disconnect s hs hlock =>
      have hlog : Short (b.onUnsubscribe s (.disconnected s)) := ⟨h.sent, h.session⟩
      exact hlog.setSession s trivial
  | release s hs => exact h.setSession s trivial

end Broker

end AsyncEventBroker

namespace AsyncEventTransport

open AsyncTcp AsyncEventBroker

variable {ι : Type*}

/-! ## Clients that do not know the senders -/

namespace Client

/-- The client with the names of the senders forgotten. -/
def erase (c : Client ι) : Client Unit :=
  ⟨c.stage, c.socket, c.connected, c.strand, c.listening, c.sent,
    c.received.map fun message => ((), message.2), c.posted, c.ran⟩

theorem perform_erase (topic : UInt16) (c : Client ι) (a : ClientAction) :
    c.erase.perform topic a = (c.perform topic a).map erase := by
  cases a with
  | connect subscriber =>
      by_cases hsocket : c.socket <;> by_cases hfresh : c.stage = .fresh <;>
        simp [perform, connect, erase, hsocket, hfresh]
  | onConnected =>
      simp only [perform, onConnected, erase]
      split <;> rfl
  | regist =>
      by_cases hready : c.stage = .registering ∧ c.socket <;> simp [perform, regist, erase, hready]
  | publish payload | disconnect => rfl
  | runTask =>
      cases hstrand : c.strand with
      | nil => simp [perform, runTask, erase, hstrand]
      | cons task rest =>
          cases task with
          | publish payload =>
              by_cases hconnected : c.connected <;> by_cases hsocket : c.socket <;>
                simp [perform, runTask, erase, hstrand, hconnected, hsocket]
          | disconnect =>
              by_cases hsocket : c.socket <;> simp [perform, runTask, erase, hstrand, hsocket]

theorem receive_erase (c : Client ι) (delivery : Delivery ι) :
    c.erase.receive ⟨delivery.frame, ()⟩ = (c.receive delivery).map erase := by
  have hexit : ((handlers ()).onReceive c.erase.received delivery.frame).exit =
      ((handlers delivery.sender).onReceive c.received delivery.frame).exit := by
    simp only [UserHandlers.onReceive, handlers]
    split
    · rfl
    · split_ifs <;> rfl
  simp only [receive, onReceive_received, hexit]
  by_cases hlistening : c.listening
  · cases hpayload : dataPayload delivery.frame <;> simp [erase, hlistening]
  · simp [erase, hlistening]

theorem perform_moves {topic : UInt16} {c c' : Client ι} {a : ClientAction}
    (h : c.perform topic a = some c') : Moves topic c c' := by
  cases a with
  | connect subscriber => exact .connect subscriber h
  | onConnected => exact .onConnected h
  | regist => exact .regist h
  | publish payload => exact .publish payload (Option.some.inj h)
  | disconnect => exact .disconnect (Option.some.inj h)
  | runTask => exact .runTask h

/-- Nothing but `publish` adds to what was posted. -/
theorem perform_posted {topic : UInt16} {c c' : Client ι} {a : ClientAction}
    (h : c.perform topic a = some c') :
    ∀ payload ∈ c'.posted, payload ∈ c.posted ∨ a = .publish payload := by
  intro payload hmem
  cases a with
  | connect subscriber =>
      simp only [perform, connect] at h
      split_ifs at h <;> cases h <;> exact .inl hmem
  | onConnected =>
      simp only [perform, onConnected] at h
      split at h <;> cases h <;> exact .inl hmem
  | regist =>
      simp only [perform, regist] at h
      split_ifs at h
      cases h
      exact .inl hmem
  | publish payload' =>
      cases h
      rcases List.mem_append.mp hmem with hold | hnew
      · exact .inl hold
      · exact .inr (congrArg _ (List.mem_singleton.mp hnew).symm)
  | disconnect =>
      cases h
      exact .inl hmem
  | runTask =>
      simp only [perform, runTask] at h
      split at h
      · cases h
      · split_ifs at h <;> cases h <;> exact .inl hmem
      · split_ifs at h <;> cases h <;> exact .inl hmem

/-- What a transport puts on its link fits when what was posted does. -/
theorem Faithful.short {topic : UInt16} {c : Client ι} (h : c.Faithful topic)
    (hposted : ∀ payload ∈ c.posted, payload.length + 3 < 2 ^ 32) {raw : Bytes}
    (hraw : raw ∈ c.sent) : raw.length < 2 ^ 32 := by
  rcases h.frames raw hraw with rfl | ⟨payload, rfl⟩
  · rw [Frame.length_make]
    decide
  · rw [Frame.length_make]
    refine hposted payload (h.order.mem (List.mem_append_left _ ?_))
    rw [← h.payloads]
    exact List.mem_filterMap.mpr ⟨_, hraw, dataPayload_data topic payload⟩

end Client

/-! ## The simulation -/

namespace Wire

variable [DecidableEq ι]

/-- No payload is too long for the length header, and every socket works off its writes in the
order in which they were started. -/
def Orderly (w : Wire ι) : WireAction ι → Prop
  | .client _ (.publish payload) => payload.length + 3 < 2 ^ 32
  | .up c (.accept i _) => (w.up c).sender.InTurn i
  | .down c (.accept i _) => (w.down c).sender.InTurn i
  | .client .. | .up .. | .down .. | .broker _ | .take _ | .serve _ => True

instance (w : Wire ι) (a : WireAction ι) : Decidable (w.Orderly a) := by
  unfold Orderly Sender.InTurn
  split <;> infer_instance

/-- The wired system shows the state `s`. -/
structure Represents (order : ByteOrder) (w : Wire ι) (s : System ι) : Prop where
  client : ∀ c, w.client c = (s.client c).erase
  broker : w.broker = s.broker
  up : ∀ c, (w.up c).Carries order (s.client c).sent (s.up c)
  down : ∀ c, (w.down c).Carries order ((s.broker.sent c).map Delivery.frame) (s.down c)
  posted : ∀ c, ∀ payload ∈ (s.client c).posted, payload.length + 3 < 2 ^ 32
  short : s.broker.Short

omit [DecidableEq ι] in
theorem represents_init (order : ByteOrder) : (init : Wire ι).Represents order .init where
  client _ := rfl
  broker := rfl
  up _ := Link.carries_init order
  down _ := Link.carries_init order
  posted _ _ h := by cases h
  short := Broker.short_init

/-! ### Parts of a step -/

theorem Represents.setUp {order : ByteOrder} {w : Wire ι} {s : System ι}
    (h : w.Represents order s) {c : ι} {l : Link} {n : ℕ}
    (hl : l.Carries order (s.client c).sent n) :
    (w.setUp c l).Represents order { s with up := Function.update s.up c n } := by
  refine ⟨h.client, h.broker, fun v => ?_, h.down, h.posted, h.short⟩
  by_cases hv : v = c
  · subst hv
    simpa [Wire.setUp] using hl
  · simpa [Wire.setUp, hv] using h.up v

theorem Represents.setDown {order : ByteOrder} {w : Wire ι} {s : System ι}
    (h : w.Represents order s) {c : ι} {l : Link} {n : ℕ}
    (hl : l.Carries order ((s.broker.sent c).map Delivery.frame) n) :
    (w.setDown c l).Represents order { s with down := Function.update s.down c n } := by
  refine ⟨h.client, h.broker, h.up, fun v => ?_, h.posted, h.short⟩
  by_cases hv : v = c
  · subst hv
    simpa [Wire.setDown] using hl
  · simpa [Wire.setDown, hv] using h.down v

/-- Silent work on a link. -/
theorem Represents.setUp_same {order : ByteOrder} {w : Wire ι} {s : System ι}
    (h : w.Represents order s) {c : ι} {l : Link}
    (hl : l.Carries order (s.client c).sent (s.up c)) : (w.setUp c l).Represents order s := by
  have hset := h.setUp hl
  rw [Function.update_eq_self] at hset
  exact hset

theorem Represents.setDown_same {order : ByteOrder} {w : Wire ι} {s : System ι}
    (h : w.Represents order s) {c : ι} {l : Link}
    (hl : l.Carries order ((s.broker.sent c).map Delivery.frame) (s.down c)) :
    (w.setDown c l).Represents order s := by
  have hset := h.setDown hl
  rw [Function.update_eq_self] at hset
  exact hset

omit [DecidableEq ι] in
theorem append_drop_eq {α : Type*} {l l' : List α} (h : l <+: l') :
    l ++ l'.drop l.length = l' := by
  obtain ⟨rest, rfl⟩ := h
  rw [List.drop_left]

/-- A client moves on, and what it adds to its log is sent. -/
theorem Represents.setClient {order : ByteOrder} {w : Wire ι} {s : System ι}
    (h : w.Represents order s) {c : ι} {client : Client ι}
    (hsent : (s.client c).sent <+: client.sent)
    (hposted : ∀ payload ∈ client.posted, payload.length + 3 < 2 ^ 32) :
    (w.setClient order c client.erase).Represents order (s.setClient c client) where
  client v := by
    by_cases hv : v = c
    · subst hv
      simp [Wire.setClient]
    · rw [System.setClient_of_ne _ _ hv]
      simpa [Wire.setClient, hv] using h.client v
  broker := h.broker
  up v := by
    by_cases hv : v = c
    · subst hv
      have hlog := (h.up v).send (client.sent.drop (s.client v).sent.length)
      rw [append_drop_eq hsent] at hlog
      have hlength : (w.client v).sent.length = (s.client v).sent.length := by
        rw [h.client v]
        rfl
      simpa [Wire.setClient, hlength, Client.erase, System.setClient] using hlog
    · rw [System.setClient_of_ne _ _ hv]
      simp only [Wire.setClient, Function.update_of_ne hv]
      exact h.up v
  down := h.down
  posted v := by
    by_cases hv : v = c
    · subst hv
      rw [System.setClient_self]
      exact hposted
    · rw [System.setClient_of_ne _ _ hv]
      exact h.posted v
  short := h.short

/-- The broker moves on, and what it adds to its logs is sent. -/
theorem Represents.setBroker {order : ByteOrder} {w : Wire ι} {s : System ι}
    (h : w.Represents order s) {a : AsyncEventBroker.Action ι} {b : Broker ι}
    (hstep : s.broker.step a = some b)
    (hraw : ∀ v raw, a = .receive v raw → raw.length < 2 ^ 32) :
    (w.setBroker order b).Represents order { s with broker := b } where
  client := h.client
  broker := rfl
  up := h.up
  down v := by
    have hlog := (h.down v).send (((b.sent v).drop (s.broker.sent v).length).map Delivery.frame)
    rw [← List.map_append, append_drop_eq (Broker.sent_prefix_step hstep v)] at hlog
    simp only [Wire.setBroker, h.broker]
    exact hlog
  posted := h.posted
  short := h.short.step hraw hstep

/-! ### The steps -/

/-- What a step of the wired system looks like from above. -/
def Shown (order : ByteOrder) (topic : ι → UInt16) (s : System ι) (w' : Wire ι) : Prop :=
  w'.Represents order s ∨ ∃ a s', s.step topic a = some s' ∧ w'.Represents order s'

/-- The action of the system that a client performs. -/
def actionOf (c : ι) : ClientAction → SystemAction ι
  | .connect false => .connect c
  | .connect true => .subscribe c
  | .onConnected => .onConnected c
  | .regist => .regist c
  | .publish payload => .publish c payload
  | .disconnect => .disconnect c
  | .runTask => .runTask c

theorem step_actionOf (topic : ι → UInt16) (s : System ι) (c : ι) (a : ClientAction) :
    s.step topic (actionOf c a) = ((s.client c).perform (topic c) a).map (s.setClient c) := by
  cases a with
  | connect subscriber => cases subscriber <;> rfl
  | onConnected | regist | publish | disconnect | runTask => rfl

theorem Represents.perform {order : ByteOrder} {topic : ι → UInt16} {w w' : Wire ι} {s : System ι}
    (h : w.Represents order s) {c : ι} {a : ClientAction} (hok : w.Orderly (.client c a))
    (hstep : w.step order topic (.client c a) = some w') : Shown order topic s w' := by
  obtain ⟨erased, herased, rfl⟩ := Option.map_eq_some_iff.mp hstep
  rw [h.client c, Client.perform_erase] at herased
  obtain ⟨client, hclient, rfl⟩ := Option.map_eq_some_iff.mp herased
  refine .inr ⟨actionOf c a, s.setClient c client, ?_, ?_⟩
  · rw [step_actionOf, hclient]
    rfl
  · refine h.setClient (Client.perform_moves hclient).log.1 fun payload hpayload => ?_
    rcases Client.perform_posted hclient payload hpayload with hold | rfl
    · exact h.posted c payload hold
    · exact hok

theorem step_broker (topic : ι → UInt16) (s : System ι) {a : AsyncEventBroker.Action ι}
    (ha : ∀ v raw, a ≠ .receive v raw) :
    s.step topic (.broker a) = (s.broker.step a).map fun b => { s with broker := b } := by
  cases a with
  | receive v raw => exact absurd rfl (ha v raw)
  | accept | acknowledge | forward | disconnect | release => rfl

/-- A step that the broker takes without reading a frame. -/
theorem Represents.shown_broker {order : ByteOrder} {topic : ι → UInt16} {w : Wire ι} {s : System ι}
    (h : w.Represents order s) {a : AsyncEventBroker.Action ι} {b : Broker ι}
    (hb : s.broker.step a = some b) (ha : ∀ v raw, a ≠ .receive v raw) :
    Shown order topic s (w.setBroker order b) := by
  refine .inr ⟨.broker a, { s with broker := b }, ?_, ?_⟩
  · rw [step_broker topic s ha, hb]
    rfl
  · exact h.setBroker hb fun v raw hv => absurd hv (ha v raw)

theorem Represents.brokerStep {order : ByteOrder} {topic : ι → UInt16} {w w' : Wire ι}
    {s : System ι} (h : w.Represents order s) {a : AsyncEventBroker.Action ι}
    (hstep : w.step order topic (.broker a) = some w') : Shown order topic s w' := by
  cases a with
  | receive v raw => cases hstep
  | disconnect v => cases hstep
  | accept v | acknowledge v | forward v | release v =>
      obtain ⟨b, hb, rfl⟩ := Option.map_eq_some_iff.mp hstep
      exact h.shown_broker (h.broker ▸ hb) (by simp)

theorem Represents.take {order : ByteOrder} {topic : ι → UInt16} {w w' : Wire ι} {s : System ι}
    (h : w.Represents order s) {c : ι} (hstep : w.take order c = some w') :
    Shown order topic s w' := by
  have hshort : ∀ raw ∈ (s.broker.sent c).map Delivery.frame, raw.length < 2 ^ 32 := by
    intro raw hraw
    obtain ⟨delivery, hdelivery, rfl⟩ := List.mem_map.mp hraw
    exact h.short.sent c delivery hdelivery
  unfold Wire.take at hstep
  split at hstep
  · split at hstep
    · cases hstep
    · rename_i l hl
      cases hstep
      exact .inl (h.setDown_same ((h.down c).complete hshort hl))
    · rename_i raw l hl
      obtain ⟨hraw, hcarries⟩ := (h.down c).complete hshort hl
      rw [List.getElem?_map] at hraw
      obtain ⟨delivery, hdelivery, rfl⟩ := Option.map_eq_some_iff.mp hraw
      obtain ⟨erased, herased, rfl⟩ := Option.map_eq_some_iff.mp hstep
      rw [h.client c, Client.receive_erase] at herased
      obtain ⟨client, hclient, rfl⟩ := Option.map_eq_some_iff.mp herased
      have hsent : client.sent = (s.client c).sent := (Client.receive_spec hclient).2.1
      have hposted : client.posted = (s.client c).posted := by
        unfold Client.receive at hclient
        split at hclient <;> cases hclient
        rfl
      have hgrows : (s.client c).sent <+: client.sent := ⟨[], by rw [hsent, List.append_nil]⟩
      have hfits : ∀ payload ∈ client.posted, payload.length + 3 < 2 ^ 32 := by
        rw [hposted]
        exact h.posted c
      refine .inr ⟨.take c, _, ?_, (h.setDown hcarries).setClient hgrows hfits⟩
      simp [System.step, hdelivery, hclient, System.setClient]
    · rename_i l hl
      cases hstep
      have hhangup : (w.client c).hangup = (s.client c).hangup.erase := by
        rw [h.client c]
        rfl
      rw [hhangup]
      refine .inr ⟨.hangup c, _, rfl, ?_⟩
      exact (h.setDown_same ((h.down c).complete hshort hl)).setClient List.prefix_rfl (h.posted c)
  · cases hstep

theorem Represents.serve {order : ByteOrder} {topic : ι → UInt16} {w w' : Wire ι} {s : System ι}
    (h : w.Represents order s) (hs : s.Coherent topic) {c : ι}
    (hstep : w.serve order c = some w') : Shown order topic s w' := by
  have hshort : ∀ raw ∈ (s.client c).sent, raw.length < 2 ^ 32 :=
    fun raw hraw => (hs.client c).short (h.posted c) hraw
  unfold Wire.serve at hstep
  split at hstep
  · split at hstep
    · cases hstep
    · rename_i l hl
      cases hstep
      exact .inl (h.setUp_same ((h.up c).complete hshort hl))
    · rename_i raw l hl
      obtain ⟨hraw, hcarries⟩ := (h.up c).complete hshort hl
      obtain ⟨b, hb, rfl⟩ := Option.map_eq_some_iff.mp hstep
      rw [h.broker] at hb
      have hlength : raw.length < 2 ^ 32 := hshort raw (List.mem_of_getElem? hraw)
      refine .inr ⟨.serve c, _, ?_, (h.setUp hcarries).setBroker hb ?_⟩
      · simp [System.step, hraw, hb]
      · intro v raw' ha
        cases ha
        exact hlength
    · rename_i l hl
      obtain ⟨b, hb, rfl⟩ := Option.map_eq_some_iff.mp hstep
      have hup := h.setUp_same ((h.up c).complete hshort hl)
      exact hup.shown_broker (h.broker ▸ hb) (by simp)
  · cases hstep

theorem Represents.step {order : ByteOrder} {topic : ι → UInt16} {w w' : Wire ι} {s : System ι}
    (h : w.Represents order s) (hs : s.Coherent topic) {a : WireAction ι} (hok : w.Orderly a)
    (hstep : w.step order topic a = some w') : Shown order topic s w' := by
  cases a with
  | client c a => exact h.perform hok hstep
  | broker a => exact h.brokerStep hstep
  | up c a =>
      obtain ⟨l, hl, rfl⟩ := Option.map_eq_some_iff.mp hstep
      have hturn : ∀ i size, a = .accept i size → (w.up c).sender.InTurn i := by
        rintro i size rfl
        exact hok
      exact .inl (h.setUp_same ((h.up c).step hl hturn))
  | down c a =>
      obtain ⟨l, hl, rfl⟩ := Option.map_eq_some_iff.mp hstep
      have hturn : ∀ i size, a = .accept i size → (w.down c).sender.InTurn i := by
        rintro i size rfl
        exact hok
      exact .inl (h.setDown_same ((h.down c).step hl hturn))
  | take c => exact h.take hstep
  | serve c => exact h.serve hs hstep

/-! ## Every run -/

theorem Reaches.represents {order : ByteOrder} {topic : ι → UInt16} {w : Wire ι}
    (h : (machine order topic).Reaches Orderly w) :
    ∃ s, (System.machine topic).Reachable s ∧ w.Represents order s :=
  h.simulated (n := System.machine topic) (represents_init order)
    fun _ _ _ _ ht hR hok hs => hR.step (System.Reachable.coherent ht) hok hs

end Wire

end AsyncEventTransport

end CommonLib
