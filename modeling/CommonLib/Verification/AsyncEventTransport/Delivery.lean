import CommonLib.Model.AsyncEventTransport
import CommonLib.Verification.AsyncEventBroker.Delivery

/-! # Delivery from publishers to subscribers

From `publish` to `onMessage` an event passes a strand, a link, the loop of a session, the
fan-out of `route` and a second link. One invariant for each of these, and together they say
that a subscriber gets the events of each publisher in order, each of them once. -/

namespace CommonLib.AsyncEventTransport

open AsyncTcp AsyncEventBroker

variable {ι : Type*}

/-! ## A transport by itself -/

@[simp] def Task.payload : Task → Option Bytes
  | .publish payload => some payload
  | .disconnect => none

/-- Whether the frame is a DATA frame. -/
def isData (raw : Bytes) : Bool :=
  (dataPayload raw).isSome

namespace Client

/-- What a transport puts on its link: at most one REGIST, and the payloads of the tasks that
ran while connected. -/
structure Faithful (topic : UInt16) (c : Client ι) : Prop where
  frames : ∀ raw ∈ c.sent,
    raw = Frame.make topic Frame.REGIST [] ∨ ∃ payload, raw = Frame.make topic Frame.DATA payload
  data : c.sent.filter isData = c.ran.map (Frame.make topic Frame.DATA)
  once : c.sent.count (Frame.make topic Frame.REGIST []) ≤ if c.stage = .opened then 1 else 0
  order : (c.ran ++ c.strand.filterMap Task.payload).Sublist c.posted

theorem faithful_init (topic : UInt16) : (init : Client ι).Faithful topic :=
  ⟨by simp [init], rfl, by simp [init], .refl _⟩

theorem Faithful.payloads {topic : UInt16} {c : Client ι} (h : c.Faithful topic) :
    c.sent.filterMap dataPayload = c.ran := by
  have hfilter : c.sent.filterMap dataPayload = (c.sent.filter isData).filterMap dataPayload := by
    rw [List.filterMap_filter]
    refine List.filterMap_congr fun raw _ => ?_
    cases hraw : dataPayload raw <;> simp [isData, hraw]
  rw [hfilter, h.data, List.filterMap_map]
  simp

/-- What a transport does by itself. -/
inductive Moves (topic : UInt16) (c c' : Client ι) : Prop
  | connect (subscriber : Bool) (h : c.connect subscriber = some c')
  | onConnected (h : c.onConnected = some c')
  | regist (h : c.regist topic = some c')
  | publish (payload : Bytes) (h : c.publish payload = c')
  | disconnect (h : c.disconnect = c')
  | runTask (h : c.runTask topic = some c')
  | hangup (h : c.hangup = c')

/-- A transport whose log and tasks stay as they are. -/
theorem Faithful.of_eq {topic : UInt16} {c c' : Client ι} (h : c.Faithful topic)
    (hsent : c'.sent = c.sent) (hran : c'.ran = c.ran) (hstrand : c'.strand = c.strand)
    (hposted : c'.posted = c.posted) (hstage : c.stage = .opened → c'.stage = .opened) :
    c'.Faithful topic := by
  refine ⟨hsent ▸ h.frames, by rw [hsent, hran, h.data], ?_, by
    rw [hran, hstrand, hposted]
    exact h.order⟩
  rw [hsent]
  apply h.once.trans
  by_cases hopened : c.stage = .opened
  · rw [if_pos hopened, if_pos (hstage hopened)]
  · rw [if_neg hopened]
    exact Nat.zero_le _

theorem regist_ne_data (topic topic' : UInt16) (payload : Bytes) :
    Frame.make topic Frame.DATA payload ≠ Frame.make topic' Frame.REGIST [] := by
  intro h
  have htype : Frame.DATA = Frame.REGIST := by
    simp only [Frame.make, List.cons.injEq] at h
    exact h.2.2.1
  exact absurd htype (by decide)

theorem Faithful.regist {topic : UInt16} {c c' : Client ι} (h : c.Faithful topic)
    (hc : c.regist topic = some c') : c'.Faithful topic := by
  unfold Client.regist at hc
  split at hc
  · rename_i hstage
    cases hc
    refine ⟨?_, ?_, ?_, h.order⟩
    · intro raw hraw
      rcases List.mem_append.mp hraw with hraw | hraw
      · exact h.frames raw hraw
      · exact .inl (List.mem_singleton.mp hraw)
    · have hregist : isData (Frame.make topic Frame.REGIST []) = false := by
        simp [isData, dataPayload_make]
      simp [hregist, h.data]
    · have hnone := h.once
      rw [hstage.1, if_neg (by simp), Nat.le_zero] at hnone
      simp [hnone]
  · cases hc

theorem Faithful.runTask {topic : UInt16} {c c' : Client ι} (h : c.Faithful topic)
    (hc : c.runTask topic = some c') : c'.Faithful topic := by
  unfold Client.runTask at hc
  have horder := h.order
  split at hc
  · cases hc
  · rename_i payload rest hstrand
    simp only [hstrand, List.filterMap_cons, Task.payload] at horder
    split at hc
    · split at hc <;> cases hc
      refine ⟨?_, ?_, ?_, ?_⟩
      · intro raw hraw
        rcases List.mem_append.mp hraw with hraw | hraw
        · exact h.frames raw hraw
        · exact .inr ⟨payload, List.mem_singleton.mp hraw⟩
      · have hdata : isData (Frame.make topic Frame.DATA payload) = true := by simp [isData]
        simp [hdata, h.data]
      · rw [List.count_append, List.count_singleton, if_neg (by
          simpa using regist_ne_data topic topic payload)]
        exact h.once
      · simpa using horder
    · cases hc
      refine ⟨h.frames, h.data, h.once, ?_⟩
      exact ((List.sublist_cons_self payload _).append_left c.ran).trans horder
  · rename_i rest hstrand
    simp only [hstrand, List.filterMap_cons, Task.payload] at horder
    split at hc <;> cases hc <;> exact ⟨h.frames, h.data, h.once, horder⟩

theorem Moves.faithful {topic : UInt16} {c c' : Client ι} (hc : Moves topic c c')
    (h : c.Faithful topic) : c'.Faithful topic := by
  cases hc with
  | connect subscriber hc =>
      unfold Client.connect at hc
      split at hc
      · cases hc
        exact h
      · split at hc <;> cases hc
        rename_i hfresh
        exact h.of_eq rfl rfl rfl rfl (by simp [hfresh])
  | onConnected hc =>
      unfold Client.onConnected at hc
      split at hc <;> cases hc
      all_goals exact h.of_eq rfl rfl rfl rfl (by simp [*])
  | regist hc => exact h.regist hc
  | publish payload hc =>
      subst hc
      refine ⟨h.frames, h.data, h.once, ?_⟩
      simp only [Client.publish, List.filterMap_append, ← List.append_assoc]
      exact h.order.append (.refl _)
  | disconnect hc =>
      subst hc
      refine ⟨h.frames, h.data, h.once, ?_⟩
      simpa [Client.disconnect, List.filterMap_cons] using h.order
  | runTask hc => exact h.runTask hc
  | hangup hc =>
      subst hc
      exact h.of_eq rfl rfl rfl rfl id

/-- The log only grows, and nothing but the receive loop calls `onMessage`. -/
theorem Moves.log {topic : UInt16} {c c' : Client ι} (hc : Moves topic c c') :
    c.sent <+: c'.sent ∧ c'.received = c.received := by
  cases hc with
  | connect subscriber hc =>
      unfold Client.connect at hc
      split_ifs at hc <;> cases hc <;> exact ⟨List.prefix_rfl, rfl⟩
  | onConnected hc =>
      unfold Client.onConnected at hc
      split at hc <;> cases hc <;> exact ⟨List.prefix_rfl, rfl⟩
  | regist hc =>
      unfold Client.regist at hc
      split at hc <;> cases hc
      exact ⟨List.prefix_append _ _, rfl⟩
  | publish payload hc | disconnect hc | hangup hc =>
      subst hc
      exact ⟨List.prefix_rfl, rfl⟩
  | runTask hc =>
      unfold Client.runTask at hc
      split at hc
      · cases hc
      · split_ifs at hc <;> cases hc
        · exact ⟨List.prefix_append _ _, rfl⟩
        · exact ⟨List.prefix_rfl, rfl⟩
      · split_ifs at hc <;> cases hc <;> exact ⟨List.prefix_rfl, rfl⟩

/-- The call of `onMessage` that a delivery causes. -/
def messageOf (delivery : Delivery ι) : Option (ι × Bytes) :=
  (dataPayload delivery.frame).map fun payload => (delivery.sender, payload)

theorem onReceive_received (sender : ι) (received : List (ι × Bytes)) (raw : Bytes) :
    ((handlers sender).onReceive received raw).user =
      received ++ ((dataPayload raw).map fun payload => (sender, payload)).toList := by
  unfold UserHandlers.onReceive dataPayload
  cases Frame.parse raw with
  | none => simp
  | some frame =>
      by_cases hack : frame.type = Frame.ACK
      · simp [hack, handlers]
      · by_cases hdata : frame.type = Frame.DATA
        · simp [hdata, handlers]
        · simp [hack, hdata]

theorem receive_spec {c c' : Client ι} {delivery : Delivery ι} (hc : c.receive delivery = some c') :
    c'.received = c.received ++ (messageOf delivery).toList ∧ c'.sent = c.sent ∧
      ∀ topic, c.Faithful topic → c'.Faithful topic := by
  unfold Client.receive at hc
  split at hc <;> cases hc
  exact ⟨onReceive_received _ _ _, rfl, fun topic h => h.of_eq rfl rfl rfl rfl id⟩

end Client

/-! ## The steps of the system -/

namespace System

variable [DecidableEq ι]

@[simp] theorem setClient_self (w : System ι) (c : ι) (client : Client ι) :
    (w.setClient c client).client c = client := by
  simp [setClient]

theorem setClient_of_ne (w : System ι) {c v : ι} (client : Client ι) (h : v ≠ c) :
    (w.setClient c client).client v = w.client v := by
  simp [setClient, h]

/-- Who moves in a step: a transport, the receive loop of one, a session that takes a frame, or
the broker without taking one. -/
inductive Step (topic : ι → UInt16) (w : System ι) : System ι → Prop
  | moves (c : ι) (client : Client ι) (h : Client.Moves (topic c) (w.client c) client) :
      Step topic w (w.setClient c client)
  | take (c : ι) (delivery : Delivery ι) (client : Client ι)
      (hnext : (w.broker.sent c)[w.down c]? = some delivery)
      (h : (w.client c).receive delivery = some client) :
      Step topic w { w.setClient c client with down := Function.update w.down c (w.down c + 1) }
  | serve (c : ι) (raw : Bytes) (b : Broker ι) (hnext : (w.client c).sent[w.up c]? = some raw)
      (h : w.broker.step (.receive c raw) = some b) :
      Step topic w { w with broker := b, up := Function.update w.up c (w.up c + 1) }
  | broker (a : AsyncEventBroker.Action ι) (b : Broker ι) (ha : ∀ s raw, a ≠ .receive s raw)
      (h : w.broker.step a = some b) : Step topic w { w with broker := b }

theorem step_cases {topic : ι → UInt16} {w w' : System ι} {a : SystemAction ι}
    (h : w.step topic a = some w') : Step topic w w' := by
  cases a with
  | connect c =>
      obtain ⟨client, hc, rfl⟩ := Option.map_eq_some_iff.mp h
      exact .moves c client (.connect false hc)
  | subscribe c =>
      obtain ⟨client, hc, rfl⟩ := Option.map_eq_some_iff.mp h
      exact .moves c client (.connect true hc)
  | onConnected c =>
      obtain ⟨client, hc, rfl⟩ := Option.map_eq_some_iff.mp h
      exact .moves c client (.onConnected hc)
  | regist c =>
      obtain ⟨client, hc, rfl⟩ := Option.map_eq_some_iff.mp h
      exact .moves c client (.regist hc)
  | publish c payload =>
      cases h
      exact .moves c _ (.publish payload rfl)
  | disconnect c =>
      cases h
      exact .moves c _ (.disconnect rfl)
  | runTask c =>
      obtain ⟨client, hc, rfl⟩ := Option.map_eq_some_iff.mp h
      exact .moves c client (.runTask hc)
  | hangup c =>
      cases h
      exact .moves c _ (.hangup rfl)
  | take c =>
      simp only [step] at h
      split at h
      · cases h
      · obtain ⟨client, hc, rfl⟩ := Option.map_eq_some_iff.mp h
        exact .take c _ client ‹_› hc
  | serve c =>
      simp only [step] at h
      split at h
      · cases h
      · obtain ⟨b, hb, rfl⟩ := Option.map_eq_some_iff.mp h
        exact .serve c _ b ‹_› hb
  | broker a =>
      cases a with
      | receive s raw => cases h
      | accept s | acknowledge s | forward s | disconnect s | release s =>
          obtain ⟨b, hb, rfl⟩ := Option.map_eq_some_iff.mp h
          exact .broker _ b (by simp) hb

/-! ## The invariant -/

/-- Link by link: what the broker has handled of a client is what its session has taken from the
link, what `onMessage` was called with is what the receive loop has taken, and in between the
broker owes nothing. -/
structure Coherent (topic : ι → UInt16) (w : System ι) : Prop where
  client : ∀ c, (w.client c).Faithful (topic c)
  up : ∀ c, w.up c ≤ (w.client c).sent.length
  down : ∀ c, w.down c ≤ (w.broker.sent c).length
  served : ∀ c, w.broker.handled.filter (·.isFrameOf c) =
    ((w.client c).sent.take (w.up c)).filterMap (eventOf c)
  received : ∀ c, (w.client c).received =
    ((w.broker.sent c).take (w.down c)).filterMap Client.messageOf
  distinct : w.broker.Distinct
  owes : ∀ s p, topic p = topic s → w.broker.Owes s p (topic s)

theorem coherent_init (topic : ι → UInt16) : (init : System ι).Coherent topic where
  client c := Client.faithful_init (topic c)
  up _ := Nat.zero_le _
  down _ := Nat.zero_le _
  served _ := rfl
  received _ := rfl
  distinct _ := List.nodup_nil
  owes s p _ := Broker.owes_init s p (topic s)

/-- A frame event comes from a frame that the client has sent and its session has taken. -/
theorem exists_frame {w : System ι} {c : ι} {e : Event ι}
    (hserved : w.broker.handled.filter (·.isFrameOf c) =
      ((w.client c).sent.take (w.up c)).filterMap (eventOf c))
    (he : e ∈ w.broker.handled) (hc : e.isFrameOf c = true) :
    ∃ raw ∈ (w.client c).sent.take (w.up c), eventOf c raw = some e := by
  have hmem : e ∈ w.broker.handled.filter (·.isFrameOf c) := List.mem_filter.mpr ⟨he, hc⟩
  rw [hserved] at hmem
  exact List.mem_filterMap.mp hmem

omit [DecidableEq ι] in
/-- The events of library clients: a REGIST or DATA of their own topic. -/
theorem eventOf_of_faithful {topic : UInt16} {client : Client ι} (h : client.Faithful topic) {c : ι}
    {raw : Bytes} (hraw : raw ∈ client.sent) :
    (raw = Frame.make topic Frame.REGIST [] ∧ eventOf c raw = some (.regist c topic)) ∨
      ∃ payload, eventOf c raw = some (.data c topic payload) := by
  rcases h.frames raw hraw with rfl | ⟨payload, rfl⟩
  · exact .inl ⟨rfl, by simp [eventOf]⟩
  · exact .inr ⟨payload, by simp [eventOf]⟩

theorem Coherent.not_unregist {topic : ι → UInt16} {w : System ι} (h : w.Coherent topic) (c : ι) :
    .unregist c ∉ w.broker.handled := by
  intro hmem
  obtain ⟨raw, hraw, heq⟩ := exists_frame (h.served c) hmem (by simp [Event.isFrameOf])
  rcases eventOf_of_faithful (h.client c) (c := c) (List.mem_of_mem_take hraw) with
    ⟨-, he⟩ | ⟨payload, he⟩
  · rw [he] at heq
    cases heq
  · rw [he] at heq
    cases heq

/-- A publisher keeps to the topic it was made for. -/
theorem topic_of_data {topic : ι → UInt16} {w : System ι} {c : ι}
    (hclient : (w.client c).Faithful (topic c))
    (hserved : w.broker.handled.filter (·.isFrameOf c) =
      ((w.client c).sent.take (w.up c)).filterMap (eventOf c))
    {topic' : UInt16} {payload : Bytes} (hmem : .data c topic' payload ∈ w.broker.handled) :
    topic' = topic c := by
  obtain ⟨raw, hraw, heq⟩ := exists_frame hserved hmem (by simp [Event.isFrameOf])
  rcases eventOf_of_faithful hclient (c := c) (List.mem_of_mem_take hraw) with
    ⟨-, he⟩ | ⟨payload', he⟩
  · rw [he] at heq
    cases heq
  · rw [he] at heq
    cases heq
    rfl

/-- A client sends one REGIST, so the one its session takes now is the first. -/
theorem Coherent.fresh {topic : ι → UInt16} {w : System ι} (h : w.Coherent topic) {c : ι}
    {raw : Bytes} (hnext : (w.client c).sent[w.up c]? = some raw) :
    w.broker.Fresh (.receive c raw) := by
  intro s raw' frame ha hparse htype hsub
  cases ha
  have hmem := List.mem_of_getElem? hnext
  have hregist : raw = Frame.make (topic c) Frame.REGIST [] := by
    rcases (h.client c).frames raw hmem with heq | ⟨payload, rfl⟩
    · exact heq
    · rw [Frame.parse_make, Option.some.injEq] at hparse
      subst hparse
      change Frame.DATA = Frame.REGIST at htype
      exact absurd htype (by decide)
  subst hregist
  rw [Frame.parse_make, Option.some.injEq] at hparse
  subst hparse
  obtain ⟨before, after, heq, -, -⟩ := hsub
  obtain ⟨raw', hraw', he⟩ := exists_frame (e := .regist c (topic c)) (h.served c) (by simp [heq])
    (by simp [Event.isFrameOf])
  have hregist' : raw' = Frame.make (topic c) Frame.REGIST [] := by
    rcases eventOf_of_faithful (h.client c) (c := c) (List.mem_of_mem_take hraw') with
      ⟨hraw, -⟩ | ⟨payload, hdata⟩
    · exact hraw
    · rw [hdata] at he
      cases he
  have hbefore : 0 < ((w.client c).sent.take (w.up c)).count (Frame.make (topic c) Frame.REGIST []) :=
    List.count_pos_iff.mpr (hregist' ▸ hraw')
  have htwo : 2 ≤ (w.client c).sent.count (Frame.make (topic c) Frame.REGIST []) := by
    calc 2 ≤ ((w.client c).sent.take (w.up c)).count (Frame.make (topic c) Frame.REGIST []) + 1 := by
          omega
      _ = ((w.client c).sent.take (w.up c + 1)).count (Frame.make (topic c) Frame.REGIST []) := by
          rw [List.take_add_one, hnext]
          simp
      _ ≤ (w.client c).sent.count (Frame.make (topic c) Frame.REGIST []) :=
          (List.take_sublist _ _).count_le _
  have honce := (h.client c).once
  split at honce <;> omega

/-! ## One step -/

theorem take_eq_of_le {α : Type*} {l l' : List α} (h : l <+: l') {n : ℕ} (hn : n ≤ l.length) :
    l'.take n = l.take n := by
  obtain ⟨rest, rfl⟩ := h
  exact List.take_append_of_le_length hn

theorem faithful_setClient {topic : ι → UInt16} {w : System ι}
    (h : ∀ v, (w.client v).Faithful (topic v)) {c : ι} {client : Client ι}
    (hc : client.Faithful (topic c)) (v : ι) :
    ((w.setClient c client).client v).Faithful (topic v) := by
  by_cases hv : v = c
  · subst hv
    rw [setClient_self]
    exact hc
  · rw [setClient_of_ne _ _ hv]
    exact h v

theorem Coherent.moves {topic : ι → UInt16} {w : System ι} (h : w.Coherent topic) {c : ι}
    {client : Client ι} (hc : Client.Moves (topic c) (w.client c) client) :
    (w.setClient c client).Coherent topic := by
  have hlog : ∀ v, (w.client v).sent <+: ((w.setClient c client).client v).sent ∧
      ((w.setClient c client).client v).received = (w.client v).received := by
    intro v
    by_cases hv : v = c
    · subst hv
      rw [setClient_self]
      exact hc.log
    · rw [setClient_of_ne _ _ hv]
      exact ⟨List.prefix_rfl, rfl⟩
  refine ⟨faithful_setClient h.client (hc.faithful (h.client c)), fun v => ?_, h.down,
    fun v => ?_, fun v => ?_, h.distinct, h.owes⟩
  · exact (h.up v).trans (hlog v).1.length_le
  · rw [show (w.setClient c client).up v = w.up v from rfl, take_eq_of_le (hlog v).1 (h.up v)]
    exact h.served v
  · rw [(hlog v).2]
    exact h.received v

/-- The receive loop of a client moves one frame from its link to `onMessage`. -/
theorem Coherent.take {topic : ι → UInt16} {w : System ι} (h : w.Coherent topic) {c : ι}
    {delivery : Delivery ι} {client : Client ι}
    (hnext : (w.broker.sent c)[w.down c]? = some delivery)
    (hc : (w.client c).receive delivery = some client) :
    ({ w.setClient c client with down := Function.update w.down c (w.down c + 1) } :
      System ι).Coherent topic := by
  obtain ⟨hreceived, hsent, hfaithful⟩ := Client.receive_spec hc
  have hlen : w.down c < (w.broker.sent c).length := (List.getElem?_eq_some_iff.mp hnext).1
  have hsame : ∀ v, ((w.setClient c client).client v).sent = (w.client v).sent := by
    intro v
    by_cases hv : v = c
    · subst hv
      rw [setClient_self, hsent]
    · rw [setClient_of_ne _ _ hv]
  refine ⟨faithful_setClient h.client (hfaithful _ (h.client c)), fun v => ?_, fun v => ?_,
    fun v => ?_, fun v => ?_, h.distinct, h.owes⟩
  · change w.up v ≤ ((w.setClient c client).client v).sent.length
    rw [hsame]
    exact h.up v
  · change Function.update w.down c (w.down c + 1) v ≤ (w.broker.sent v).length
    by_cases hv : v = c
    · subst hv
      rw [Function.update_self]
      exact hlen
    · simpa [hv] using h.down v
  · change _ = (((w.setClient c client).client v).sent.take (w.up v)).filterMap _
    rw [hsame]
    exact h.served v
  · change ((w.setClient c client).client v).received =
      ((w.broker.sent v).take (Function.update w.down c (w.down c + 1) v)).filterMap _
    by_cases hv : v = c
    · subst hv
      rw [setClient_self, Function.update_self, List.take_add_one, hnext, hreceived, h.received]
      cases hm : Client.messageOf delivery <;> simp [hm]
    · rw [setClient_of_ne _ _ hv, Function.update_of_ne hv]
      exact h.received v

/-- A step of the broker that leaves the upward links to the case at hand. -/
theorem Coherent.broker {topic : ι → UInt16} {w : System ι} (h : w.Coherent topic)
    (hb : w.broker.Consistent) {a : AsyncEventBroker.Action ι} {b : Broker ι} {up : ι → ℕ}
    (hstep : w.broker.step a = some b) (hfresh : w.broker.Fresh a)
    (hup : ∀ c, up c ≤ (w.client c).sent.length)
    (hserved : ∀ c, b.handled.filter (·.isFrameOf c) =
      ((w.client c).sent.take (up c)).filterMap (eventOf c)) :
    ({ w with broker := b, up := up } : System ι).Coherent topic where
  client := h.client
  up := hup
  down c := (h.down c).trans (Broker.sent_prefix_step hstep c).length_le
  served := hserved
  received c := by
    change (w.client c).received = ((b.sent c).take (w.down c)).filterMap _
    rw [take_eq_of_le (Broker.sent_prefix_step hstep c) (h.down c)]
    exact h.received c
  distinct := (hb.distinct_step_iff h.distinct hstep).mpr hfresh
  owes s p htopic := by
    refine (h.owes s p htopic).step hb h.distinct (h.not_unregist s) ?_ hstep
    intro topic' payload hmem
    rw [← htopic]
    exact topic_of_data (w := { w with broker := b, up := up }) (h.client p) (hserved p) hmem

theorem Coherent.step {topic : ι → UInt16} {w w' : System ι} (h : w.Coherent topic)
    (hb : w.broker.Consistent) (hstep : Step topic w w') : w'.Coherent topic := by
  cases hstep with
  | moves c client hc => exact h.moves hc
  | take c delivery client hnext hc => exact h.take hnext hc
  | serve c raw b hnext hb' =>
      have hlen : w.up c < (w.client c).sent.length := (List.getElem?_eq_some_iff.mp hnext).1
      refine h.broker hb hb' (h.fresh hnext) (fun v => ?_) fun v => ?_
      · by_cases hv : v = c
        · subst hv
          rw [Function.update_self]
          exact hlen
        · simpa [hv] using h.up v
      · rw [Broker.handled_receive hb', List.filter_append, h.served]
        by_cases hv : v = c
        · subst hv
          rw [Function.update_self, List.take_add_one, hnext]
          cases he : eventOf v raw with
          | none => simp [he]
          | some e => simp [he, isFrameOf_of_eventOf he]
        · rw [Function.update_of_ne hv]
          cases he : eventOf c raw with
          | none => simp
          | some e => simp [isFrameOf_of_eventOf he, Ne.symm hv]
  | broker a b ha hb' =>
      refine h.broker hb hb' (Broker.fresh_of_ne_receive ha) h.up fun v => ?_
      rcases Broker.handled_other ha hb' with heq | ⟨s, heq⟩
      · rw [heq]
        exact h.served v
      · rw [heq, List.filter_append, h.served]
        simp [Event.isFrameOf]

/-! ## Every run -/

/-- The broker of the system makes a run of its own. -/
theorem Reachable.broker {topic : ι → UInt16} {w : System ι} (h : (machine topic).Reachable w) :
    (Broker.machine ι).Reachable w.broker := by
  refine h.invariant (P := fun w => (Broker.machine ι).Reachable w.broker) .init ?_
  intro w a w' hw _ hstep
  cases step_cases hstep with
  | moves | take => exact hw
  | serve c raw b hnext hb => exact hw.step (a := .receive c raw) trivial hb
  | broker a b ha hb => exact hw.step (a := a) trivial hb

theorem Reachable.coherent {topic : ι → UInt16} {w : System ι} (h : (machine topic).Reachable w) :
    w.Coherent topic :=
  h.invariant_of (Q := fun w => (Broker.machine ι).Reachable w.broker)
    (fun _ hw => Reachable.broker hw) (coherent_init topic)
    fun _ _ _ hb hw _ hstep => hw.step (Broker.Reachable.consistent hb) (step_cases hstep)

/-- The payloads of the session `p` that `onMessage` was called with. -/
def messagesFrom (c : Client ι) (p : ι) : List Bytes :=
  c.received.filterMap fun message => if message.1 = p then some message.2 else none

theorem messagesFrom_eq {c : Client ι} {p : ι} {deliveries : List (Delivery ι)}
    (h : c.received = deliveries.filterMap Client.messageOf) :
    messagesFrom c p = payloadsFrom p deliveries := by
  rw [messagesFrom, h, List.filterMap_filterMap, payloadsFrom]
  refine List.filterMap_congr fun delivery _ => ?_
  cases hm : dataPayload delivery.frame <;> simp [Client.messageOf, hm]

/-- For a subscriber `s` and a publisher `p` of its topic: what `onMessage` got from `p`, what is
on the link to `s`, and what the session of `p` is still to send there, are together the payloads
of `p` that the broker handled after the REGIST of `s` and before its removal. What the broker
has handled of `p` is a first part of what `p` has sent, and that is what its tasks published
while connected, in the order in which it was posted. -/
theorem delivers_in_order {topic : ι → UInt16} {w : System ι} (hw : (machine topic).Reachable w)
    (s p : ι) (htopic : topic p = topic s) :
    messagesFrom (w.client s) p ++ payloadsFrom p ((w.broker.sent s).drop (w.down s)) ++
        w.broker.pending s p = window s p (topic s) w.broker.handled ∧
      w.broker.handled.filterMap (publishedBy p) <+: (w.client p).ran ∧
      (w.client p).sent.filter isData = (w.client p).ran.map (Frame.make (topic p) Frame.DATA) ∧
      ((w.client p).ran ++ (w.client p).strand.filterMap Task.payload).Sublist
        (w.client p).posted := by
  have h := Reachable.coherent hw
  refine ⟨?_, ?_, (h.client p).data, (h.client p).order⟩
  · rw [messagesFrom_eq (h.received s), ← payloadsFrom_append, List.take_append_drop]
    exact h.owes s p htopic
  · have hhandled : w.broker.handled.filterMap (publishedBy p) =
        ((w.client p).sent.take (w.up p)).filterMap dataPayload := by
      rw [filterMap_publishedBy, h.served, List.filterMap_filterMap]
      exact List.filterMap_congr fun raw _ => bind_eventOf p raw
    rw [hhandled, ← (h.client p).payloads]
    exact (List.take_prefix _ _).filterMap dataPayload

/-- One event from client 1 to client 0, with an event posted before the connection stood. -/
theorem delivers_in_order_one :
    ∃ w : System (Fin 2), (machine fun _ => 5).run init
        [.subscribe 0, .onConnected 0, .regist 0, .broker (.accept 0), .serve 0,
          .broker (.acknowledge 0), .take 0, .connect 1, .publish 1 [6], .runTask 1,
          .onConnected 1, .publish 1 [7], .publish 1 [8], .runTask 1, .runTask 1,
          .broker (.accept 1), .serve 1, .broker (.forward 1), .broker (.forward 1), .take 0,
          .serve 1] = some w ∧
      messagesFrom (w.client 0) 1 ++ payloadsFrom 1 ((w.broker.sent 0).drop (w.down 0)) ++
        w.broker.pending 0 1 = [[7], [8]] ∧
      messagesFrom (w.client 0) 1 = [[7]] ∧ w.broker.pending 0 1 = [[8]] := by
  obtain ⟨w, hrun, hwindow, hreceived, hpending⟩ : ∃ w : System (Fin 2),
      (machine fun _ => 5).run init
        [.subscribe 0, .onConnected 0, .regist 0, .broker (.accept 0), .serve 0,
          .broker (.acknowledge 0), .take 0, .connect 1, .publish 1 [6], .runTask 1,
          .onConnected 1, .publish 1 [7], .publish 1 [8], .runTask 1, .runTask 1,
          .broker (.accept 1), .serve 1, .broker (.forward 1), .broker (.forward 1), .take 0,
          .serve 1] = some w ∧
      window 0 1 5 w.broker.handled = [[7], [8]] ∧
      messagesFrom (w.client 0) 1 = [[7]] ∧ w.broker.pending 0 1 = [[8]] :=
    ⟨_, rfl, by decide +kernel, by decide +kernel, by decide +kernel⟩
  refine ⟨w, hrun, ?_, hreceived, hpending⟩
  exact (delivers_in_order (Machine.reachable_of_run hrun) 0 1 rfl).1.trans hwindow

end System

end CommonLib.AsyncEventTransport
