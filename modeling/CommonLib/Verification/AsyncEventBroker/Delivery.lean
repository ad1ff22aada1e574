import CommonLib.Library.Between
import CommonLib.Verification.AsyncEventBroker.Registry

/-! # What a publisher's events owe a subscriber

The frames on a subscriber's socket that come from one publisher, followed by the one that this
publisher's session is still sending, are the events the broker handled for it while the
subscriber was registered. -/

namespace CommonLib.AsyncEventBroker

variable {ι : Type*} [DecidableEq ι]

/-! ## Histories -/

/-- The payload of a DATA frame. -/
def dataPayload (raw : Bytes) : Option Bytes :=
  match Frame.parse raw with
  | none => none
  | some frame => if frame.type = Frame.DATA then some frame.payload else none

theorem dataPayload_make (topic : UInt16) (type : UInt8) (payload : Bytes) :
    dataPayload (Frame.make topic type payload) =
      if type = Frame.DATA then some payload else none := by
  simp [dataPayload]

@[simp] theorem dataPayload_data (topic : UInt16) (payload : Bytes) :
    dataPayload (Frame.make topic Frame.DATA payload) = some payload := by
  simp [dataPayload_make]

/-- The payloads among the deliveries that the session `p` has sent. -/
def payloadsFrom (p : ι) (deliveries : List (Delivery ι)) : List Bytes :=
  deliveries.filterMap fun delivery =>
    if delivery.sender = p then dataPayload delivery.frame else none

theorem payloadsFrom_append (p : ι) (first second : List (Delivery ι)) :
    payloadsFrom p (first ++ second) = payloadsFrom p first ++ payloadsFrom p second :=
  List.filterMap_append

/-- The payload of a DATA event of the session `p`. -/
def publishedBy (p : ι) : Event ι → Option Bytes
  | .data s _ payload => if s = p then some payload else none
  | .regist .. | .unregist _ | .disconnected _ => none

/-- The payloads of the events of `p` handled after the REGIST of `s` and before its removal. -/
def window (s p : ι) (topic : UInt16) (handled : List (Event ι)) : List Bytes :=
  (between (.regist s topic) (.disconnected s) handled).filterMap (publishedBy p)

/-- Only a DATA event of the publisher widens the window. -/
theorem window_concat_of_none {s p : ι} {topic : UInt16} {handled : List (Event ι)} {e : Event ι}
    (he : publishedBy p e = none) : window s p topic (handled ++ [e]) = window s p topic handled := by
  unfold window
  by_cases hstop : .disconnected s ∈ handled
  · rw [between_concat_of_mem hstop]
  · by_cases hne : e = .disconnected s
    · rw [hne, between_concat_stop]
    · by_cases hstart : .regist s topic ∈ handled
      · rw [between_concat hstart hstop hne]
        simp [he]
      · rw [between_of_not_mem hstart]
        by_cases hregist : e = .regist s topic
        · rw [hregist, between_concat_start hstart hstop (by simp)]
          rfl
        · rw [between_of_not_mem (by simp [hstart, Ne.symm hregist])]

theorem window_concat_data {s p : ι} {topic : UInt16} {handled : List (Event ι)}
    (hstart : .regist s topic ∈ handled) (hstop : .disconnected s ∉ handled)
    (topic' : UInt16) (payload : Bytes) :
    window s p topic (handled ++ [.data p topic' payload]) =
      window s p topic handled ++ [payload] := by
  rw [window, between_concat hstart hstop (by simp), List.filterMap_append]
  simp [window, publishedBy]

theorem window_concat_data_of_not {s p : ι} {topic : UInt16} {handled : List (Event ι)}
    (h : .regist s topic ∈ handled → .disconnected s ∈ handled) (topic' : UInt16)
    (payload : Bytes) :
    window s p topic (handled ++ [.data p topic' payload]) = window s p topic handled := by
  unfold window
  by_cases hstart : .regist s topic ∈ handled
  · rw [between_concat_of_mem (h hstart)]
  · rw [between_of_not_mem hstart, between_of_not_mem (by simp [hstart])]

/-! ## Frames -/

/-- The event that the handler of a frame logs. -/
def eventOf (s : ι) (raw : Bytes) : Option (Event ι) :=
  match Frame.parse raw with
  | none => none
  | some frame =>
      if frame.type = Frame.REGIST then some (.regist s frame.topic)
      else if frame.type = Frame.UNREGIST then some (.unregist s)
      else if frame.type = Frame.DATA then some (.data s frame.topic frame.payload)
      else none

/-- Whether the event is one of a frame from the session `s`. -/
def Event.isFrameOf (s : ι) : Event ι → Bool
  | .regist v _ | .unregist v | .data v _ _ => decide (v = s)
  | .disconnected _ => false

theorem isFrameOf_of_eventOf {s : ι} {raw : Bytes} {e : Event ι} (h : eventOf s raw = some e)
    (v : ι) : e.isFrameOf v = decide (s = v) := by
  unfold eventOf at h
  split at h
  · cases h
  · split_ifs at h <;> cases h <;> rfl

theorem bind_eventOf (p : ι) (raw : Bytes) :
    (eventOf p raw).bind (publishedBy p) = dataPayload raw := by
  unfold eventOf dataPayload
  cases Frame.parse raw with
  | none => rfl
  | some frame =>
      by_cases hregist : frame.type = Frame.REGIST
      · simp [hregist, publishedBy]
      · by_cases hunregist : frame.type = Frame.UNREGIST
        · simp [hunregist, publishedBy]
        · by_cases hdata : frame.type = Frame.DATA <;> simp [hregist, hunregist, hdata, publishedBy]

theorem filterMap_publishedBy (p : ι) (handled : List (Event ι)) :
    handled.filterMap (publishedBy p) =
      (handled.filter (·.isFrameOf p)).filterMap (publishedBy p) := by
  rw [List.filterMap_filter]
  refine List.filterMap_congr fun e _ => ?_
  cases e <;> simp [publishedBy, Event.isFrameOf]

namespace Broker

theorem handled_receive {b b' : Broker ι} {s : ι} {raw : Bytes}
    (hstep : b.step (.receive s raw) = some b') :
    b'.handled = b.handled ++ (eventOf s raw).toList := by
  obtain ⟨-, hrule⟩ := step_cases hstep
  cases hrule with
  | abort s raw hs hraw => simp [eventOf, hraw]
  | regist s raw frame hs hraw htype hlock =>
      simp [eventOf, hraw, htype, onSubscribe, log]
  | unregist s raw frame hs hraw htype hlock =>
      simp [eventOf, hraw, htype, onUnsubscribe, log]
  | data s raw frame hs hraw htype =>
      simp [eventOf, hraw, htype, Broker.onEvent, log]
  | ignore s raw frame hs hraw htype => simp [eventOf, hraw, htype]

theorem handled_other {b b' : Broker ι} {a : Action ι} (ha : ∀ s raw, a ≠ .receive s raw)
    (hstep : b.step a = some b') :
    b'.handled = b.handled ∨ ∃ s, b'.handled = b.handled ++ [.disconnected s] := by
  obtain ⟨-, hrule⟩ := step_cases hstep
  cases hrule with
  | abort s raw | regist s raw | unregist s raw | data s raw | ignore s raw =>
      exact absurd rfl (ha s raw)
  | disconnect s hs hlock => exact .inr ⟨s, rfl⟩
  | accept | acknowledge | forward | skip | routed | release => exact .inl rfl

theorem sent_prefix_send (b : Broker ι) (s v : ι) (frame : Bytes) (sender : ι) :
    b.sent v <+: (b.send s frame sender).sent v := by
  by_cases hv : v = s
  · subst hv
    rw [send_sent_self]
    exact List.prefix_append _ _
  · have hsame : (b.send s frame sender).sent v = b.sent v := send_sent_of_ne b frame sender hv
    simp [hsame]

/-- What was handed to a socket stays handed to it. -/
theorem sent_prefix_step {b b' : Broker ι} {a : Action ι} (hstep : b.step a = some b') (v : ι) :
    b.sent v <+: b'.sent v := by
  obtain ⟨-, hrule⟩ := step_cases hstep
  cases hrule with
  | acknowledge s topic hs => exact sent_prefix_send b s v _ s
  | forward s topic payload sentTo weak rest hs halive => exact sent_prefix_send b weak v _ s
  | accept | abort | regist | unregist | data | ignore | skip | routed | disconnect | release =>
      exact List.prefix_rfl

/-! ## The debt -/

/-- The payload that the session `p` is sending round and has not yet sent to `s`. -/
def pending (b : Broker ι) (s p : ι) : List Bytes :=
  match b.session p with
  | .routing _ payload _ rest => if s ∈ rest then [payload] else []
  | .absent | .receiving | .acking _ | .leaving | .expired => []

/-- What `s` was sent by `p`, and what is under way, is what `p` owes it. -/
def Owes (b : Broker ι) (s p : ι) (topic : UInt16) : Prop :=
  payloadsFrom p (b.sent s) ++ b.pending s p = window s p topic b.handled

theorem owes_init (s p : ι) (topic : UInt16) : (init : Broker ι).Owes s p topic := rfl

theorem pending_of_session {b b' : Broker ι} {s p : ι} (h : b'.session p = b.session p) :
    b'.pending s p = b.pending s p := by
  rw [pending, pending, h]

omit [DecidableEq ι] in
/-- For a session that sends no UNREGIST, a subscription lasts until its disconnection. -/
theorem Consistent.subscribed_iff {b : Broker ι} (h : b.Consistent) {s : ι}
    (hu : .unregist s ∉ b.handled) (topic : UInt16) :
    Subscribed b.handled s topic ↔
      .regist s topic ∈ b.handled ∧ .disconnected s ∉ b.handled := by
  constructor
  · intro hsub
    have hserving := (h.fits s).serving topic ((h.subscribed s topic).mpr hsub)
    obtain ⟨before, after, heq, -, -⟩ := hsub
    exact ⟨by simp [heq], fun hgone => hserving.not_gone ((h.fits s).gone hgone)⟩
  · rintro ⟨hregist, hgone⟩
    obtain ⟨before, after, heq⟩ := List.append_of_mem hregist
    rw [heq] at hu hgone ⊢
    simp only [List.mem_append, List.mem_cons, not_or] at hu hgone
    exact ⟨before, after, rfl, hu.2.2, hgone.2.2⟩

/-! ## One step -/

/-- A step that neither sends to `s` for `p`, nor moves `p` into or out of a `route`, nor is a
DATA event of `p`. -/
theorem Owes.of_frame {b b' : Broker ι} {s p : ι} {topic : UInt16} (h : b.Owes s p topic)
    (hsent : payloadsFrom p (b'.sent s) = payloadsFrom p (b.sent s))
    (hpending : b'.pending s p = b.pending s p)
    (hhandled : b'.handled = b.handled ∨
      ∃ e, publishedBy p e = none ∧ b'.handled = b.handled ++ [e]) : b'.Owes s p topic := by
  unfold Owes at h ⊢
  rw [hsent, hpending, h]
  rcases hhandled with heq | ⟨e, he, heq⟩
  · rw [heq]
  · rw [heq, window_concat_of_none he]

theorem pending_eq_nil {b : Broker ι} {s p : ι}
    (h : ∀ topic payload sentTo rest, b.session p ≠ .routing topic payload sentTo rest) :
    b.pending s p = [] := by
  rw [pending]
  split
  · exact absurd ‹_› (h _ _ _ _)
  all_goals rfl

/-- One session moves on outside of the loop of `route`. -/
theorem pending_of_moves {b b' : Broker ι} {s p v : ι}
    (hother : ∀ w, w ≠ v → b'.session w = b.session w)
    (hold : ∀ topic payload sentTo rest, b.session v ≠ .routing topic payload sentTo rest)
    (hnew : ∀ topic payload sentTo rest, b'.session v ≠ .routing topic payload sentTo rest) :
    b'.pending s p = b.pending s p := by
  by_cases hv : p = v
  · subst hv
    rw [pending_eq_nil hold, pending_eq_nil hnew]
  · exact pending_of_session (hother p hv)

/-- The handler of a DATA frame takes on the debt towards everybody in the list. -/
theorem Owes.onEvent {b : Broker ι} {s p v : ι} {topic : UInt16} (h : b.Owes s p topic)
    (hb : b.Consistent) (hu : .unregist s ∉ b.handled) (hv : b.session v = .receiving)
    (topic' : UInt16) (payload : Bytes) (htopic : v = p → topic' = topic) :
    (b.onEvent v topic' payload).Owes s p topic := by
  by_cases hvp : v = p
  · subst hvp
    rw [htopic rfl]
    have hiff : s ∈ b.registry.entries topic ↔
        .regist s topic ∈ b.handled ∧ .disconnected s ∉ b.handled :=
      (hb.subscribed s topic).trans (hb.subscribed_iff hu topic)
    have hold : b.pending s v = [] := by rw [pending, hv]
    have hnew : (b.onEvent v topic payload).pending s v =
        if s ∈ b.registry.entries topic then [payload] else [] := by
      simp [pending, Broker.onEvent]
    unfold Owes at h ⊢
    rw [hold, List.append_nil] at h
    rw [hnew]
    change payloadsFrom v (b.sent s) ++ _ = window s v topic (b.handled ++ [.data v topic payload])
    by_cases hmem : s ∈ b.registry.entries topic
    · rw [if_pos hmem, h, window_concat_data (hiff.mp hmem).1 (hiff.mp hmem).2]
    · rw [if_neg hmem, List.append_nil, h, window_concat_data_of_not]
      intro hstart
      by_contra hstop
      exact hmem (hiff.mpr ⟨hstart, hstop⟩)
  · refine h.of_frame rfl (pending_of_session (setSession_of_ne _ _ (Ne.symm hvp))) (.inr ?_)
    exact ⟨.data v topic' payload, by simp [publishedBy, hvp], rfl⟩

/-- An iteration of the loop in `route` pays the debt towards the session it sends to. -/
theorem Owes.forward {b : Broker ι} {s p v weak : ι} {topic topic' : UInt16} {payload : Bytes}
    {sentTo rest : List ι} (h : b.Owes s p topic)
    (hv : b.session v = .routing topic' payload sentTo (weak :: rest)) (hweak : weak ∉ rest) :
    ((b.send weak (Frame.make topic' Frame.DATA payload) v).setSession v
      (.routing topic' payload (sentTo ++ [weak]) rest)).Owes s p topic := by
  by_cases hvp : v = p
  · subst hvp
    have hold : b.pending s v = if s ∈ weak :: rest then [payload] else [] := by rw [pending, hv]
    unfold Owes at h ⊢
    rw [hold] at h
    simp only [setSession_sent, setSession_handled, send_handled, pending, setSession_self]
    rw [← h]
    by_cases hs : s = weak
    · subst hs
      simp [payloadsFrom, hweak]
    · rw [send_sent_of_ne _ _ _ hs]
      simp [hs]
  · refine h.of_frame ?_ (pending_of_session (setSession_of_ne _ _ (Ne.symm hvp))) (.inl rfl)
    rw [setSession_sent]
    by_cases hs : s = weak
    · subst hs
      simp [payloadsFrom, hvp]
    · rw [send_sent_of_ne _ _ _ hs]

/-- What `p` owes `s` is kept by every step, as long as lists are without repetition, `s` sends
no UNREGIST and `p` keeps to one topic. -/
theorem Owes.step {b b' : Broker ι} {a : Action ι} {s p : ι} {topic : UInt16}
    (h : b.Owes s p topic) (hb : b.Consistent) (hdistinct : b.Distinct)
    (hu : .unregist s ∉ b.handled)
    (htopic : ∀ topic' payload, .data p topic' payload ∈ b'.handled → topic' = topic)
    (hstep : b.step a = some b') : b'.Owes s p topic := by
  obtain ⟨-, hrule⟩ := step_cases hstep
  cases hrule with
  | accept v hv | release v hv =>
      exact h.of_frame rfl (pending_of_moves (v := v) (fun w hw => setSession_of_ne b _ hw)
        (by simp [hv]) (by simp)) (.inl rfl)
  | abort v raw hv hraw | ignore v raw frame hv hraw htype => exact h.of_frame rfl rfl (.inl rfl)
  | regist v raw frame hv hraw htype hlock =>
      have hpending : (b.onSubscribe v frame.topic).pending s p = b.pending s p :=
        pending_of_moves (fun w hw => setSession_of_ne _ _ hw) (by simp [hv])
          (by simp [Broker.onSubscribe])
      exact h.of_frame rfl hpending (.inr ⟨.regist v frame.topic, rfl, rfl⟩)
  | unregist v raw frame hv hraw htype hlock =>
      exact h.of_frame rfl rfl (.inr ⟨.unregist v, rfl, rfl⟩)
  | disconnect v hv hlock =>
      have hpending : ((b.onUnsubscribe v (.disconnected v)).setSession v .leaving).pending s p =
          b.pending s p :=
        pending_of_moves (fun w hw => setSession_of_ne _ _ hw) (by simp [hv]) (by simp)
      exact h.of_frame rfl hpending (.inr ⟨.disconnected v, rfl, rfl⟩)
  | data v raw frame hv hraw htype =>
      refine h.onEvent hb hu hv frame.topic frame.payload fun hvp => ?_
      subst hvp
      exact htopic frame.topic frame.payload (List.mem_append_right _ (List.mem_singleton_self _))
  | acknowledge v topic' hv =>
      refine h.of_frame ?_ (pending_of_moves (fun w hw => setSession_of_ne _ _ hw) (by simp [hv])
        (by simp)) (.inl rfl)
      rw [setSession_sent]
      by_cases hs : s = v
      · subst hs
        simp [payloadsFrom, dataPayload_make]
      · rw [send_sent_of_ne _ _ _ hs]
  | forward v topic' payload sentTo weak rest hv halive =>
      apply h.forward hv
      have hnodup : (sentTo ++ weak :: rest).Nodup :=
        (hb.fits v).routing topic' payload sentTo _ hv ▸ hdistinct topic'
      exact (List.nodup_cons.mp (List.nodup_append.mp hnodup).2.1).1
  | skip v topic' payload sentTo weak rest hv halive =>
      exact absurd (hb.alive_of_routing hv List.mem_cons_self) (by simp [halive])
  | routed v topic' payload sentTo hv =>
      refine h.of_frame rfl ?_ (.inl rfl)
      by_cases hvp : p = v
      · subst hvp
        simp [pending, hv]
      · exact pending_of_session (setSession_of_ne _ _ hvp)

end Broker

end CommonLib.AsyncEventBroker
