import CommonLib.Verification.AsyncEventBroker.Malformed
import CommonLib.Verification.AsyncEventTransport.Delivery
import Mathlib.Algebra.BigOperators.Group.Finset.Basic
import Mathlib.Algebra.Order.BigOperators.Group.Finset
import Mathlib.Data.Prod.Lex

/-! # Everything that was sent gets through

No lock and no handler of the broker can hold up the system: from every state the sessions and
receive loops that are still there can work off what is on the links, while the users do
nothing. -/

namespace CommonLib

namespace AsyncEventBroker

variable {ι : Type*}

/-! ## The handlers of the broker come to an end -/

def Session.Routing : Session ι → Prop
  | routing .. => True
  | absent | receiving | acking _ | leaving | expired => False

/-- The steps that a session takes by itself until it waits for a frame. -/
def Session.work : Session ι → ℕ
  | absent | acking _ => 1
  | routing _ _ _ rest => rest.length + 1
  | receiving | leaving | expired => 0

theorem Session.receiving_of_work {stage : Session ι} (hwork : stage.work = 0)
    (hgone : ¬ stage.Gone) : stage = .receiving := by
  cases stage with
  | receiving => rfl
  | absent | acking _ | routing _ _ _ _ => simp [work] at hwork
  | leaving | expired => exact absurd trivial hgone

theorem Session.not_routing_of_work {stage : Session ι} (hwork : stage.work = 0) :
    ¬ stage.Routing := by
  cases stage with
  | routing _ _ _ _ => simp [work] at hwork
  | absent | receiving | acking _ | leaving | expired => exact id

namespace Broker

/-- The lock is held shared by sessions in the loop of `route`, by each of them once. -/
structure Held (b : Broker ι) : Prop where
  nodup : b.readers.Nodup
  routing : ∀ s ∈ b.readers, (b.session s).Routing

theorem held_init : (init : Broker ι).Held :=
  ⟨List.nodup_nil, fun _ h => (by cases h)⟩

/-- Once nobody is in that loop, a writer gets the lock. -/
theorem Held.free {b : Broker ι} (h : b.Held) (hidle : ∀ s, (b.session s).work = 0) :
    b.readers = [] := by
  refine List.eq_nil_iff_forall_not_mem.mpr fun s hs => ?_
  exact Session.not_routing_of_work (hidle s) (h.routing s hs)

variable [DecidableEq ι]

theorem Held.setSession {b : Broker ι} (h : b.Held) {s : ι} {stage : Session ι}
    (hstage : s ∈ b.readers → stage.Routing) : (b.setSession s stage).Held := by
  refine ⟨h.nodup, fun v hv => ?_⟩
  by_cases hvs : v = s
  · subst hvs
    rw [setSession_self]
    exact hstage hv
  · rw [setSession_of_ne _ _ hvs]
    exact h.routing v hv

omit [DecidableEq ι] in
/-- A session outside the loop holds no lock. -/
theorem Held.not_mem {b : Broker ι} (h : b.Held) {s : ι} (hs : ¬ (b.session s).Routing) :
    s ∉ b.readers :=
  fun hmem => hs (h.routing s hmem)

theorem Held.step {b b' : Broker ι} {a : Action ι} (h : b.Held) (hstep : b.step a = some b') :
    b'.Held := by
  obtain ⟨-, hrule⟩ := step_cases hstep
  cases hrule with
  | accept s hs => exact h.setSession fun hmem => absurd hmem (h.not_mem (by simp [hs, Session.Routing]))
  | abort s raw hs hraw => exact ⟨h.nodup, h.routing⟩
  | regist s raw frame hs hraw htype hlock =>
      have hlog : Held ({ b with registry := b.registry.regist frame.topic s }.log
          (.regist s frame.topic)) := ⟨h.nodup, h.routing⟩
      exact hlog.setSession fun hmem => absurd hmem (h.not_mem (by simp [hs, Session.Routing]))
  | unregist s raw frame hs hraw htype hlock => exact ⟨h.nodup, h.routing⟩
  | data s raw frame hs hraw htype =>
      have hnew : s ∉ b.readers := h.not_mem (by simp [hs, Session.Routing])
      refine ⟨List.nodup_cons.mpr ⟨hnew, h.nodup⟩, fun v hv => ?_⟩
      by_cases hvs : v = s
      · subst hvs
        simp [onEvent, Session.Routing]
      · have hold : v ∈ b.readers := List.mem_of_ne_of_mem hvs hv
        have hsame : (b.onEvent s frame.topic frame.payload).session v = b.session v :=
          setSession_of_ne _ _ hvs
        rw [hsame]
        exact h.routing v hold
  | ignore s raw frame hs hraw htype => exact h
  | acknowledge s topic hs =>
      have hsend : (b.send s (Frame.make topic Frame.ACK []) s).Held := ⟨h.nodup, h.routing⟩
      exact hsend.setSession fun hmem => absurd hmem (h.not_mem (by simp [hs, Session.Routing]))
  | forward s topic payload sentTo weak rest hs halive =>
      have hsend : (b.send weak (Frame.make topic Frame.DATA payload) s).Held := ⟨h.nodup, h.routing⟩
      exact hsend.setSession fun _ => trivial
  | skip s topic payload sentTo weak rest hs halive => exact h.setSession fun _ => trivial
  | routed s topic payload sentTo hs =>
      have hlock : Held { b with readers := b.readers.erase s } :=
        ⟨h.nodup.erase s, fun v hv => h.routing v (List.mem_of_mem_erase hv)⟩
      exact hlock.setSession fun hmem => absurd hmem h.nodup.not_mem_erase
  | disconnect s hs hlock =>
      have hlog : (b.onUnsubscribe s (.disconnected s)).Held := ⟨h.nodup, h.routing⟩
      exact hlog.setSession fun hmem => absurd hmem (h.not_mem (by simp [hs, Session.Routing]))
  | release s hs => exact h.setSession fun hmem => absurd hmem (h.not_mem (by simp [hs, Session.Routing]))

theorem Reachable.held {b : Broker ι} (h : (machine ι).Reachable b) : b.Held :=
  h.invariant held_init fun _ _ _ hb _ hstep => hb.step hstep

/-- Every frame that the broker sends can be parsed. -/
def Framed (b : Broker ι) : Prop :=
  ∀ s, ∀ delivery ∈ b.sent s, 3 ≤ delivery.frame.length

theorem Framed.send {b : Broker ι} (h : b.Framed) (s : ι) {frame : Bytes}
    (hframe : 3 ≤ frame.length) (sender : ι) : (b.send s frame sender).Framed := by
  intro v delivery hdelivery
  by_cases hv : v = s
  · subst hv
    rw [send_sent_self] at hdelivery
    rcases List.mem_append.mp hdelivery with hold | hnew
    · exact h v delivery hold
    · rw [List.mem_singleton.mp hnew]
      exact hframe
  · rw [send_sent_of_ne _ _ _ hv] at hdelivery
    exact h v delivery hdelivery

theorem Framed.step {b b' : Broker ι} {a : Action ι} (h : b.Framed)
    (hstep : b.step a = some b') : b'.Framed := by
  have hmake : ∀ (topic : UInt16) (type : UInt8) (payload : Bytes),
      3 ≤ (Frame.make topic type payload).length := fun _ _ payload => by simp [Frame.make]
  obtain ⟨-, hrule⟩ := step_cases hstep
  cases hrule with
  | acknowledge s topic hs => exact h.send s (hmake ..) s
  | forward s topic payload sentTo weak rest hs halive => exact h.send weak (hmake ..) s
  | accept | abort | regist | unregist | data | ignore | skip | routed | disconnect | release =>
      exact h

theorem Reachable.framed {b : Broker ι} (h : (machine ι).Reachable b) : b.Framed :=
  h.invariant (fun _ _ hmem => (by cases hmem)) fun _ _ _ hb _ hstep => hb.step hstep

/-- What a step of one session leaves alone. -/
structure Apart (b b' : Broker ι) (s : ι) : Prop where
  other : ∀ v, v ≠ s → b'.session v = b.session v
  gone : (b'.session s).Gone ↔ (b.session s).Gone

theorem Apart.setSession {b b' : Broker ι} {s : ι} {stage : Session ι}
    (hsession : b'.session = b.session) (hstage : ¬ stage.Gone) (hs : ¬ (b.session s).Gone) :
    b.Apart (b'.setSession s stage) s := by
  refine ⟨fun v hv => ?_, ?_⟩
  · rw [setSession_of_ne _ _ hv, hsession]
  · rw [setSession_self]
    exact iff_of_false hstage hs

/-- A session in a handler goes on, whatever the others do. -/
theorem Consistent.exists_step_of_work {b : Broker ι} (h : b.Consistent) (hlive : b.aborted = false)
    {s : ι} (hs : (b.session s).work ≠ 0) :
    ∃ a b', (∀ v raw, a ≠ .receive v raw) ∧ b.step a = some b' ∧ b.Apart b' s ∧
      (b'.session s).work < (b.session s).work := by
  cases hstage : b.session s with
  | absent =>
      have hgone : ¬ (b.session s).Gone := by simp [hstage, Session.Gone]
      refine ⟨.accept s, b.setSession s .receiving, by simp, by simp [Broker.step, hlive, hstage],
        .setSession rfl (by simp [Session.Gone]) hgone, ?_⟩
      rw [setSession_self]
      exact Nat.one_pos
  | acking topic =>
      have hgone : ¬ (b.session s).Gone := by simp [hstage, Session.Gone]
      refine ⟨.acknowledge s, (b.send s (Frame.make topic Frame.ACK []) s).setSession s .receiving,
        by simp, by simp [Broker.step, hlive, hstage], .setSession rfl (by simp [Session.Gone]) hgone, ?_⟩
      rw [setSession_self]
      exact Nat.one_pos
  | routing topic payload sentTo rest =>
      have hgone : ¬ (b.session s).Gone := by simp [hstage, Session.Gone]
      cases rest with
      | nil =>
          have hapart : b.Apart ({ b with readers := b.readers.erase s }.setSession s .receiving) s :=
            .setSession rfl (by simp [Session.Gone]) hgone
          refine ⟨.forward s, _, by simp, by simp [Broker.step, hlive, forward, hstage], hapart, ?_⟩
          rw [setSession_self]
          exact Nat.one_pos
      | cons weak rest =>
          refine ⟨.forward s, _, by simp, h.step_forward hlive hstage,
            .setSession rfl (by simp [Session.Gone]) hgone, ?_⟩
          rw [setSession_self]
          exact Nat.lt_succ_self _
  | receiving | leaving | expired =>
      rw [hstage] at hs
      exact absurd rfl hs

/-- Between handlers, every frame that can be parsed is taken. -/
theorem Held.exists_step_of_frame {b : Broker ι} (h : b.Held) (hlive : b.aborted = false)
    (hidle : ∀ s, (b.session s).work = 0) {s : ι} (hs : b.session s = .receiving) {raw : Bytes}
    (hraw : 3 ≤ raw.length) : ∃ b', b.step (.receive s raw) = some b' ∧ b.Apart b' s := by
  obtain ⟨frame, hframe⟩ := Frame.exists_parse hraw
  have hgone : ¬ (b.session s).Gone := by simp [hs, Session.Gone]
  have hlock := h.free hidle
  have hstep : b.step (.receive s raw) = b.onReceive s raw := by simp [Broker.step, hlive, hs]
  rw [hstep, onReceive, hframe]
  simp only [hlock, if_true]
  split_ifs with hregist hunregist hdata
  · exact ⟨_, rfl, .setSession rfl (by simp [Session.Gone]) hgone⟩
  · exact ⟨_, rfl, fun _ _ => rfl, Iff.rfl⟩
  · exact ⟨_, rfl, .setSession rfl (by simp [Session.Gone]) hgone⟩
  · exact ⟨b, rfl, fun _ _ => rfl, Iff.rfl⟩

end Broker

end AsyncEventBroker

namespace AsyncEventTransport

open AsyncTcp AsyncEventBroker

variable {ι : Type*}

/-- The receive loop of a subscriber takes every frame that can be parsed, and goes on. -/
theorem Client.exists_receive {c : Client ι} (hlistening : c.listening = true)
    {delivery : Delivery ι} (hframe : 3 ≤ delivery.frame.length) :
    ∃ received, c.receive delivery = some { c with received := received } := by
  obtain ⟨frame, hparse⟩ := Frame.exists_parse hframe
  have hexit : ((handlers delivery.sender).onReceive c.received delivery.frame).exit = .returned := by
    simp only [UserHandlers.onReceive, hparse, handlers]
    split_ifs <;> rfl
  refine ⟨((handlers delivery.sender).onReceive c.received delivery.frame).user, ?_⟩
  simp [Client.receive, hlistening, hexit]

namespace System

variable [DecidableEq ι]

/-! ## Working off what is there -/

theorem Coherent.long {topic : ι → UInt16} {w : System ι} (h : w.Coherent topic) {c : ι}
    {raw : Bytes} (hraw : raw ∈ (w.client c).sent) : 3 ≤ raw.length := by
  rcases (h.client c).frames raw hraw with rfl | ⟨payload, rfl⟩
  · exact le_refl 3
  · simp [Frame.make]

/-- The transports send nothing that could bring the broker down. -/
theorem Reachable.standing {topic : ι → UInt16} {w : System ι} (h : (machine topic).Reachable w) :
    w.broker.aborted = false := by
  refine h.invariant_of (Q := Coherent topic) (P := fun w => w.broker.aborted = false)
    (fun _ hw => Reachable.coherent hw) rfl ?_
  intro w a w' hw hlive _ hstep
  cases step_cases hstep with
  | moves | take => exact hlive
  | serve c raw b hnext hb =>
      refine Bool.eq_false_iff.mpr fun haborted => ?_
      obtain ⟨s, raw', ha, hshort⟩ := (Broker.aborted_step hb).mp haborted
      cases ha
      exact absurd (hw.long (List.mem_of_getElem? hnext)) (Nat.not_le_of_lt hshort)
  | broker a b ha hb =>
      refine Bool.eq_false_iff.mpr fun haborted => ?_
      obtain ⟨s, raw', ha', -⟩ := (Broker.aborted_step hb).mp haborted
      exact ha s raw' ha'

/-- What may have happened since `w` while the users did nothing and no connection broke. -/
structure Quietly (topic : ι → UInt16) (w w' : System ι) : Prop where
  reachable : (machine topic).Reachable w'
  client : ∀ c, ∃ received, w'.client c = { w.client c with received := received }
  gone : ∀ c, (w'.broker.session c).Gone ↔ (w.broker.session c).Gone

/-- Nothing is left to do for the sessions and receive loops that are there. -/
structure Settled (w : System ι) : Prop where
  idle : ∀ c, (w.broker.session c).work = 0
  served : ∀ c, w.broker.session c = .receiving → w.up c = (w.client c).sent.length
  taken : ∀ c, (w.client c).listening = true → w.down c = (w.broker.sent c).length

/-- A step of one session. -/
theorem Quietly.broker {topic : ι → UInt16} {w w' : System ι} (h : Quietly topic w w') {b : Broker ι}
    {up : ι → ℕ} {s : ι} (hb : w'.broker.Apart b s) {a : SystemAction ι}
    (hstep : w'.step topic a = some { w' with broker := b, up := up }) :
    Quietly topic w { w' with broker := b, up := up } := by
  refine ⟨h.reachable.step trivial hstep, h.client, fun c => ?_⟩
  by_cases hc : c = s
  · subst hc
    exact hb.gone.trans (h.gone c)
  · change (b.session c).Gone ↔ _
    rw [hb.other c hc]
    exact h.gone c

/-- What is left to do: frames to be handled by sessions, then steps of handlers under way, then
frames to be taken by subscribers. -/
def distance [Fintype ι] (w : System ι) : ℕ ×ₗ ℕ ×ₗ ℕ :=
  toLex (∑ c, ((w.client c).sent.length - w.up c),
    toLex (∑ c, (w.broker.session c).work, ∑ c, ((w.broker.sent c).length - w.down c)))

theorem sum_lt_of_update [Fintype ι] {f g : ι → ℕ} (c : ι) (hc : g c < f c)
    (hother : ∀ v, v ≠ c → g v = f v) : ∑ v, g v < ∑ v, f v := by
  refine Finset.sum_lt_sum (fun v _ => ?_) ⟨c, Finset.mem_univ c, hc⟩
  by_cases hv : v = c
  · rw [hv]
    exact hc.le
  · exact (hother v hv).le

/-- A handler under way takes its next step. -/
theorem Quietly.work [Fintype ι] {topic : ι → UInt16} {w w' : System ι} (h : Quietly topic w w')
    {s : ι} (hs : (w'.broker.session s).work ≠ 0) :
    ∃ a next, (machine topic).step w' a = some next ∧ Quietly topic w next ∧
      next.distance < w'.distance := by
  have hconsistent := Broker.Reachable.consistent (Reachable.broker h.reachable)
  obtain ⟨a, b, ha, hb, hapart, hless⟩ :=
    hconsistent.exists_step_of_work (Reachable.standing h.reachable) hs
  have hstep : w'.step topic (.broker a) = some { w' with broker := b } := by
    cases a with
    | receive v raw => exact absurd rfl (ha v raw)
    | accept | acknowledge | forward | disconnect | release => simp [step, hb]
  have hnext : Quietly topic w { w' with broker := b } := h.broker hapart hstep
  refine ⟨.broker a, _, hstep, hnext, ?_⟩
  refine Prod.Lex.toLex_lt_toLex.mpr (.inr ⟨rfl, Prod.Lex.toLex_lt_toLex.mpr (.inl ?_)⟩)
  refine sum_lt_of_update s hless fun v hv => ?_
  rw [hapart.other v hv]

/-- A session takes the next frame of its link. -/
theorem Quietly.serve [Fintype ι] {topic : ι → UInt16} {w w' : System ι} (h : Quietly topic w w')
    (hidle : ∀ c, (w'.broker.session c).work = 0) {s : ι} (hs : w'.broker.session s = .receiving)
    (hleft : w'.up s ≠ (w'.client s).sent.length) :
    ∃ a next, (machine topic).step w' a = some next ∧ Quietly topic w next ∧
      next.distance < w'.distance := by
  have hcoherent := Reachable.coherent h.reachable
  have hlt : w'.up s < (w'.client s).sent.length := lt_of_le_of_ne (hcoherent.up s) hleft
  have hnext : (w'.client s).sent[w'.up s]? = some (w'.client s).sent[w'.up s] :=
    List.getElem?_eq_getElem hlt
  have hlong := hcoherent.long (List.getElem_mem hlt)
  have hheld := Broker.Reachable.held (Reachable.broker h.reachable)
  obtain ⟨b, hb, hapart⟩ :=
    hheld.exists_step_of_frame (Reachable.standing h.reachable) hidle hs hlong
  have hstep : w'.step topic (.serve s) =
      some { w' with broker := b, up := Function.update w'.up s (w'.up s + 1) } := by
    simp [step, hnext, hb]
  refine ⟨.serve s, _, hstep, h.broker hapart hstep, ?_⟩
  refine Prod.Lex.toLex_lt_toLex.mpr (.inl ?_)
  refine sum_lt_of_update s ?_ fun v hv => ?_
  · change (w'.client s).sent.length - Function.update w'.up s (w'.up s + 1) s < _
    rw [Function.update_self]
    omega
  · change (w'.client v).sent.length - Function.update w'.up s (w'.up s + 1) v = _
    rw [Function.update_of_ne hv]

/-- The receive loop of a subscriber takes the next frame of its link. -/
theorem Quietly.take [Fintype ι] {topic : ι → UInt16} {w w' : System ι} (h : Quietly topic w w')
    {s : ι} (hlistening : (w'.client s).listening = true)
    (hleft : w'.down s ≠ (w'.broker.sent s).length) :
    ∃ a next, (machine topic).step w' a = some next ∧ Quietly topic w next ∧
      next.distance < w'.distance := by
  have hlt : w'.down s < (w'.broker.sent s).length :=
    lt_of_le_of_ne ((Reachable.coherent h.reachable).down s) hleft
  have hnext : (w'.broker.sent s)[w'.down s]? = some (w'.broker.sent s)[w'.down s] :=
    List.getElem?_eq_getElem hlt
  have hframed := Broker.Reachable.framed (Reachable.broker h.reachable)
  obtain ⟨received, hreceive⟩ :=
    Client.exists_receive hlistening (hframed s _ (List.getElem_mem hlt))
  have hstep : (machine topic).step w' (.take s) = some
      { w'.setClient s { w'.client s with received := received } with
        down := Function.update w'.down s (w'.down s + 1) } := by
    simp [machine, step, hnext, hreceive]
  refine ⟨.take s, _, hstep, ⟨h.reachable.step trivial hstep, fun c => ?_, h.gone⟩, ?_⟩
  · by_cases hc : c = s
    · subst hc
      obtain ⟨received', hclient⟩ := h.client c
      refine ⟨received, ?_⟩
      change (w'.setClient c { w'.client c with received := received }).client c = _
      rw [setClient_self, hclient]
    · change ∃ r, (w'.setClient s { w'.client s with received := received }).client c = _
      rw [setClient_of_ne _ _ hc]
      exact h.client c
  · have hsent : ∀ c, ((w'.setClient s { w'.client s with received := received }).client c).sent =
        (w'.client c).sent := by
      intro c
      by_cases hc : c = s
      · subst hc
        rw [setClient_self]
      · rw [setClient_of_ne _ _ hc]
    refine Prod.Lex.toLex_lt_toLex.mpr (.inr ⟨?_, Prod.Lex.toLex_lt_toLex.mpr (.inr ⟨rfl, ?_⟩)⟩)
    · exact Finset.sum_congr rfl fun c _ => by
        change ((w'.setClient s { w'.client s with received := received }).client c).sent.length -
          w'.up c = _
        rw [hsent c]
    · refine sum_lt_of_update s ?_ fun v hv => ?_
      · change (w'.broker.sent s).length - Function.update w'.down s (w'.down s + 1) s < _
        rw [Function.update_self]
        omega
      · change (w'.broker.sent v).length - Function.update w'.down s (w'.down s + 1) v = _
        rw [Function.update_of_ne hv]

/-- Unless everything is settled, something can be worked off. -/
theorem Quietly.exists_step [Fintype ι] {topic : ι → UInt16} {w w' : System ι}
    (h : Quietly topic w w') (hleft : ¬ w'.Settled) :
    ∃ a next, (machine topic).step w' a = some next ∧ Quietly topic w next ∧
      next.distance < w'.distance := by
  by_cases hidle : ∀ c, (w'.broker.session c).work = 0
  · by_cases hserved : ∀ c, w'.broker.session c = .receiving →
        w'.up c = (w'.client c).sent.length
    · have htaken : ¬ ∀ c, (w'.client c).listening = true →
          w'.down c = (w'.broker.sent c).length := fun htaken => hleft ⟨hidle, hserved, htaken⟩
      push Not at htaken
      obtain ⟨c, hlistening, hdown⟩ := htaken
      exact h.take hlistening hdown
    · push Not at hserved
      obtain ⟨c, hc, hup⟩ := hserved
      exact h.serve hidle hc hup
  · push Not at hidle
    obtain ⟨c, hc⟩ := hidle
    exact h.work hc

/-- A transport whose REGIST was handled is subscribed until its connection breaks. -/
theorem Coherent.subscribed {topic : ι → UInt16} {w : System ι} (h : w.Coherent topic)
    (hb : w.broker.Consistent) {c : ι} (hgone : ¬ (w.broker.session c).Gone)
    (hregist : .regist c (topic c) ∈ w.broker.handled) :
    Subscribed w.broker.handled c (topic c) := by
  obtain ⟨before, after, heq⟩ := List.append_of_mem hregist
  refine ⟨before, after, heq, fun hmem => ?_, fun hmem => ?_⟩
  · exact h.not_unregist c (heq ▸ List.mem_append_right _ (List.mem_cons_of_mem _ hmem))
  · exact hb.not_disconnected hgone (heq ▸ List.mem_append_right _ (List.mem_cons_of_mem _ hmem))

/-- From every state of the system the broker and the receive loops can work off, by themselves,
all that is under way. Then whoever has sent its REGIST over a connection that stands is
subscribed, and whoever listens has, of every transport of its topic whose connection stands,
exactly what that transport published while it was subscribed. -/
theorem drains [Fintype ι] {topic : ι → UInt16} {w : System ι} (h : (machine topic).Reachable w) :
    (machine topic).Leads (fun w' =>
      (∀ c, ∃ received, w'.client c = { w.client c with received := received }) ∧
      (∀ c, Frame.make (topic c) Frame.REGIST [] ∈ (w.client c).sent →
        ¬ (w.broker.session c).Gone → Subscribed w'.broker.handled c (topic c)) ∧
      ∀ s p, topic p = topic s → (w.client s).listening = true → ¬ (w.broker.session p).Gone →
        messagesFrom (w'.client s) p = window s p (topic s) w'.broker.handled ∧
        w'.broker.handled.filterMap (publishedBy p) = (w.client p).ran) w := by
  have hquiet : Quietly topic w w := ⟨h, fun c => ⟨_, rfl⟩, fun _ => Iff.rfl⟩
  refine (Machine.Leads.of_decreasing distance (fun _ => Quietly.exists_step) hquiet).imp ?_
  rintro w' ⟨hw', hsettled⟩
  have hcoherent := Reachable.coherent hw'.reachable
  have hserved : ∀ c, ¬ (w.broker.session c).Gone → w'.broker.session c = .receiving ∧
      w'.broker.handled.filter (·.isFrameOf c) = (w.client c).sent.filterMap (eventOf c) := by
    intro c hgone
    have hidle : w'.broker.session c = .receiving :=
      Session.receiving_of_work (hsettled.idle c) (mt (hw'.gone c).mp hgone)
    obtain ⟨received, hc⟩ := hw'.client c
    refine ⟨hidle, ?_⟩
    rw [hcoherent.served, hsettled.served c hidle, List.take_length, hc]
  refine ⟨hw'.client, fun c hregist hgone => ?_, fun s p htopic hlistening hgone => ⟨?_, ?_⟩⟩
  · have hevent : .regist c (topic c) ∈ w'.broker.handled.filter (·.isFrameOf c) := by
      rw [(hserved c hgone).2]
      exact List.mem_filterMap.mpr ⟨_, hregist, by simp [eventOf]⟩
    have hconsistent := Broker.Reachable.consistent (Reachable.broker hw'.reachable)
    exact hcoherent.subscribed hconsistent (mt (hw'.gone c).mp hgone) (List.mem_of_mem_filter hevent)
  · have hlistening' : (w'.client s).listening = true := by
      obtain ⟨received, hs⟩ := hw'.client s
      rw [hs]
      exact hlistening
    have howes := hcoherent.owes s p htopic
    have hpending : w'.broker.pending s p = [] :=
      Broker.pending_eq_nil (by simp [(hserved p hgone).1])
    rw [Broker.Owes, hpending, List.append_nil] at howes
    rw [messagesFrom_eq (hcoherent.received s), hsettled.taken s hlistening', List.take_length]
    exact howes
  · obtain ⟨received, hp⟩ := hw'.client p
    calc w'.broker.handled.filterMap (publishedBy p)
        = (w.client p).sent.filterMap fun raw => (eventOf p raw).bind (publishedBy p) := by
          rw [filterMap_publishedBy, (hserved p hgone).2, List.filterMap_filterMap]
      _ = (w.client p).sent.filterMap dataPayload :=
          List.filterMap_congr fun raw _ => bind_eventOf p raw
      _ = (w'.client p).sent.filterMap dataPayload := by rw [hp]
      _ = (w'.client p).ran := (hcoherent.client p).payloads
      _ = (w.client p).ran := by rw [hp]

/-- The REGIST of client 0 and the event of client 1 are still on their links. -/
theorem drains_one :
    ∃ w : System (Fin 2), (machine fun _ => 5).run init
        [.subscribe 0, .onConnected 0, .regist 0, .connect 1, .onConnected 1, .publish 1 [7],
          .runTask 1] = some w ∧ w.broker.handled = [] ∧
      (machine fun _ => 5).Leads (fun w' => Subscribed w'.broker.handled 0 5 ∧
        messagesFrom (w'.client 0) 1 = window 0 1 5 w'.broker.handled ∧
        w'.broker.handled.filterMap (publishedBy 1) = [[7]]) w := by
  obtain ⟨w, hrun, hhandled, hregist, hsubscriber, hpublisher, hlistening, hran⟩ :
      ∃ w : System (Fin 2), (machine fun _ => 5).run init
        [.subscribe 0, .onConnected 0, .regist 0, .connect 1, .onConnected 1, .publish 1 [7],
          .runTask 1] = some w ∧ w.broker.handled = [] ∧
      Frame.make 5 Frame.REGIST [] ∈ (w.client 0).sent ∧ w.broker.session 0 = .absent ∧
      w.broker.session 1 = .absent ∧ (w.client 0).listening = true ∧ (w.client 1).ran = [[7]] :=
    ⟨_, rfl, rfl, by decide +kernel, rfl, rfl, rfl, rfl⟩
  refine ⟨w, hrun, hhandled, (drains (Machine.reachable_of_run hrun)).imp ?_⟩
  rintro w' ⟨-, hsubscribed, hwindow⟩
  obtain ⟨hmessages, hpublished⟩ := hwindow 0 1 rfl hlistening (by simp [hpublisher, Session.Gone])
  refine ⟨hsubscribed 0 hregist (by simp [hsubscriber, Session.Gone]), hmessages, ?_⟩
  rw [hpublished, hran]

end System

end AsyncEventTransport

end CommonLib
