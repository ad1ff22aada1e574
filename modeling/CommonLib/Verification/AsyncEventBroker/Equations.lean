import CommonLib.Model.AsyncEventBroker

/-! Computation rules of the registry, and the steps of the broker as local rules. -/

namespace CommonLib.AsyncEventBroker

open List

variable {ι : Type*}

/-! ## The registry -/

namespace TopicRegistry

@[simp] theorem entries_empty (topic : UInt16) : (empty : TopicRegistry ι).entries topic = [] := rfl

theorem entries_regist_self (r : TopicRegistry ι) (topic : UInt16) (s : ι) :
    (r.regist topic s).entries topic = r.entries topic ++ [s] := by
  simp [entries, regist]

theorem entries_regist_of_ne (r : TopicRegistry ι) {topic topic' : UInt16} (s : ι)
    (h : topic' ≠ topic) : (r.regist topic s).entries topic' = r.entries topic' := by
  simp [entries, regist, AList.lookup_insert_ne h]

/-- The loop of `unregist` filters the list of every topic. Keys must be distinct: behind an
erased entry no second one for the same topic may come to light. -/
theorem dlookup_unregistLoop (leaves : ι → Bool) {l : List (Σ _ : UInt16, List ι)}
    (hnd : l.NodupKeys) (topic : UInt16) :
    ((unregistLoop leaves l).dlookup topic).getD [] =
      ((l.dlookup topic).getD []).filter fun weak => !leaves weak := by
  induction l with
  | nil => rfl
  | cons entry rest ih =>
      obtain ⟨key, sessions⟩ := entry
      obtain ⟨hkey, hrest⟩ := List.nodupKeys_cons.mp hnd
      simp only [unregistLoop]
      by_cases htopic : topic = key
      · subst htopic
        rw [dlookup_cons_eq, Option.getD_some]
        split
        · rename_i hempty
          have hnone : rest.dlookup topic = none := dlookup_eq_none.mpr hkey
          rw [ih hrest, hnone, List.isEmpty_iff.mp hempty]
          rfl
        · rw [dlookup_cons_eq, Option.getD_some]
      · rw [dlookup_cons_ne _ _ htopic]
        split
        · exact ih hrest
        · rw [dlookup_cons_ne _ _ htopic]
          exact ih hrest

theorem entries_unregist [DecidableEq ι] (alive : ι → Bool) (r : TopicRegistry ι) (s : ι)
    (topic : UInt16) :
    (r.unregist alive s).entries topic =
      (r.entries topic).filter fun weak => !(alive weak && decide (weak = s)) :=
  dlookup_unregistLoop _ r.sessions.nodupKeys topic

/-- No topic is mapped to an empty list. -/
def Pruned (r : TopicRegistry ι) : Prop :=
  ∀ topic sessions, r.sessions.lookup topic = some sessions → sessions ≠ []

theorem pruned_empty : (empty : TopicRegistry ι).Pruned := by
  intro topic sessions h
  cases h

theorem Pruned.regist {r : TopicRegistry ι} (h : r.Pruned) (topic : UInt16) (s : ι) :
    (r.regist topic s).Pruned := by
  intro topic' sessions hlookup
  by_cases htopic : topic' = topic
  · subst htopic
    simp only [TopicRegistry.regist, AList.lookup_insert, Option.some.injEq] at hlookup
    simp [← hlookup]
  · rw [TopicRegistry.regist, AList.lookup_insert_ne htopic] at hlookup
    exact h topic' sessions hlookup

theorem dlookup_unregistLoop_ne_nil (leaves : ι → Bool) (l : List (Σ _ : UInt16, List ι))
    (topic : UInt16) (sessions : List ι)
    (h : (unregistLoop leaves l).dlookup topic = some sessions) : sessions ≠ [] := by
  induction l with
  | nil => cases h
  | cons entry rest ih =>
      obtain ⟨key, kept⟩ := entry
      simp only [unregistLoop] at h
      split at h
      · exact ih h
      · rename_i hkept
        by_cases htopic : topic = key
        · subst htopic
          rw [dlookup_cons_eq, Option.some.injEq] at h
          rw [← h]
          simpa using hkept
        · rw [dlookup_cons_ne _ ⟨key, _⟩ htopic] at h
          exact ih h

/-- `unregist` leaves no empty list behind, whatever it was given. -/
theorem pruned_unregist [DecidableEq ι] (alive : ι → Bool) (r : TopicRegistry ι) (s : ι) :
    (r.unregist alive s).Pruned :=
  dlookup_unregistLoop_ne_nil _ _

end TopicRegistry

/-! ## The steps -/

namespace Broker

variable [DecidableEq ι]

@[simp] theorem setSession_self (b : Broker ι) (s : ι) (stage : Session ι) :
    (b.setSession s stage).session s = stage := by
  simp [setSession]

theorem setSession_of_ne (b : Broker ι) {s w : ι} (stage : Session ι) (h : w ≠ s) :
    (b.setSession s stage).session w = b.session w := by
  simp [setSession, h]

@[simp] theorem setSession_sent (b : Broker ι) (s : ι) (stage : Session ι) :
    (b.setSession s stage).sent = b.sent := rfl

@[simp] theorem setSession_handled (b : Broker ι) (s : ι) (stage : Session ι) :
    (b.setSession s stage).handled = b.handled := rfl

@[simp] theorem send_handled (b : Broker ι) (s : ι) (frame : Bytes) (sender : ι) :
    (b.send s frame sender).handled = b.handled := rfl

@[simp] theorem send_sent_self (b : Broker ι) (s : ι) (frame : Bytes) (sender : ι) :
    (b.send s frame sender).sent s = b.sent s ++ [⟨frame, sender⟩] := by
  simp [send]

theorem send_sent_of_ne (b : Broker ι) {s w : ι} (frame : Bytes) (sender : ι) (h : w ≠ s) :
    (b.send s frame sender).sent w = b.sent w := by
  simp [send, h]

/-- The rules by which the broker moves, one for each branch of its code. -/
inductive Step (b : Broker ι) : Action ι → Broker ι → Prop
  | accept (s) (hs : b.session s = .absent) :
      Step b (.accept s) (b.setSession s .receiving)
  | abort (s raw) (hs : b.session s = .receiving) (hraw : Frame.parse raw = none) :
      Step b (.receive s raw) { b with aborted := true }
  | regist (s raw frame) (hs : b.session s = .receiving) (hraw : Frame.parse raw = some frame)
      (htype : frame.type = Frame.REGIST) (hlock : b.readers = []) :
      Step b (.receive s raw) (b.onSubscribe s frame.topic)
  | unregist (s raw frame) (hs : b.session s = .receiving) (hraw : Frame.parse raw = some frame)
      (htype : frame.type = Frame.UNREGIST) (hlock : b.readers = []) :
      Step b (.receive s raw) (b.onUnsubscribe s (.unregist s))
  | data (s raw frame) (hs : b.session s = .receiving) (hraw : Frame.parse raw = some frame)
      (htype : frame.type = Frame.DATA) :
      Step b (.receive s raw) (b.onEvent s frame.topic frame.payload)
  | ignore (s raw frame) (hs : b.session s = .receiving) (hraw : Frame.parse raw = some frame)
      (htype : frame.type ≠ Frame.REGIST ∧ frame.type ≠ Frame.UNREGIST ∧
        frame.type ≠ Frame.DATA) :
      Step b (.receive s raw) b
  | acknowledge (s topic) (hs : b.session s = .acking topic) :
      Step b (.acknowledge s)
        ((b.send s (Frame.make topic Frame.ACK []) s).setSession s .receiving)
  | forward (s topic payload sentTo weak rest)
      (hs : b.session s = .routing topic payload sentTo (weak :: rest))
      (halive : b.alive weak = true) :
      Step b (.forward s) ((b.send weak (Frame.make topic Frame.DATA payload) s).setSession s
        (.routing topic payload (sentTo ++ [weak]) rest))
  | skip (s topic payload sentTo weak rest)
      (hs : b.session s = .routing topic payload sentTo (weak :: rest))
      (halive : b.alive weak = false) :
      Step b (.forward s) (b.setSession s (.routing topic payload sentTo rest))
  | routed (s topic payload sentTo) (hs : b.session s = .routing topic payload sentTo []) :
      Step b (.forward s) ({ b with readers := b.readers.erase s }.setSession s .receiving)
  | disconnect (s) (hs : b.session s = .receiving) (hlock : b.readers = []) :
      Step b (.disconnect s) ((b.onUnsubscribe s (.disconnected s)).setSession s .leaving)
  | release (s) (hs : b.session s = .leaving) :
      Step b (.release s) (b.setSession s .expired)

theorem Step.of_onReceive {b b' : Broker ι} {s : ι} {raw : Bytes}
    (hs : b.session s = .receiving) (h : b.onReceive s raw = some b') :
    Step b (.receive s raw) b' := by
  unfold onReceive at h
  cases hraw : Frame.parse raw with
  | none =>
      rw [hraw] at h
      cases h
      exact .abort s raw hs hraw
  | some frame =>
      simp only [hraw] at h
      by_cases hregist : frame.type = Frame.REGIST
      · rw [if_pos hregist] at h
        split at h <;> cases h
        exact .regist s raw frame hs hraw hregist ‹_›
      · rw [if_neg hregist] at h
        by_cases hunregist : frame.type = Frame.UNREGIST
        · rw [if_pos hunregist] at h
          split at h <;> cases h
          exact .unregist s raw frame hs hraw hunregist ‹_›
        · rw [if_neg hunregist] at h
          by_cases hdata : frame.type = Frame.DATA
          · rw [if_pos hdata] at h
            cases h
            exact .data s raw frame hs hraw hdata
          · rw [if_neg hdata] at h
            cases h
            exact .ignore s raw frame hs hraw ⟨hregist, hunregist, hdata⟩

theorem Step.of_forward {b b' : Broker ι} {s : ι} (h : b.forward s = some b') :
    Step b (.forward s) b' := by
  unfold Broker.forward at h
  split at h
  · rename_i topic payload sentTo weak rest hs
    split at h <;> cases h
    · exact .forward s topic payload sentTo weak rest hs ‹_›
    · exact .skip s topic payload sentTo weak rest hs (Bool.eq_false_iff.mpr ‹_›)
  · rename_i topic payload sentTo hs
    cases h
    exact .routed s topic payload sentTo hs
  · cases h

/-- Every enabled action moves the broker by one of the rules, and the broker had not aborted. -/
theorem step_cases {b b' : Broker ι} {a : Action ι} (h : b.step a = some b') :
    b.aborted = false ∧ Step b a b' := by
  unfold step at h
  split at h
  · cases h
  · rename_i haborted
    refine ⟨by simpa using haborted, ?_⟩
    cases a with
    | accept s =>
        simp only at h
        split at h <;> cases h
        exact .accept s ‹_›
    | receive s raw =>
        simp only at h
        split at h
        · exact .of_onReceive ‹_› h
        · cases h
    | acknowledge s =>
        simp only at h
        split at h <;> cases h
        exact .acknowledge s _ ‹_›
    | forward s => exact .of_forward h
    | disconnect s =>
        simp only at h
        split at h
        · rename_i hs
          cases h
          exact .disconnect s hs.1 hs.2
        · cases h
    | release s =>
        simp only at h
        split at h <;> cases h
        exact .release s ‹_›

end Broker

end CommonLib.AsyncEventBroker
