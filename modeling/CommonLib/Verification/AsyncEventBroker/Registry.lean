import CommonLib.Verification.AsyncEventBroker.Routing

/-! # The representation invariant of the registry

Pruning keeps the lists nonempty whatever happens. That no session is listed twice is up to the
clients: `regist` appends without looking. -/

namespace CommonLib.AsyncEventBroker

namespace Broker

variable {ι : Type*}

/-- The action is not a REGIST for a topic that the session is subscribed to already. -/
def Fresh (b : Broker ι) (a : Action ι) : Prop :=
  ∀ s raw frame, a = .receive s raw → Frame.parse raw = some frame →
    frame.type = Frame.REGIST → ¬ Subscribed b.handled s frame.topic

theorem fresh_of_ne_receive {b : Broker ι} {a : Action ι} (h : ∀ s raw, a ≠ .receive s raw) :
    b.Fresh a :=
  fun s raw _ ha => absurd ha (h s raw)

theorem fresh_receive_iff {b : Broker ι} {s : ι} {raw : Bytes} {frame : Frame}
    (hraw : Frame.parse raw = some frame) :
    b.Fresh (.receive s raw) ↔
      (frame.type = Frame.REGIST → ¬ Subscribed b.handled s frame.topic) := by
  constructor
  · intro h
    exact h s raw frame rfl hraw
  · intro h s' raw' frame' ha hraw'
    cases ha
    rw [hraw, Option.some.injEq] at hraw'
    exact hraw' ▸ h

variable [DecidableEq ι]

/-- One call of `route` sends every session at most one copy of the event. -/
def SendsOnce (b : Broker ι) : Prop :=
  ∀ s raw frame b₁ actions b₂, Frame.parse raw = some frame → frame.type = Frame.DATA →
    b.step (.receive s raw) = some b₁ → (machine ι).run b₁ actions = some b₂ →
    actions.count (.forward s) ≤ (b.registry.entries frame.topic).length →
    ∀ w, (b₂.sentBy s w).length ≤ (b.sentBy s w).length + 1

/-- What the code around the registry relies on. -/
structure WellFormed (b : Broker ι) : Prop where
  pruned : b.registry.Pruned
  once : ∀ topic s, b.alive s = true → (b.registry.entries topic).count s ≤ 1
  sendsOnce : b.SendsOnce

/-! ## Lists without repetition -/

/-- No topic lists a session twice. -/
def Distinct (b : Broker ι) : Prop :=
  ∀ topic, (b.registry.entries topic).Nodup

/-- Every entry belongs to a live session, so the bound on those is a bound on all. -/
theorem Consistent.distinct_iff {b : Broker ι} (h : b.Consistent) :
    b.Distinct ↔ ∀ topic s, b.alive s = true → (b.registry.entries topic).count s ≤ 1 := by
  constructor
  · intro hdistinct topic s _
    exact List.nodup_iff_count_le_one.mp (hdistinct topic) s
  · intro honce topic
    refine List.nodup_iff_count_le_one.mpr fun s => ?_
    by_cases hs : s ∈ b.registry.entries topic
    · exact honce topic s ((h.fits s).serving topic hs).alive
    · rw [List.count_eq_zero_of_not_mem hs]
      exact Nat.zero_le 1

theorem Consistent.sendsOnce {b : Broker ι} (h : b.Consistent) (hdistinct : b.Distinct) :
    b.SendsOnce := by
  intro s raw frame b₁ actions b₂ hraw htype hstep hrun hcount w
  have hb₁ := step_data hraw htype hstep
  subst hb₁
  obtain ⟨-, hsent⟩ := (h.step hstep).run_routing (setSession_self _ s _) hcount hrun
  have hcopies : ((b.registry.entries frame.topic).take (actions.count (.forward s))).count w ≤ 1 :=
    List.nodup_iff_count_le_one.mp ((hdistinct frame.topic).sublist (List.take_sublist _ _)) w
  rw [hsent w, List.length_append, List.length_replicate]
  exact Nat.add_le_add_left hcopies _

theorem Consistent.wellFormed_iff {b : Broker ι} (h : b.Consistent) (hpruned : b.registry.Pruned) :
    b.WellFormed ↔ b.Distinct := by
  constructor
  · intro hb
    exact h.distinct_iff.mpr hb.once
  · intro hdistinct
    exact ⟨hpruned, h.distinct_iff.mp hdistinct, h.sendsOnce hdistinct⟩

/-! ## One step -/

theorem pruned_step {b b' : Broker ι} {a : Action ι} (h : b.registry.Pruned)
    (hstep : b.step a = some b') : b'.registry.Pruned := by
  obtain ⟨-, hrule⟩ := step_cases hstep
  cases hrule with
  | regist s raw frame hs hraw htype hlock => exact h.regist frame.topic s
  | unregist s raw frame hs hraw htype hlock => exact TopicRegistry.pruned_unregist b.alive _ s
  | disconnect s hs hlock => exact TopicRegistry.pruned_unregist b.alive _ s
  | accept | abort | data | ignore | acknowledge | forward | skip | routed | release => exact h

theorem Distinct.onUnsubscribe {b : Broker ι} (h : b.Distinct) (s : ι) (event : Event ι) :
    (b.onUnsubscribe s event).Distinct := by
  intro topic
  change ((b.registry.unregist b.alive s).entries topic).Nodup
  rw [TopicRegistry.entries_unregist]
  exact (h topic).filter _

/-- `regist` appends: the list stays without repetition exactly if the session was not in it. -/
theorem Consistent.distinct_onSubscribe_iff {b : Broker ι} (h : b.Consistent) (hb : b.Distinct)
    (s : ι) (topic : UInt16) :
    (b.onSubscribe s topic).Distinct ↔ ¬ Subscribed b.handled s topic := by
  rw [← h.subscribed]
  constructor
  · intro hdistinct hmem
    have hnodup : ((b.registry.regist topic s).entries topic).Nodup := hdistinct topic
    rw [TopicRegistry.entries_regist_self, List.nodup_append] at hnodup
    exact hnodup.2.2 s hmem s (List.mem_singleton_self s) rfl
  · intro hmem topic'
    change ((b.registry.regist topic s).entries topic').Nodup
    by_cases htopic : topic' = topic
    · subst htopic
      rw [TopicRegistry.entries_regist_self]
      exact (hb topic').append (List.nodup_singleton s) (by simpa using hmem)
    · rw [TopicRegistry.entries_regist_of_ne _ _ htopic]
      exact hb topic'

theorem Consistent.distinct_step_iff {b b' : Broker ι} {a : Action ι} (h : b.Consistent)
    (hb : b.Distinct) (hstep : b.step a = some b') : b'.Distinct ↔ b.Fresh a := by
  obtain ⟨-, hrule⟩ := step_cases hstep
  cases hrule with
  | regist s raw frame hs hraw htype hlock =>
      rw [h.distinct_onSubscribe_iff hb, fresh_receive_iff hraw]
      simp [htype]
  | unregist s raw frame hs hraw htype hlock =>
      refine iff_of_true (hb.onUnsubscribe s _) ((fresh_receive_iff hraw).mpr fun hregist => ?_)
      exact absurd (htype.symm.trans hregist) (by decide)
  | data s raw frame hs hraw htype =>
      refine iff_of_true hb ((fresh_receive_iff hraw).mpr fun hregist => ?_)
      exact absurd (htype.symm.trans hregist) (by decide)
  | ignore s raw frame hs hraw htype =>
      exact iff_of_true hb ((fresh_receive_iff hraw).mpr fun hregist => absurd hregist htype.1)
  | abort s raw hs hraw =>
      refine iff_of_true hb fun s' raw' frame ha hraw' => ?_
      cases ha
      rw [hraw] at hraw'
      cases hraw'
  | disconnect s hs hlock =>
      exact iff_of_true (hb.onUnsubscribe s (.disconnected s)) (fresh_of_ne_receive (by simp))
  | accept | acknowledge | forward | skip | routed | release =>
      exact iff_of_true hb (fresh_of_ne_receive (by simp))

/-! ## Every run -/

/-- A run keeps the representation invariant exactly if no REGIST in it repeats a subscription
that is still in force. -/
theorem wellFormed_iff_fresh (actions : List (Action ι)) :
    (machine ι).Holds WellFormed init actions ↔ (machine ι).Meets Fresh init actions := by
  have hdistinct : (init : Broker ι).Distinct := fun _ => List.nodup_nil
  refine Machine.holds_iff_meets (I := fun b => b.Consistent ∧ b.registry.Pruned)
    (fun b a b' hI hstep => ⟨hI.1.step hstep, pruned_step hI.2 hstep⟩) ?_
    ⟨consistent_init, TopicRegistry.pruned_empty⟩
    ((consistent_init.wellFormed_iff TopicRegistry.pruned_empty).mpr hdistinct) actions
  intro b a b' hI hb hstep
  rw [(hI.1.step hstep).wellFormed_iff (pruned_step hI.2 hstep)]
  exact hI.1.distinct_step_iff ((hI.1.wellFormed_iff hI.2).mp hb) hstep

/-- A client that sends REGIST twice is listed twice, and gets every event twice. -/
theorem repeated_regist_listed_twice :
    ∃ b : Broker (Fin 2), (machine (Fin 2)).run init [.accept 0, .accept 1,
        .receive 0 (Frame.make 5 Frame.REGIST []), .acknowledge 0,
        .receive 0 (Frame.make 5 Frame.REGIST []), .acknowledge 0] = some b ∧
      b.alive 0 = true ∧ b.registry.entries 5 = [0, 0] ∧ ¬ b.WellFormed ∧
      ∃ b', (machine (Fin 2)).run b [.receive 1 (Frame.make 5 Frame.DATA [7]),
        .forward 1, .forward 1, .forward 1] = some b' ∧
        b'.sentBy 1 0 = [⟨Frame.make 5 Frame.DATA [7], 1⟩, ⟨Frame.make 5 Frame.DATA [7], 1⟩] := by
  refine ⟨_, rfl, by decide +kernel, by decide +kernel, ?_, _, rfl, by decide +kernel⟩
  intro hb
  exact absurd (hb.once 5 0 (by decide +kernel)) (by decide +kernel)

end Broker

end CommonLib.AsyncEventBroker
