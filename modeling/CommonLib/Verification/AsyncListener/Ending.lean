import CommonLib.Verification.AsyncListener.Accepting

/-! # When the accept loop goes on, and when it ends

While the acceptor is open the loop gets to every connection, whatever errors come in between;
after `stop` every schedule of what is still under way is short. -/

namespace CommonLib.AsyncTcp

variable {ι : Type*}

namespace AsyncListener

/-! ## An open acceptor -/

/-- `onAccept` does not throw. -/
def Returns (_ : AsyncListener ι) (a : ListenerAction ι) : Prop :=
  ∀ k, a ≠ .throws k

instance (s : AsyncListener ι) (a : ListenerAction ι) : Decidable (s.Returns a) :=
  match a with
  | .throws k => isFalse fun h => h k rfl
  | .listen _ | .stop | .arrive _ | .accept _ | .fail _ _ | .handle _ | .returns _ =>
      isTrue fun _ => by simp

/-- While the acceptor is open, the loop of the last `listen` goes on. -/
def Attended (s : AsyncListener ι) : Prop :=
  s.isOpen = true → ∃ loop, s.loops.getLast? = some loop ∧ loop.Live

theorem getLast?_split (front back : List (AcceptLoop ι)) (loop : AcceptLoop ι) :
    (front ++ loop :: back).getLast? = some (back.getLast?.getD loop) := by
  simp [List.getLast?_append, List.getLast?_cons]

theorem Turn.live {s : AsyncListener ι} {a : ListenerAction ι} {old new : AcceptLoop ι}
    {backlog handed : List ι} (h : Turn s a old new backlog handed) (hok : s.Returns a)
    (hopen : s.isOpen = true) (hold : old.Live) : new.Live := by
  cases h with
  | fail k ec hec => exact AcceptLoop.live_of_ne hec
  | aborted k => exact hold
  | giveUp k ec hec hclosed | rearmClosed k hclosed =>
      rw [hopen] at hclosed
      cases hclosed
  | throws k => exact absurd rfl (hok k)
  | accept | hand | retry | rearm => trivial

theorem Attended.step {s s' : AsyncListener ι} {a : ListenerAction ι} (h : s.Attended)
    (hok : s.Returns a) (hstep : Step s a s') : s'.Attended := by
  cases hstep with
  | listen => exact fun _ => ⟨.pending, by simp [AsyncListener.listen], trivial⟩
  | refused => exact h
  | stopped hclosed => exact h
  | stop hopen => exact fun hclosed => by cases hclosed
  | arrive c hopen => exact h
  | turn a old new backlog handed front back hloops hturn =>
      intro hopen
      obtain ⟨loop, hlast, hlive⟩ := h hopen
      rw [hloops, getLast?_split, Option.some.injEq] at hlast
      refine ⟨_, getLast?_split front back new, ?_⟩
      cases hback : back.getLast? with
      | none =>
          rw [hback, Option.getD_none] at hlast
          exact hturn.live hok hopen (hlast ▸ hlive)
      | some last =>
          rw [hback, Option.getD_some] at hlast
          exact hlast ▸ hlive

theorem Reaches.attended {s : AsyncListener ι} (h : (machine ι).Reaches Returns s) : s.Attended :=
  h.invariant (fun hopen => by cases hopen) fun _ _ _ hs hok hstep => hs.step hok (step_cases hstep).2

/-! ## Turns that bring the loops to rest -/

def work (s : AsyncListener ι) : ℕ :=
  4 * s.backlog.length + (s.loops.map AcceptLoop.work).sum

/-- Nothing is left to accept or to pass on. -/
structure Rested (s : AsyncListener ι) : Prop where
  backlog : s.backlog = []
  loops : ∀ loop ∈ s.loops, loop.work = 0

theorem Turn.work {s : AsyncListener ι} {a : ListenerAction ι} {old new : AcceptLoop ι}
    {backlog handed : List ι} (h : Turn s a old new backlog handed)
    (hok : ∀ k ec, a ≠ .fail k ec) :
    4 * backlog.length + new.work < 4 * s.backlog.length + old.work := by
  cases h with
  | accept k c rest hbacklog =>
      rw [hbacklog, List.length_cons]
      simp only [AcceptLoop.work]
      omega
  | fail k ec hec => exact absurd rfl (hok k ec)
  | hand | aborted | retry | giveUp | rearm | rearmClosed | throws =>
      simp only [AcceptLoop.work]
      omega

theorem work_split {s : AsyncListener ι} {a : ListenerAction ι} {old new : AcceptLoop ι}
    {backlog handed : List ι} {front back : List (AcceptLoop ι)}
    (hloops : s.loops = front ++ old :: back) (hturn : Turn s a old new backlog handed)
    (hok : ∀ k ec, a ≠ .fail k ec) :
    work { s with backlog := backlog, handed := handed, loops := front ++ new :: back } < s.work := by
  have hless := hturn.work hok
  simp only [work, hloops, List.map_append, List.map_cons, List.sum_append, List.sum_cons]
  omega

/-- What the loops alone can have done since `s`. -/
structure Onward (s s' : AsyncListener ι) : Prop where
  reaches : (machine ι).Reaches Returns s'
  live : s'.terminated = false
  isOpen : s'.isOpen = s.isOpen
  arrived : s'.arrived = s.arrived
  lost : s'.lost = s.lost
  loops : s'.loops.length = s.loops.length

/-- A turn that is possible, and neither an error nor an exception. -/
theorem Onward.turn {s s' : AsyncListener ι} (h : Onward s s') {a : ListenerAction ι}
    {old new : AcceptLoop ι} {backlog handed : List ι} {k : ℕ} (hk : s'.loops[k]? = some old)
    (hturn : Turn s' a old new backlog handed) (hfail : ∀ k ec, a ≠ .fail k ec)
    (hok : s'.Returns a)
    (hstep : s'.step a =
      some { s' with backlog := backlog, handed := handed, loops := s'.loops.set k new }) :
    ∃ a next, (machine ι).step s' a = some next ∧ Onward s next ∧ next.work < s'.work := by
  obtain ⟨front, back, hloops, hset⟩ := exists_split_of_getElem? hk
  refine ⟨a, _, hstep, ⟨h.reaches.step hok hstep, h.live, h.isOpen, h.arrived, h.lost, ?_⟩, ?_⟩
  · rw [← h.loops]
    exact List.length_set
  · rw [hset]
    exact work_split hloops hturn hfail

theorem Onward.exists_step {s s' : AsyncListener ι} (h : Onward s s') (hleft : ¬ s'.Rested) :
    ∃ a next, (machine ι).step s' a = some next ∧ Onward s next ∧ next.work < s'.work := by
  by_cases hloops : ∀ loop ∈ s'.loops, loop.work = 0
  · -- All loops wait or have ended, so it is the backlog that is left.
    obtain ⟨c, rest, hbacklog⟩ := List.exists_cons_of_ne_nil fun hnil => hleft ⟨hnil, hloops⟩
    have haccounted := Reachable.accounted (h.reaches.mono fun _ _ _ => trivial)
    have hopen : s'.isOpen = true := by
      by_contra hclosed
      rw [haccounted.idle (by simpa using hclosed)] at hbacklog
      cases hbacklog
    obtain ⟨loop, hlast, hlive⟩ := Reaches.attended h.reaches hopen
    obtain rfl : loop = .pending := by
      have hwork := hloops loop (List.mem_of_getLast? hlast)
      cases loop with
      | pending => rfl
      | ended => exact absurd hlive id
      | accepting => cases hwork
      | completed result => cases result <;> cases hwork
    rw [List.getLast?_eq_getElem?] at hlast
    have hturn := Turn.accept (s'.loops.length - 1) c rest hbacklog
    refine h.turn hlast hturn (by simp) (fun _ => by simp) ?_
    simp [step, h.live, hlast, hbacklog, setLoop]
  · push Not at hloops
    obtain ⟨loop, hmem, hwork⟩ := hloops
    obtain ⟨k, hk⟩ := List.mem_iff_getElem?.mp hmem
    cases loop with
    | pending | ended => exact absurd rfl hwork
    | completed result =>
        obtain ⟨new, handed, hturn, hhandler⟩ := Turn.of_handler s' k result
        refine h.turn hk hturn (by simp) (fun _ => by simp) ?_
        simp [step, h.live, hk, hhandler]
    | accepting =>
        obtain ⟨new, hturn, hlistening⟩ := Turn.of_returns s' k
        refine h.turn hk hturn (by simp) (fun _ => by simp) ?_
        simp [step, h.live, hk, hlistening]

theorem Rested.inFlight {s : AsyncListener ι} (h : s.Rested) : s.inFlight = [] := by
  refine List.filterMap_eq_nil_iff.mpr fun loop hloop => ?_
  have hwork := h.loops loop hloop
  cases loop with
  | pending | accepting | ended => rfl
  | completed result =>
      cases result with
      | connection c => cases hwork
      | error ec => rfl

/-- While `onAccept` does not throw, no error of an accept ends the loop: from every state the
handlers get to all the connections that have come in, and then the loop of the last `listen` waits
for the next one if the acceptor is open; if it is closed, all loops have ended. -/
theorem gets_to_all {s : AsyncListener ι} (h : (machine ι).Reaches Returns s)
    (hlive : s.terminated = false) :
    (machine ι).Leads (fun s' => s'.isOpen = s.isOpen ∧ s'.arrived = s.arrived ∧
      s.arrived.Perm (s'.handed ++ s.lost) ∧
      (s.loops.length ≤ 1 → s.isOpen = true → s'.handed = s.arrived) ∧
      (s.isOpen = true → s'.loops.getLast? = some .pending) ∧
      (s.isOpen = false → ∀ loop ∈ s'.loops, loop = .ended)) s := by
  have hstart : Onward s s := ⟨h, hlive, rfl, rfl, rfl, rfl⟩
  refine (Machine.Leads.of_decreasing work (fun _ => Onward.exists_step) hstart).imp ?_
  rintro s' ⟨hs', hrested⟩
  have haccounted := Reachable.accounted (hs'.reaches.mono fun _ _ _ => trivial)
  refine ⟨hs'.isOpen, hs'.arrived, ?_, fun hone hopen => ?_, fun hopen => ?_, fun hclosed => ?_⟩
  · have hall := haccounted.all
    rwa [hrested.inFlight, hrested.backlog, hs'.arrived, hs'.lost, List.append_nil,
      List.append_nil] at hall
  · obtain ⟨harrived, hlost⟩ := haccounted.order (hs'.loops.trans_le hone)
    rw [hrested.inFlight, hrested.backlog, hlost (hs'.isOpen.trans hopen), hs'.arrived] at harrived
    simpa using harrived.symm
  · obtain ⟨loop, hlast, hloop⟩ := Reaches.attended hs'.reaches (hs'.isOpen.trans hopen)
    have hwork := hrested.loops loop (List.mem_of_getLast? hlast)
    cases loop with
    | pending => exact hlast
    | ended => exact absurd hloop id
    | accepting => cases hwork
    | completed result => cases result <;> cases hwork
  · intro loop hloop
    have hwork := hrested.loops loop hloop
    cases loop with
    | pending =>
        have hopen := haccounted.pending hloop
        rw [hs'.isOpen, hclosed] at hopen
        cases hopen
    | ended => rfl
    | accepting => cases hwork
    | completed result => cases result <;> cases hwork

/-- Two connections wait while the first accept has failed. -/
theorem gets_to_all_two :
    ∃ s : AsyncListener ℕ, (machine ℕ).run init
        [.listen true, .fail 0 (.other 24), .arrive 7, .arrive 8] = some s ∧
      (machine ℕ).Leads (fun s' => s'.handed = [7, 8] ∧ s'.loops.getLast? = some .pending) s := by
  obtain ⟨s, hrun, hmeets, hlive, hopen, hloops, harrived⟩ : ∃ s : AsyncListener ℕ,
      (machine ℕ).run init [.listen true, .fail 0 (.other 24), .arrive 7, .arrive 8] = some s ∧
      (machine ℕ).Meets Returns init [.listen true, .fail 0 (.other 24), .arrive 7, .arrive 8] ∧
      s.terminated = false ∧ s.isOpen = true ∧ s.loops.length ≤ 1 ∧ s.arrived = [7, 8] :=
    ⟨_, rfl, by decide, rfl, rfl, by decide, rfl⟩
  refine ⟨s, hrun, (gets_to_all (Machine.Reaches.init.run_of_meets hmeets hrun) hlive).imp ?_⟩
  rintro s' ⟨-, -, -, hhanded, hlast, -⟩
  exact ⟨(hhanded hloops hopen).trans harrived, hlast hopen⟩

/-! ## A closed acceptor -/

theorem work_le (loop : AcceptLoop ι) : loop.work ≤ 3 := by
  cases loop with
  | pending | accepting | ended => simp [AcceptLoop.work]
  | completed result => cases result <;> simp [AcceptLoop.work]

theorem sum_work_le (loops : List (AcceptLoop ι)) :
    (loops.map AcceptLoop.work).sum ≤ 3 * loops.length := by
  induction loops with
  | nil => exact le_refl 0
  | cons loop loops ih =>
      have hloop := work_le loop
      rw [List.map_cons, List.sum_cons, List.length_cons]
      omega

/-- On a closed acceptor nothing happens but turns of the loops, and each brings them nearer to
their end. -/
theorem Accounted.turn_of_closed {s s' : AsyncListener ι} {a : ListenerAction ι}
    (h : s.Accounted) (hclosed : s.isOpen = false) (hlisten : ∀ bound, a ≠ .listen bound)
    (hstop : a ≠ .stop) (hstep : Step s a s') :
    s'.isOpen = false ∧ s'.arrived = s.arrived ∧ s.handed <+: s'.handed ∧
      (s'.handed ++ s'.inFlight).Perm (s.handed ++ s.inFlight) ∧ s'.work < s.work := by
  have hbacklog := h.idle hclosed
  cases hstep with
  | listen => exact absurd rfl (hlisten true)
  | refused => exact absurd rfl (hlisten false)
  | stopped | stop => exact absurd rfl hstop
  | arrive c hopen =>
      rw [hclosed] at hopen
      cases hopen
  | turn a old new backlog handed front back hloops hturn =>
      have hfail : ∀ k ec, a ≠ .fail k ec := by
        rintro k ec rfl
        cases hturn with
        | fail k ec hec =>
            have hopen := h.pending (by simp [hloops])
            rw [hclosed] at hopen
            cases hopen
      have hempty : backlog = [] := by
        cases hturn with
        | accept k c rest hcons =>
            rw [hbacklog] at hcons
            cases hcons
        | fail | hand | aborted | retry | giveUp | rearm | rearmClosed | throws => exact hbacklog
      refine ⟨hclosed, rfl, hturn.handed_prefix, ?_, work_split hloops hturn hfail⟩
      have horder := congrArg (fun l : List ι => (l : Multiset ι)) hturn.order
      rw [hempty, hbacklog, List.append_nil, List.append_nil] at horder
      rw [inFlight, inFlight, hloops]
      change (handed ++ (front ++ new :: back).filterMap _).Perm _
      rw [filterMap_split, filterMap_split]
      simp only [← Multiset.coe_eq_coe, ← Multiset.coe_add] at horder ⊢
      calc _ = ((handed : Multiset ι) + new.connection.toList) +
            (front.filterMap AcceptLoop.connection + back.filterMap AcceptLoop.connection) := by abel
        _ = ((s.handed : Multiset ι) + old.connection.toList) +
            (front.filterMap AcceptLoop.connection + back.filterMap AcceptLoop.connection) := by
            rw [horder]
        _ = _ := by abel

/-- What can have happened since `s` on a closed acceptor. -/
structure Since (s s' : AsyncListener ι) : Prop where
  reachable : (machine ι).Reachable s'
  closed : s'.isOpen = false
  handed : s.handed <+: s'.handed
  flight : (s'.handed ++ s'.inFlight).Perm (s.handed ++ s.inFlight)

theorem Since.step {s s' next : AsyncListener ι} {a : ListenerAction ι} (h : Since s s')
    (hlisten : ∀ bound, a ≠ .listen bound) (hstop : a ≠ .stop)
    (hstep : (machine ι).step s' a = some next) : Since s next ∧ next.work < s'.work := by
  obtain ⟨hclosed, -, hhanded, hflight, hless⟩ :=
    (Reachable.accounted h.reachable).turn_of_closed h.closed hlisten hstop (step_cases hstep).2
  exact ⟨⟨h.reachable.step trivial hstep, hclosed, h.handed.trans hhanded, hflight.trans h.flight⟩,
    hless⟩

/-- Once the acceptor is closed, and until the next `listen`, every schedule of the handlers is over
after three steps for each loop; in it `onAccept` is called for connections that had been accepted
before, and for no others. -/
theorem ends_after_stop {s s' : AsyncListener ι} (h : (machine ι).Reachable s)
    (hclosed : s.isOpen = false) {actions : List (ListenerAction ι)}
    (hactions : ∀ a ∈ actions, (∀ bound, a ≠ .listen bound) ∧ a ≠ .stop)
    (hrun : (machine ι).run s actions = some s') :
    actions.length ≤ 3 * s.loops.length ∧ s.handed <+: s'.handed ∧
      (s'.handed ++ s'.inFlight).Perm (s.handed ++ s.inFlight) := by
  have hstep : ∀ (t : AsyncListener ι) (a : ListenerAction ι) (t' : AsyncListener ι),
      ((∀ bound, a ≠ .listen bound) ∧ a ≠ .stop) → Since s t → (machine ι).step t a = some t' →
      Since s t' ∧ t'.work < t.work :=
    fun _ _ _ ha ht hs => ht.step ha.1 ha.2 hs
  have hstart : Since s s := ⟨h, hclosed, List.prefix_rfl, .refl _⟩
  obtain ⟨hend, hlength⟩ := Machine.run_length_le work hstep hactions hstart hrun
  have hbacklog := (Reachable.accounted h).idle hclosed
  have hbound : s.work ≤ 3 * s.loops.length := by
    rw [work, hbacklog, List.length_nil, Nat.mul_zero, Nat.zero_add]
    exact sum_work_le s.loops
  exact ⟨by omega, hend.handed, hend.flight⟩

/-- `stop` between the completion of an accept and its handler. -/
theorem ends_after_stop_one :
    ∃ s s' : AsyncListener ℕ,
      (machine ℕ).run init [.listen true, .arrive 7, .accept 0, .arrive 8, .stop] = some s ∧
      (machine ℕ).run s [.handle 0, .returns 0, .handle 0] = some s' ∧
      s'.loops = [.ended] ∧ 3 ≤ 3 * s.loops.length ∧
      (s'.handed ++ s'.inFlight).Perm (s.handed ++ s.inFlight) := by
  obtain ⟨s, s', hrun, hrun', hclosed, hended⟩ : ∃ s s' : AsyncListener ℕ,
      (machine ℕ).run init [.listen true, .arrive 7, .accept 0, .arrive 8, .stop] = some s ∧
      (machine ℕ).run s [.handle 0, .returns 0, .handle 0] = some s' ∧ s.isOpen = false ∧
      s'.loops = [.ended] := ⟨_, _, rfl, rfl, rfl, rfl⟩
  obtain ⟨hlength, -, hflight⟩ :=
    ends_after_stop (Machine.reachable_of_run hrun) hclosed (by simp) hrun'
  exact ⟨s, s', hrun, hrun', hended, hlength, hflight⟩

end AsyncListener

end CommonLib.AsyncTcp
