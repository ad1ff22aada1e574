import CommonLib.Verification.TcpTransport.Attached
import Mathlib.Data.List.Induction

/-! # The last call wins

`disconnect` is deferred to the strand, while the guards of `subscribe` and `regist` act at once. So
a call is heard only if it does not overlap with an earlier disconnect. -/

namespace CommonLib.TcpTransport

open AsyncTcp AsyncEventTransport

variable {η : Type*}

/-! ## What a sequence of calls asks for -/

/-- A connection is asked for by the first opening call, and stays until it is closed. -/
def Call.apply (wanted : Option (Option η)) : Call η → Option (Option η)
  | .open handler => wanted.or (some handler)
  | .close => none

/-- The message handler of the connection that the calls ask for, if they ask for one. -/
def wanted (calls : List (Call η)) : Option (Option η) :=
  calls.foldl Call.apply none

theorem wanted_append (calls : List (Call η)) (c : Call η) :
    wanted (calls ++ [c]) = c.apply (wanted calls) := by
  simp [wanted]

@[simp] theorem wanted_append_close (calls : List (Call η)) :
    wanted (calls ++ [.close]) = none :=
  wanted_append calls .close

theorem wanted_append_open (calls : List (Call η)) (handler : Option η) :
    wanted (calls ++ [.open handler]) = (wanted calls).or (some handler) :=
  wanted_append calls (.open handler)

/-- `handler` belongs to the first opening call behind the last closing one. -/
def FirstOpen (calls : List (Call η)) (handler : Option η) : Prop :=
  ∃ before after, calls = before ++ .open handler :: after ∧
    (before = [] ∨ before.getLast? = some .close) ∧ .close ∉ after

theorem wanted_append_of_open {calls after : List (Call η)} {handler : Option η}
    (h : wanted calls = some handler) (hafter : .close ∉ after) :
    wanted (calls ++ after) = some handler := by
  induction after using List.reverseRecOn with
  | nil => simpa using h
  | append_singleton after c ih =>
      have hrest : wanted (calls ++ after) = some handler :=
        ih fun hmem => hafter (List.mem_append_left _ hmem)
      rw [← List.append_assoc]
      cases c with
      | «open» handler' =>
          rw [wanted_append_open, hrest]
          rfl
      | close => exact absurd (List.mem_append_right _ (List.mem_singleton.mpr rfl)) hafter

theorem FirstOpen.wanted {calls : List (Call η)} {handler : Option η}
    (h : FirstOpen calls handler) : wanted calls = some handler := by
  obtain ⟨before, after, rfl, hbefore, hafter⟩ := h
  have hnone : TcpTransport.wanted before = none := by
    rcases hbefore with rfl | hlast
    · rfl
    · obtain ⟨rest, rfl⟩ := List.getLast?_eq_some_iff.mp hlast
      exact wanted_append_close rest
  rw [List.append_cons]
  apply wanted_append_of_open _ hafter
  rw [wanted_append_open, hnone]
  rfl

theorem wanted_eq_none_iff (calls : List (Call η)) :
    wanted calls = none ↔ ∀ handler, calls.getLast? ≠ some (.open handler) := by
  induction calls using List.reverseRecOn with
  | nil => simp [wanted]
  | append_singleton calls c _ =>
      cases c with
      | «open» handler => simp [wanted_append_open]
      | close => simp

/-! ## The condition -/

/-- In the task of a disconnect. -/
def Strand.disconnecting : Strand → Bool
  | .socketTest | .closing | .resetting | .clearing => true
  | _ => false

namespace Transport

/-- A disconnect is posted or in progress. -/
def Disconnecting (s : Transport η) : Prop :=
  Task.disconnect ∈ s.tasks ∨ s.strand.disconnecting = true

instance (s : Transport η) : Decidable s.Disconnecting :=
  inferInstanceAs (Decidable (_ ∨ _))

/-- The calling thread is about to turn an opening call down or to create a socket for it. -/
def decides (s : Transport η) : Bool :=
  match s.caller with
  | .guarding _ => s.connected
  | .testing _ => s.socket.isSome
  | .creating _ => true
  | .idle | .dialing _ | .starting .. => false

/-- An opening call is decided upon when no disconnect is left to be done, and a disconnect task
resets the socket when no handler of a successful attempt is left to run. -/
structure Orderly (s : Transport η) (a : Action η) : Prop where
  finished : s.Finished a
  waits : a = .caller → s.decides = true → ¬ s.Disconnecting

instance [DecidableEq η] (s : Transport η) (a : Action η) : Decidable (s.Orderly a) :=
  decidable_of_iff (s.Finished a ∧ (a = .caller → s.decides = true → ¬ s.Disconnecting))
    ⟨fun h => ⟨h.1, h.2⟩, fun h => ⟨h.1, h.2⟩⟩

/-- The connections asked for succeed: what ends with an error has been closed before. -/
def Connects (s : Transport η) : Action η → Prop
  | .throws => False
  | .fail i | .hangup i _ _ _ => ∀ k ∈ s.sockets[i]?, k.isOpen = false
  | _ => True

instance (s : Transport η) : (a : Action η) → Decidable (s.Connects a)
  | .throws => inferInstanceAs (Decidable False)
  | .fail i | .hangup i _ _ _ =>
      inferInstanceAs (Decidable (∀ k ∈ s.sockets[i]?, k.isOpen = false))
  | .open .. | .publish _ | .disconnect | .caller | .strand | .succeed _ | .handler _ =>
      inferInstanceAs (Decidable True)

/-- No call is under way, no task is left, and no attempt or handler is pending. -/
structure Drained (s : Transport η) : Prop where
  caller : s.caller = .idle
  tasks : s.tasks = []
  strand : s.strand = .idle
  handlers : ∀ k ∈ s.sockets, k.stage = .unstarted ∨ k.stage = .done

/-! ## The connection that the calls ask for -/

/-- How far the connection of a socket has got, as far as the transport shows it. -/
def Progress (connected : Bool) (k : Socket η) : Prop :=
  match k.stage with
  | .pending | .succeeded | .storing => connected = false ∧ k.receiving = []
  | .registering | .arming => connected = true ∧ k.receiving = []
  | .done => connected = true ∧ k.receiving = k.handler.toList
  | .unstarted | .failed => False

/-- The socket of the transport has the property `P`. -/
def Current (s : Transport η) (P : Socket η → Prop) : Prop :=
  ∃ i k, s.socket = some i ∧ s.sockets[i]? = some k ∧ P k

def Settled (s : Transport η) : Option (Option η) → Prop
  | none => s.socket = none ∧ s.connected = false
  | some handler =>
      s.Current fun k => k.handler = handler ∧ k.isOpen = true ∧ Progress s.connected k

def Fresh (k : Socket η) : Prop :=
  k.stage = .unstarted ∧ k.connected = false ∧ k.receiving = []

/-- What the calling thread can rely on at each place when no disconnect is left to be done. -/
def Fits (s : Transport η) : Caller η → Prop
  | .idle => s.Settled (wanted s.calls)
  | .guarding handler | .testing handler =>
      ∃ calls, s.calls = calls ++ [.open handler] ∧ s.Settled (wanted calls)
  | .creating handler => wanted s.calls = some handler ∧ s.connected = false
  | .dialing handler => wanted s.calls = some handler ∧ s.connected = false ∧ s.Current Fresh
  | .starting i handler =>
      wanted s.calls = some handler ∧ s.connected = false ∧ s.Current Fresh ∧ s.socket = some i

/-- While a disconnect is left to be done, the last call was a closing one, or an opening one is
still undecided behind it. -/
def Undecided (s : Transport η) : Caller η → Prop
  | .idle => wanted s.calls = none
  | .guarding handler | .testing handler | .creating handler =>
      ∃ calls, s.calls = calls ++ [.open handler] ∧ wanted calls = none
  | .dialing _ | .starting .. => False

structure Followed (s : Transport η) : Prop where
  undecided : s.Disconnecting → s.Undecided s.caller
  cleared : s.strand = .clearing → s.socket = none
  fits : ¬ s.Disconnecting → s.Fits s.caller

theorem followed_init : (init : Transport η).Followed where
  undecided := fun _ => rfl
  cleared := nofun
  fits := fun _ => ⟨rfl, rfl⟩

theorem Current.congr {s s' : Transport η} {P : Socket η → Prop} (h : s.Current P)
    (hsockets : s'.sockets = s.sockets) (hsocket : s'.socket = s.socket) : s'.Current P := by
  obtain ⟨i, k, hi, hk, hP⟩ := h
  exact ⟨i, k, hsocket.trans hi, hsockets ▸ hk, hP⟩

theorem Current.setSocket {s : Transport η} {P : Socket η → Prop} (h : s.Current P) (i : ℕ)
    (f : Socket η → Socket η) (hf : ∀ k, s.sockets[i]? = some k → P k → P (f k)) :
    (s.setSocket i f).Current P := by
  obtain ⟨j, k, hj, hk, hP⟩ := h
  by_cases hji : j = i
  · subst hji
    exact ⟨j, f k, hj, getElem?_setSocket_self hk, hf k hk hP⟩
  · exact ⟨j, k, hj, (getElem?_setSocket_ne hji).trans hk, hP⟩

theorem Settled.congr {s s' : Transport η} {w : Option (Option η)} (h : s.Settled w)
    (hsockets : s'.sockets = s.sockets) (hsocket : s'.socket = s.socket)
    (hconnected : s'.connected = s.connected) : s'.Settled w := by
  cases w with
  | none => exact ⟨hsocket.trans h.1, hconnected.trans h.2⟩
  | some handler =>
      unfold Settled at h ⊢
      rw [hconnected]
      exact Current.congr h hsockets hsocket

theorem Fits.congr {s s' : Transport η} {pc : Caller η} (h : s.Fits pc)
    (hsockets : s'.sockets = s.sockets) (hsocket : s'.socket = s.socket)
    (hconnected : s'.connected = s.connected) (hcalls : s'.calls = s.calls) : s'.Fits pc := by
  unfold Fits at h ⊢
  cases pc with
  | idle =>
      simp only [hcalls] at h ⊢
      exact h.congr hsockets hsocket hconnected
  | guarding handler | testing handler =>
      obtain ⟨calls, heq, hsettled⟩ := h
      exact ⟨calls, hcalls.trans heq, hsettled.congr hsockets hsocket hconnected⟩
  | creating handler => exact ⟨hcalls ▸ h.1, hconnected.trans h.2⟩
  | dialing handler =>
      exact ⟨hcalls ▸ h.1, hconnected.trans h.2.1, h.2.2.congr hsockets hsocket⟩
  | starting i handler =>
      exact ⟨hcalls ▸ h.1, hconnected.trans h.2.1, h.2.2.1.congr hsockets hsocket,
        hsocket.trans h.2.2.2⟩

/-- A change of one socket that is in order for a connection under way, and that does not happen
to a fresh socket. -/
theorem Fits.setSocket {s : Transport η} {pc : Caller η} (h : s.Fits pc) (i : ℕ)
    (f : Socket η → Socket η)
    (hprogress : ∀ k, s.sockets[i]? = some k → k.isOpen = true → Progress s.connected k →
      (f k).handler = k.handler ∧ (f k).isOpen = true ∧ Progress s.connected (f k))
    (hfresh : ∀ k, s.sockets[i]? = some k → Fresh k → Fresh (f k)) :
    (s.setSocket i f).Fits pc := by
  have hsettled : ∀ w, s.Settled w → (s.setSocket i f).Settled w := by
    intro w hw
    cases w with
    | none => exact hw
    | some handler =>
        apply Current.setSocket hw
        rintro k hk ⟨rfl, hopen, hk'⟩
        exact hprogress k hk hopen hk'
  unfold Fits at h ⊢
  cases pc with
  | idle => exact hsettled _ h
  | guarding handler | testing handler =>
      obtain ⟨calls, heq, hw⟩ := h
      exact ⟨calls, heq, hsettled _ hw⟩
  | creating handler => exact h
  | dialing handler => exact ⟨h.1, h.2.1, h.2.2.setSocket i f hfresh⟩
  | starting j handler => exact ⟨h.1, h.2.1, h.2.2.1.setSocket i f hfresh, h.2.2.2⟩

/-! ## Steps -/

theorem Undecided.congr {s s' : Transport η} {pc : Caller η} (h : s.Undecided pc)
    (hcalls : s'.calls = s.calls) : s'.Undecided pc := by
  unfold Undecided at h ⊢
  rw [hcalls]
  exact h

/-- Behind a disconnect the calling thread goes on from a transport as at the start. -/
theorem Undecided.fits {s : Transport η} {pc : Caller η} (h : s.Undecided pc)
    (hsocket : s.socket = none) (hconnected : s.connected = false) : s.Fits pc := by
  cases pc with
  | idle =>
      change Settled s (wanted s.calls)
      rw [show wanted s.calls = none from h]
      exact ⟨hsocket, hconnected⟩
  | guarding handler | testing handler =>
      obtain ⟨calls, heq, hw⟩ := h
      refine ⟨calls, heq, ?_⟩
      rw [hw]
      exact ⟨hsocket, hconnected⟩
  | creating handler =>
      obtain ⟨calls, heq, hw⟩ := h
      refine ⟨?_, hconnected⟩
      rw [heq, wanted_append_open, hw]
      rfl
  | dialing handler => exact h.elim
  | starting i handler => exact h.elim

theorem Followed.congr {s s' : Transport η} (h : s.Followed) (hsockets : s'.sockets = s.sockets)
    (hsocket : s'.socket = s.socket) (hconnected : s'.connected = s.connected)
    (hcalls : s'.calls = s.calls) (hcaller : s'.caller = s.caller)
    (hdisconnecting : s'.Disconnecting ↔ s.Disconnecting)
    (hclearing : s'.strand = .clearing → s.strand = .clearing) : s'.Followed where
  undecided := by
    intro hd
    rw [hcaller]
    exact (h.undecided (hdisconnecting.mp hd)).congr hcalls
  cleared := fun hs => hsocket.trans (h.cleared (hclearing hs))
  fits := by
    intro hd
    rw [hcaller]
    exact (h.fits (hd ∘ hdisconnecting.mpr)).congr hsockets hsocket hconnected hcalls

/-- The strand starts a disconnect or goes on with it. -/
theorem Followed.proceed {s s' : Transport η} (h : s.Followed) (hd : s.Disconnecting)
    (hcalls : s'.calls = s.calls) (hcaller : s'.caller = s.caller)
    (hs : s'.strand.disconnecting = true) (hclearing : s'.strand = .clearing → s'.socket = none) :
    s'.Followed where
  undecided := by
    intro _
    rw [hcaller]
    exact (h.undecided hd).congr hcalls
  cleared := hclearing
  fits := fun hd' => absurd (.inr hs) hd'

/-- The strand has finished a disconnect. -/
theorem Followed.finish {s : Transport η} (h : s.Followed) (hs : s.strand.disconnecting = true)
    (hsocket : s.socket = none) :
    ({ s with connected := false }.setStrand .idle).Followed where
  undecided := fun _ => (h.undecided (.inr hs)).congr rfl
  cleared := nofun
  fits := by
    intro _
    have hundecided : Undecided ({ s with connected := false }.setStrand .idle) s.caller :=
      (h.undecided (.inr hs)).congr rfl
    exact hundecided.fits hsocket rfl

theorem Followed.setSocket {s : Transport η} (h : s.Followed) (i : ℕ) (f : Socket η → Socket η)
    (hprogress : ∀ k, s.sockets[i]? = some k → k.isOpen = true → Progress s.connected k →
      (f k).handler = k.handler ∧ (f k).isOpen = true ∧ Progress s.connected (f k))
    (hfresh : ∀ k, s.sockets[i]? = some k → Fresh k → Fresh (f k)) :
    (s.setSocket i f).Followed where
  undecided := fun hd => (h.undecided hd).congr rfl
  cleared := h.cleared
  fits := fun hd => (h.fits hd).setSocket i f hprogress hfresh

/-- The attempt of a socket that was started moves on. -/
theorem Followed.advance {s : Transport η} (h : s.Followed) {i : ℕ} {k : Socket η}
    (hk : s.sockets[i]? = some k) (hstarted : k.stage ≠ .unstarted) (f : Socket η → Socket η)
    (hprogress : k.isOpen = true → Progress s.connected k →
      (f k).handler = k.handler ∧ (f k).isOpen = true ∧ Progress s.connected (f k)) :
    (s.setSocket i f).Followed := by
  apply h.setSocket i f
  · intro k' hk'
    cases hk.symm.trans hk'
    exact hprogress
  · intro k' hk' hfresh
    cases hk.symm.trans hk'
    exact absurd hfresh.1 hstarted

/-- The calling thread moves on. -/
theorem Followed.setCaller {s : Transport η} (h : s.Followed) {pc : Caller η}
    (hundecided : s.Disconnecting → s.Undecided s.caller → s.Undecided pc)
    (hfits : s.Fits s.caller → s.Fits pc) : (s.setCaller pc).Followed where
  undecided := fun hd => (hundecided hd (h.undecided hd)).congr rfl
  cleared := h.cleared
  fits := fun hd => (hfits (h.fits hd)).congr rfl rfl rfl rfl

/-- A call that is turned down changes nothing about what is wanted. -/
theorem Settled.reject {s : Transport η} {calls : List (Call η)} {handler : Option η}
    (h : s.Settled (wanted calls)) (hpresent : wanted calls ≠ none) :
    s.Settled (wanted (calls ++ [.open handler])) := by
  obtain ⟨handler', heq⟩ := Option.ne_none_iff_exists'.mp hpresent
  rw [wanted_append_open]
  rw [heq] at h ⊢
  exact h

/-- The calling thread comes back without a new socket. -/
theorem Followed.turnDown {s : Transport η} (h : s.Followed) {handler : Option η}
    (hc : s.caller = .guarding handler ∨ s.caller = .testing handler) (hwaits : ¬ s.Disconnecting)
    (hpresent : ¬ s.Settled none) : (s.setCaller .idle).Followed := by
  refine h.setCaller (fun hd _ => absurd hd hwaits) fun hfits => ?_
  have hcalls : ∃ calls, s.calls = calls ++ [.open handler] ∧ s.Settled (wanted calls) := by
    rcases hc with hc | hc
    all_goals
      rw [hc] at hfits
      exact hfits
  obtain ⟨calls, heq, hsettled⟩ := hcalls
  change s.Settled (wanted s.calls)
  rw [heq]
  apply hsettled.reject
  intro hnone
  rw [hnone] at hsettled
  exact hpresent hsettled

theorem Followed.open {s : Transport η} (h : s.Followed) (guarded : Bool) (handler : Option η)
    (hc : s.caller = .idle) :
    ({ s with calls := s.calls ++ [Call.open handler] }.setCaller
      (if guarded then .guarding handler else .testing handler)).Followed where
  undecided := by
    intro hd
    have hundecided := h.undecided hd
    rw [hc] at hundecided
    cases guarded
    all_goals exact ⟨s.calls, rfl, hundecided⟩
  cleared := h.cleared
  fits := by
    intro hd
    have hfits := h.fits hd
    rw [hc] at hfits
    have hsettled : s.Settled (wanted s.calls) := hfits
    have hplace : Fits { s with calls := s.calls ++ [Call.open handler] }
        (if guarded then .guarding handler else .testing handler) := by
      cases guarded
      all_goals exact ⟨s.calls, rfl, hsettled.congr rfl rfl rfl⟩
    exact hplace.congr rfl rfl rfl rfl

theorem Followed.disconnect {s : Transport η} (h : s.Followed) (hc : s.caller = .idle) :
    { s with tasks := s.tasks ++ [Task.disconnect], calls := s.calls ++ [Call.close] }.Followed where
  undecided := by
    intro _
    change Undecided _ s.caller
    rw [hc]
    exact wanted_append_close s.calls
  cleared := h.cleared
  fits := fun hd => absurd (.inl (List.mem_append_right _ (List.mem_singleton.mpr rfl))) hd

theorem Followed.create {s : Transport η} (h : s.Followed) {handler : Option η}
    (hc : s.caller = .creating handler) (hwaits : ¬ s.Disconnecting) :
    (s.create.setCaller (.dialing handler)).Followed where
  undecided := fun hd => absurd hd hwaits
  cleared := by
    intro hs
    refine absurd (.inr ?_) hwaits
    rw [show s.strand = .clearing from hs]
    rfl
  fits := by
    intro _
    have hfits := h.fits hwaits
    rw [hc] at hfits
    have hfresh : (s.create).Current Fresh :=
      ⟨s.sockets.length, .create, rfl, List.getElem?_concat_length, rfl, rfl, rfl⟩
    exact ⟨hfits.1, hfits.2, hfresh.congr rfl rfl⟩

theorem Followed.start {s : Transport η} (h : s.Followed) {i : ℕ} {handler : Option η}
    (hc : s.caller = .starting i handler) :
    ((s.setSocket i (Socket.start · handler)).setCaller .idle).Followed where
  undecided := by
    intro hd
    have hundecided := h.undecided hd
    rw [hc] at hundecided
    exact hundecided.elim
  cleared := h.cleared
  fits := by
    intro hd
    have hfits := h.fits hd
    rw [hc] at hfits
    obtain ⟨hwanted, hconnected, ⟨j, k, hj, hk, hfresh⟩, hi⟩ := hfits
    cases hi.symm.trans hj
    change Settled _ (wanted s.calls)
    rw [hwanted]
    exact ⟨i, k.start handler, hj, getElem?_setSocket_self hk, rfl, rfl, hconnected, hfresh.2.2⟩

/-- The handler of the current connection declares the transport connected. -/
theorem Followed.store {s : Transport η} (h : s.Followed) (ha : s.Attached) {i : ℕ} {k : Socket η}
    (hk : s.sockets[i]? = some k) (hstage : k.stage = .storing) :
    ({ s with connected := true }.setStage i
      (if k.handler.isSome then .registering else .done)).Followed where
  undecided := fun hd => (h.undecided hd).congr rfl
  cleared := h.cleared
  fits := by
    intro hd
    have hlive := ha.live i k hk (by rw [hstage]; rfl)
    have hsettled : ∀ w, s.Settled w → ({ s with connected := true }.setStage i
        (if k.handler.isSome then .registering else .done)).Settled w := by
      intro w hw
      cases w with
      | none => cases hlive.symm.trans hw.1
      | some handler =>
          obtain ⟨j, k', hj, hk', hhandler, hopen, hprogress⟩ := hw
          cases hlive.symm.trans hj
          cases hk.symm.trans hk'
          refine ⟨i, _, hj, getElem?_setSocket_self (s := { s with connected := true }) hk,
            hhandler, hopen, ?_⟩
          rw [Progress, hstage] at hprogress
          cases hsome : k.handler with
          | none => exact ⟨rfl, by simp [hprogress.2]⟩
          | some onMessage => exact ⟨rfl, hprogress.2⟩
    have hstarted : ∀ P, (∀ k, P k → k.stage = .unstarted) → ¬ s.Current P := by
      rintro P hP ⟨j, k', hj, hk', hk''⟩
      cases hlive.symm.trans hj
      cases hk.symm.trans hk'
      cases hstage.symm.trans (hP k hk'')
    have hfits := h.fits hd
    change Fits _ s.caller
    cases hc : s.caller with
    | idle =>
        rw [hc] at hfits
        exact hsettled _ hfits
    | guarding handler | testing handler =>
        rw [hc] at hfits
        obtain ⟨calls, heq, hw⟩ := hfits
        exact ⟨calls, heq, hsettled _ hw⟩
    | creating handler => cases hlive.symm.trans (ha.creating handler hc)
    | dialing handler =>
        rw [hc] at hfits
        exact absurd hfits.2.2 (hstarted Fresh fun _ hfresh => hfresh.1)
    | starting j handler =>
        rw [hc] at hfits
        exact absurd hfits.2.2.1 (hstarted Fresh fun _ hfresh => hfresh.1)

/-- There is no socket in the way of an opening call. -/
theorem Followed.vacant {s : Transport η} (h : s.Followed) {handler : Option η}
    (hc : s.caller = .testing handler) (hsocket : s.socket = none) :
    (s.setCaller (.creating handler)).Followed := by
  refine h.setCaller (fun _ hundecided => ?_) fun hfits => ?_
  · rw [hc] at hundecided
    exact hundecided
  · rw [hc] at hfits
    obtain ⟨calls, heq, hsettled⟩ := hfits
    cases hw : wanted calls with
    | none =>
        rw [hw] at hsettled
        refine ⟨?_, hsettled.2⟩
        rw [heq, wanted_append_open, hw]
        rfl
    | some handler' =>
        rw [hw] at hsettled
        obtain ⟨i, k, hi, -⟩ := hsettled
        cases hsocket.symm.trans hi

/-! ## Every run -/

section Step

variable {topic : UInt16} {s s' : Transport η}

theorem Followed.callerStep (h : s.Followed) (hwaits : s.decides = true → ¬ s.Disconnecting)
    (hstep : Step topic s .caller s') : s'.Followed := by
  cases hstep with
  | refuse handler hc hconnected =>
      apply h.turnDown (.inl hc) (hwaits (by rw [decides, hc]; exact hconnected))
      intro hnone
      cases hconnected.symm.trans hnone.2
  | pass handler hc hconnected =>
      refine h.setCaller (fun _ hundecided => ?_) fun hfits => ?_
      · rw [hc] at hundecided
        exact hundecided
      · rw [hc] at hfits
        exact hfits
  | reject handler i hc hsocket =>
      apply h.turnDown (.inr hc) (hwaits (by rw [decides, hc, hsocket]; rfl))
      intro hnone
      cases hsocket.symm.trans hnone.1
  | vacant handler hc hsocket => exact h.vacant hc hsocket
  | create handler hc => exact h.create hc (hwaits (by rw [decides, hc]))
  | dialNull handler hc hsocket | gone i handler k hc hk hsocket hsilent =>
      exact h.congr rfl rfl rfl rfl rfl Iff.rfl id
  | dial handler i hc hsocket =>
      refine h.setCaller (fun _ hundecided => ?_) fun hfits => ?_
      · rw [hc] at hundecided
        exact hundecided.elim
      · rw [hc] at hfits
        exact ⟨hfits.1, hfits.2.1, hfits.2.2, hsocket⟩
  | already i handler k hc hk hconnected =>
      have hnot : ¬ s.Disconnecting := by
        intro hd
        have hundecided := h.undecided hd
        rw [hc] at hundecided
        exact hundecided
      refine h.setCaller (fun hd _ => absurd hd hnot) fun hfits => ?_
      rw [hc] at hfits
      obtain ⟨-, -, ⟨j, k', hj, hk', hfresh⟩, hi⟩ := hfits
      cases hi.symm.trans hj
      cases hk.symm.trans hk'
      cases hconnected.symm.trans hfresh.2.1
  | start i handler k hc hk halive hconnected => exact h.start hc

theorem Followed.strandStep (h : s.Followed) (ha : s.Attached) (hstep : Step topic s .strand s') :
    s'.Followed := by
  cases hstep with
  | takePublish payload rest hs htasks =>
      refine h.congr rfl rfl rfl rfl rfl ?_ (by simp [Transport.setStrand])
      change Task.disconnect ∈ rest ∨ _ ↔ _
      simp [Disconnecting, htasks, hs, Strand.disconnecting, Transport.setStrand]
  | takeDisconnect rest hs htasks =>
      exact h.proceed (.inl (by simp [htasks])) rfl rfl rfl (by simp [Transport.setStrand])
  | drop payload hs hconnected | goOn payload hs hconnected =>
      refine h.congr rfl rfl rfl rfl rfl ?_ (by simp [Transport.setStrand])
      simp [Disconnecting, hs, Strand.disconnecting, Transport.setStrand]
  | sendNull payload hs hsocket | closeNull hs hsocket =>
      exact h.congr rfl rfl rfl rfl rfl Iff.rfl id
  | send payload i hs hsocket =>
      have hsent := h.setSocket i (Socket.send · (Frame.make topic Frame.DATA payload))
        (fun _ _ hopen hprogress => ⟨rfl, hopen, hprogress⟩) (fun _ _ hfresh => hfresh)
      refine hsent.congr rfl rfl rfl rfl rfl ?_ (by simp [Transport.setStrand])
      simp [Disconnecting, hs, Strand.disconnecting, Transport.setStrand, Transport.setSocket]
  | nothing hs hsocket =>
      have hconnected : s.connected = false := by
        cases hconnected : s.connected with
        | false => rfl
        | true => cases hs.symm.trans (ha.flag hconnected hsocket)
      have hfinish := h.finish (by rw [hs]; rfl) hsocket
      rw [← hconnected] at hfinish
      exact hfinish
  | found i hs hsocket | close i hs hsocket =>
      exact h.proceed (.inr (by rw [hs]; rfl)) rfl rfl rfl (by simp [Transport.setStrand])
  | resetNull hs hsocket => exact h.proceed (.inr (by rw [hs]; rfl)) rfl rfl rfl fun _ => hsocket
  | reset i hs hsocket => exact h.proceed (.inr (by rw [hs]; rfl)) rfl rfl rfl fun _ => rfl
  | clear hs => exact h.finish (by rw [hs]; rfl) (h.cleared hs)

theorem Followed.handlerStep {i : ℕ} (h : s.Followed) (ha : s.Attached)
    (hstep : Step topic s (.handler i) s') : s'.Followed := by
  cases hstep with
  | failed i k hk hstage =>
      have hdone : (s.setStage i .done).Followed := by
        refine h.advance hk (by rw [hstage]; decide) _ fun _ hprogress => ?_
        rw [Progress, hstage] at hprogress
        exact hprogress.elim
      exact hdone.congr rfl rfl rfl rfl rfl Iff.rfl id
  | connected i k hk hstage =>
      refine h.advance hk (by rw [hstage]; decide) _ fun hopen hprogress => ?_
      rw [Progress, hstage] at hprogress
      exact ⟨rfl, hopen, hprogress⟩
  | store i k hk hstage => exact h.store ha hk hstage
  | registNull i k hk hstage hsocket | armNull i k hk hstage hsocket =>
      exact h.congr rfl rfl rfl rfl rfl Iff.rfl id
  | regist i k j hk hstage hsocket =>
      cases hsocket.symm.trans (ha.live i k hk (by rw [hstage]; rfl))
      rw [Transport.setStage, setSocket_setSocket]
      refine h.advance hk (by rw [hstage]; decide) _ fun hopen hprogress => ?_
      rw [Progress, hstage] at hprogress
      exact ⟨rfl, hopen, hprogress⟩
  | arm i k j hk hstage hsocket =>
      cases hsocket.symm.trans (ha.live i k hk (by rw [hstage]; rfl))
      rw [Transport.setStage, setSocket_setSocket]
      refine h.advance hk (by rw [hstage]; decide) _ fun hopen hprogress => ?_
      rw [Progress, hstage] at hprogress
      refine ⟨rfl, hopen, hprogress.1, ?_⟩
      simp [Socket.receive, hprogress.2]

theorem Followed.step {a : Action η} (h : s.Followed) (ha : s.Attached) (hok : s.Orderly a)
    (hconnects : s.Connects a) (hstep : Step topic s a s') : s'.Followed := by
  cases a with
  | caller => exact h.callerStep (hok.waits rfl) hstep
  | strand => exact h.strandStep ha hstep
  | handler i => exact h.handlerStep ha hstep
  | throws => exact hconnects.elim
  | «open» guarded handler =>
      cases hstep with
      | «open» guarded handler hc => exact h.open guarded handler hc
  | publish payload =>
      cases hstep with
      | publish payload hc =>
          refine h.congr rfl rfl rfl rfl rfl ?_ id
          simp [Disconnecting]
  | disconnect =>
      cases hstep with
      | disconnect hc => exact h.disconnect hc
  | succeed i =>
      cases hstep with
      | succeed i k hk hstage hopen =>
          refine h.advance hk (by rw [hstage]; decide) _ fun hopen' hprogress => ?_
          rw [Progress, hstage] at hprogress
          exact ⟨rfl, hopen', hprogress⟩
  | fail i =>
      cases hstep with
      | fail i k hk hstage =>
          refine h.advance hk (by rw [hstage]; decide) _ fun hopen' _ => ?_
          cases hopen'.symm.trans (hconnects k hk)
  | hangup i loop header ec =>
      cases hstep with
      | hangup i k loop header ec hk hloop =>
          have hended : (s.setSocket i (Socket.hangup · loop header ec)).Followed := by
            apply h.setSocket i
            · intro k' hk' hopen _
              cases hopen.symm.trans (hconnects k' hk')
            · intro k' hk' hfresh
              cases hk.symm.trans hk'
              rw [hfresh.2.2] at hloop
              cases hloop
          exact hended.congr rfl rfl rfl rfl rfl Iff.rfl id

end Step

theorem Reaches.followed {topic : UInt16} {s : Transport η}
    (h : (machine η topic).Reaches (fun s a => s.Orderly a ∧ s.Connects a) s) : s.Followed := by
  apply h.invariant_of (Q := Attached)
  · intro s hs
    exact Reaches.attached (hs.mono fun _ _ hok => hok.1.finished)
  · exact followed_init
  · intro s a s' ha hs hok hstep
    exact hs.step ha hok.1 hok.2 (step_cases hstep).2

/-- With everything done, the transport is as the calls want it. -/
theorem Followed.settled {s : Transport η} (h : s.Followed) (hdrained : s.Drained) :
    s.Settled (wanted s.calls) := by
  have hfits := h.fits (by simp [Disconnecting, hdrained.tasks, hdrained.strand,
    Strand.disconnecting])
  rw [hdrained.caller] at hfits
  exact hfits

/-- Where everything is done, a wanted connection is established and its loop is armed. -/
theorem Settled.established {s : Transport η} {handler : Option η} (h : s.Settled (some handler))
    (hdrained : s.Drained) :
    s.connected = true ∧ s.Current fun k => k.receiving = handler.toList := by
  obtain ⟨i, k, hi, hk, rfl, -, hprogress⟩ := h
  rw [Progress] at hprogress
  rcases hdrained.handlers k (List.mem_of_getElem? hk) with hstage | hstage
  · rw [hstage] at hprogress
    exact hprogress.elim
  · rw [hstage] at hprogress
    exact ⟨hprogress.1, i, k, hi, hk, hprogress.2⟩

/-- As long as opening calls are decided upon behind disconnects, and disconnect tasks run behind
handlers, the last call wins, and the handler is the one of the first opening call behind the last
closing one. -/
theorem last_call_wins {topic : UInt16} {s : Transport η}
    (h : (machine η topic).Reaches (fun s a => s.Orderly a ∧ s.Connects a) s)
    (hdrained : s.Drained) :
    (s.socket ≠ none ∧ s.connected = true ↔
      ∃ handler, s.calls.getLast? = some (.open handler)) ∧
    ∀ handler, FirstOpen s.calls handler → s.Current fun k => k.receiving = handler.toList := by
  have hsettled := (Reaches.followed h).settled hdrained
  constructor
  · cases hw : wanted s.calls with
    | none =>
        rw [hw] at hsettled
        have hlast := (wanted_eq_none_iff s.calls).mp hw
        constructor
        · intro hconnected
          exact absurd hsettled.1 hconnected.1
        · intro hopen
          obtain ⟨handler, heq⟩ := hopen
          exact absurd heq (hlast handler)
    | some handler =>
        rw [hw] at hsettled
        obtain ⟨hconnected, i, k, hi, -⟩ := hsettled.established hdrained
        constructor
        · intro _
          by_contra hnone
          have hlast := (wanted_eq_none_iff s.calls).mpr fun handler heq => hnone ⟨handler, heq⟩
          cases hw.symm.trans hlast
        · intro _
          exact ⟨by simp [hi], hconnected⟩
  · intro handler hfirst
    rw [hfirst.wanted] at hsettled
    exact (hsettled.established hdrained).2

/-- Subscribed with handler 1, unsubscribed, subscribed with handler 2, and once more with handler 3
while that connection is being made. -/
theorem last_call_wins_resubscribed :
    ∃ s : Transport ℕ, (machine ℕ 7).run init
        [.subscribeEvent 1, .caller, .caller, .caller, .caller, .caller, .succeed 0, .handler 0,
          .handler 0, .handler 0, .handler 0, .unsubscribeEvent, .strand, .strand, .strand, .strand,
          .strand, .subscribeEvent 2, .caller, .caller, .caller, .caller, .caller,
          .subscribeEvent 3, .caller, .caller, .succeed 1, .handler 1, .handler 1, .handler 1,
          .handler 1] = some s ∧
      s.socket = some 1 ∧ s.calls.getLast? = some (.open (some 3)) ∧ s.connected = true ∧
      s.Current fun k => k.receiving = [2] := by
  have hmeets : (machine ℕ 7).Meets (fun s a => s.Orderly a ∧ s.Connects a) init
      [.subscribeEvent 1, .caller, .caller, .caller, .caller, .caller, .succeed 0, .handler 0,
        .handler 0, .handler 0, .handler 0, .unsubscribeEvent, .strand, .strand, .strand, .strand,
        .strand, .subscribeEvent 2, .caller, .caller, .caller, .caller, .caller,
        .subscribeEvent 3, .caller, .caller, .succeed 1, .handler 1, .handler 1, .handler 1,
        .handler 1] := by
    decide
  refine ⟨_, rfl, rfl, rfl, ?_⟩
  have hwins := last_call_wins (Machine.Reaches.init.run_of_meets hmeets rfl)
    ⟨rfl, rfl, rfl, by decide⟩
  refine ⟨(hwins.1.mpr ⟨some 3, rfl⟩).2, ?_⟩
  exact hwins.2 (some 2) ⟨[.open (some 1), .close], [.open (some 3)], rfl, .inr rfl, by decide⟩

/-- Subscribed and unsubscribed; the next `subscribe` still finds the transport connected and does
nothing, and then the disconnect task runs. -/
theorem resubscription_lost :
    ∃ s : Transport ℕ, (machine ℕ 7).run init
        [.subscribeEvent 1, .caller, .caller, .caller, .caller, .caller, .succeed 0, .handler 0,
          .handler 0, .handler 0, .handler 0, .unsubscribeEvent, .subscribeEvent 2, .caller,
          .strand, .strand, .strand, .strand, .strand] = some s ∧
      s.Drained ∧ s.calls.getLast? = some (.open (some 2)) ∧ s.socket = none ∧
      ¬ (s.socket ≠ none ∧ s.connected = true ↔
        ∃ handler, s.calls.getLast? = some (.open handler)) := by
  refine ⟨_, rfl, ⟨rfl, rfl, rfl, by decide⟩, rfl, rfl, fun hwins => ?_⟩
  exact (hwins.mpr ⟨some 2, rfl⟩).1 rfl

end Transport

end CommonLib.TcpTransport
