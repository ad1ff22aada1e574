import CommonLib.Model.SocketDescriptors
import Mathlib.Tactic.Common

/-! # The descriptors of a socket

The deleter closes the last socket whatever has happened to it before, `prepare` forgets the one
before, and nothing ever closes an accepted connection. -/

namespace CommonLib.Communication

/-! ## What is counted -/

/-- Behind the deleter every descriptor that was obtained is closed, and none twice. -/
structure Accounted (strerror : ℤ → String) (type : SocketType) (calls : List SocketCall) :
    Prop where
  closed : ∀ d < (DetailSocket.init.afterLife strerror type calls).obtained,
    some d ∈ (DetailSocket.init.afterLife strerror type calls).closed
  once : ∀ d, (DetailSocket.init.afterLife strerror type calls).closed.count (some d) ≤ 1

/-- A connection is accepted. -/
def SocketCall.accepts (type : SocketType) : SocketCall → Bool
  | .open results _ => type = .server && results.setsockopt && results.bind && results.listen &&
      results.accept
  | .prepare _ | .close => false

/-- The call closes the socket. -/
def SocketCall.closes (type : SocketType) : SocketCall → Bool
  | .prepare (.given zero) => zero
  | .prepare .failed => false
  | .open results _ =>
      match type with
      | .server => !(results.setsockopt && results.bind && results.listen && results.accept)
      | .client => results.inetPton && !results.connect
  | .close => true

/-- How often the socket in use is closed: by the calls up to the next `prepare`, and by the deleter
if there is none. -/
def closesToCome (type : SocketType) : List SocketCall → ℕ
  | [] => 1
  | .prepare _ :: _ => 0
  | call :: calls => (call.closes type).toNat + closesToCome type calls

/-- No connection is accepted, and every socket is closed once by what happens before the next one
is obtained or, if it is the last one, until its deleter has run. -/
def ClosedOnce (type : SocketType) : List SocketCall → Prop
  | [] => True
  | .prepare (.given zero) :: calls =>
      zero.toNat + closesToCome type calls = 1 ∧ ClosedOnce type calls
  | call :: calls => call.accepts type = false ∧ ClosedOnce type calls

/-! ## One call -/

inductive Effect (type : SocketType) (s : DetailSocket) : SocketCall → DetailSocket → Prop
  | fails : Effect type s (.prepare .failed) { s with fd := none }
  | obtains (zero : Bool) :
      Effect type s (.prepare (.given zero))
        { s with
          fd := some s.obtained
          obtained := s.obtained + 1
          closed := s.closed ++ if zero then [some s.obtained] else [] }
  | accepts (call : SocketCall) (haccepts : call.accepts type = true) :
      Effect type s call { s with conn := some s.obtained, obtained := s.obtained + 1 }
  | stays (call : SocketCall) (conn : Option ℕ) (hprepare : ∀ result, call ≠ .prepare result)
      (haccepts : call.accepts type = false) :
      Effect type s call
        { s with conn := conn, closed := s.closed ++ if call.closes type then [s.fd] else [] }

theorem effect_server (strerror : ℤ → String) (s : DetailSocket) (results : OpenResults)
    (errno : ℤ) : Effect .server s (.open results errno) (Server.open strerror errno results s).2 := by
  obtain ⟨setsockopt, bind, listen, accept, inetPton, connect⟩ := results
  have hstays : ∀ conn, (setsockopt && bind && listen && accept) = false →
      Effect .server s (.open ⟨setsockopt, bind, listen, accept, inetPton, connect⟩ errno)
        { s with conn := conn, closed := s.closed ++ [s.fd] } := by
    intro conn hfails
    have haccepts : SocketCall.accepts .server
        (.open ⟨setsockopt, bind, listen, accept, inetPton, connect⟩ errno) = false := by
      simpa [SocketCall.accepts] using hfails
    have heffect := @Effect.stays .server s _ conn (by simp) haccepts
    simpa only [SocketCall.closes, hfails, Bool.not_false, if_true] using heffect
  cases setsockopt with
  | false => exact hstays s.conn rfl
  | true =>
      cases bind with
      | false => exact hstays s.conn rfl
      | true =>
          cases listen with
          | false => exact hstays s.conn rfl
          | true =>
              cases accept with
              | false => exact hstays none rfl
              | true => exact .accepts _ rfl

theorem effect_client (strerror : ℤ → String) (s : DetailSocket) (results : OpenResults)
    (errno : ℤ) : Effect .client s (.open results errno) (Client.open strerror errno results s).2 := by
  obtain ⟨setsockopt, bind, listen, accept, inetPton, connect⟩ := results
  have haccepts : SocketCall.accepts .client
      (.open ⟨setsockopt, bind, listen, accept, inetPton, connect⟩ errno) = false := by
    simp [SocketCall.accepts]
  have hstays := fun conn => @Effect.stays .client s _ conn (by simp) haccepts
  cases inetPton with
  | false => simpa [SocketCall.closes, Client.open] using hstays s.conn
  | true =>
      cases connect with
      | false => exact hstays s.conn
      | true => simpa [SocketCall.closes, Client.open] using hstays s.fd

theorem effect_apply (strerror : ℤ → String) (type : SocketType) (s : DetailSocket)
    (call : SocketCall) : Effect type s call (call.apply strerror type s) := by
  cases call with
  | prepare result =>
      cases result with
      | failed => exact .fails
      | given zero =>
          have heffect := @Effect.obtains type s zero
          cases zero with
          | false => simpa [SocketCall.apply, DetailSocket.prepare] using heffect
          | true => exact heffect
  | «open» results errno =>
      cases type with
      | server => exact effect_server strerror s results errno
      | client => exact effect_client strerror s results errno
  | close => exact .stays .close s.conn (by simp) rfl

/-! ## One descriptor -/

variable {strerror : ℤ → String} {type : SocketType} {s t : DetailSocket} {call : SocketCall}

theorem afterLife_cons (calls : List SocketCall) :
    s.afterLife strerror type (call :: calls) =
      (call.apply strerror type s).afterLife strerror type calls :=
  rfl

theorem closes_of_accepts (haccepts : call.accepts type = true) :
    (∀ result, call ≠ .prepare result) ∧ call.closes type = false := by
  cases call with
  | prepare result => simp [SocketCall.accepts] at haccepts
  | close => simp [SocketCall.accepts] at haccepts
  | «open» results errno =>
      cases type with
      | client => simp [SocketCall.accepts] at haccepts
      | server =>
          simp only [SocketCall.accepts, decide_true, Bool.true_and] at haccepts
          exact ⟨by simp, by simp [SocketCall.closes, haccepts]⟩

theorem closesToCome_cons (hprepare : ∀ result, call ≠ .prepare result)
    (calls : List SocketCall) :
    closesToCome type (call :: calls) = (call.closes type).toNat + closesToCome type calls := by
  cases call with
  | prepare result => exact absurd rfl (hprepare result)
  | «open» results errno => rfl
  | close => rfl

theorem closedOnce_cons (hprepare : ∀ zero, call ≠ .prepare (.given zero))
    (calls : List SocketCall) :
    ClosedOnce type (call :: calls) ↔ call.accepts type = false ∧ ClosedOnce type calls := by
  cases call with
  | prepare result =>
      cases result with
      | failed => exact Iff.rfl
      | given zero => exact absurd rfl (hprepare zero)
  | «open» results errno => exact Iff.rfl
  | close => exact Iff.rfl

/-- Only descriptors that were obtained are in use and closed. -/
structure Bounded (s : DetailSocket) : Prop where
  fd : ∀ d, s.fd = some d → d < s.obtained
  closed : ∀ d, some d ∈ s.closed → d < s.obtained

theorem bounded_init : Bounded .init :=
  ⟨fun d hfd => by simp [DetailSocket.init] at hfd,
    fun d hclosed => by simp [DetailSocket.init] at hclosed⟩

theorem Bounded.effect (h : Bounded s) (heffect : Effect type s call t) : Bounded t := by
  cases heffect with
  | fails => exact ⟨fun d hfd => by simp at hfd, h.closed⟩
  | obtains zero =>
      constructor
      · intro d hfd
        simp only [Option.some.injEq] at hfd
        simp [← hfd]
      · intro d hclosed
        have hd : some d ∈ s.closed ∨ d = s.obtained := by cases zero <;> simp_all
        cases hd with
        | inl hd => exact Nat.lt_succ_of_lt (h.closed d hd)
        | inr hd => simp [hd]
  | accepts =>
      exact ⟨fun d hfd => Nat.lt_succ_of_lt (h.fd d hfd),
        fun d hclosed => Nat.lt_succ_of_lt (h.closed d hclosed)⟩
  | stays call conn =>
      refine ⟨h.fd, fun d hclosed => ?_⟩
      cases hcloses : call.closes type with
      | false => exact h.closed d (by simpa [hcloses] using hclosed)
      | true =>
          have hd : some d ∈ s.closed ∨ some d = s.fd := by simpa [hcloses] using hclosed
          cases hd with
          | inl hd => exact h.closed d hd
          | inr hd => exact h.fd d hd.symm

theorem Effect.obtained_le (heffect : Effect type s call t) : s.obtained ≤ t.obtained := by
  cases heffect with
  | fails => exact Nat.le_refl _
  | obtains zero => exact Nat.le_succ _
  | accepts => exact Nat.le_succ _
  | stays call conn => exact Nat.le_refl _

theorem obtained_le_afterLife (calls : List SocketCall) :
    s.obtained ≤ (s.afterLife strerror type calls).obtained := by
  induction calls generalizing s with
  | nil => exact Nat.le_refl _
  | cons call calls ih =>
      exact Nat.le_trans (effect_apply strerror type s call).obtained_le ih

theorem Bounded.afterLife (h : Bounded s) (calls : List SocketCall) :
    Bounded (s.afterLife strerror type calls) := by
  induction calls generalizing s with
  | nil => exact h.effect (@Effect.stays type s .close s.conn (by simp) rfl)
  | cons call calls ih => exact ih (h.effect (effect_apply strerror type s call))

/-- What a call adds for a descriptor that there is, is taken from what is to come. -/
theorem count_effect {d : ℕ} (hd : d < s.obtained) (calls : List SocketCall)
    (heffect : Effect type s call t) :
    t.closed.count (some d) + (if t.fd = some d then closesToCome type calls else 0) =
      s.closed.count (some d) +
        if s.fd = some d then closesToCome type (call :: calls) else 0 := by
  cases heffect with
  | fails => simp [closesToCome]
  | obtains zero =>
      have hne : s.obtained ≠ d := Nat.ne_of_gt hd
      cases zero <;> simp [closesToCome, List.count_append, hne]
  | accepts call haccepts =>
      obtain ⟨hprepare, hcloses⟩ := closes_of_accepts haccepts
      simp [closesToCome_cons hprepare, hcloses]
  | stays call conn hprepare haccepts =>
      rw [closesToCome_cons hprepare, List.count_append, Nat.add_assoc]
      congr 1
      cases hcloses : call.closes type with
      | false => simp
      | true => by_cases hfd : s.fd = some d <;> simp [hfd]

/-- A descriptor is closed as often as it was, and by what is to come if it is the one in use. -/
theorem count_afterLife {d : ℕ} (hd : d < s.obtained) (calls : List SocketCall) :
    (s.afterLife strerror type calls).closed.count (some d) =
      s.closed.count (some d) + if s.fd = some d then closesToCome type calls else 0 := by
  induction calls generalizing s with
  | nil => simp [DetailSocket.afterLife, DetailSocket.destroy, DetailSocket.close, closesToCome,
      List.count_append, List.count_singleton]
  | cons call calls ih =>
      have heffect := effect_apply strerror type s call
      rw [afterLife_cons, ih (Nat.lt_of_lt_of_le hd heffect.obtained_le)]
      exact count_effect hd calls heffect

/-! ## All of them -/

/-- Every descriptor that the calls obtain is closed once. -/
def NewClosed (strerror : ℤ → String) (type : SocketType) (s : DetailSocket)
    (calls : List SocketCall) : Prop :=
  ∀ d, s.obtained ≤ d → d < (s.afterLife strerror type calls).obtained →
    (s.afterLife strerror type calls).closed.count (some d) = 1

theorem newClosed_of_same (calls : List SocketCall)
    (hsame : (call.apply strerror type s).obtained = s.obtained) :
    NewClosed strerror type s (call :: calls) ↔
      NewClosed strerror type (call.apply strerror type s) calls := by
  simp only [NewClosed, afterLife_cons, hsame]

/-- The descriptor that a call obtains is split off. -/
theorem newClosed_of_next (calls : List SocketCall)
    (hnext : (call.apply strerror type s).obtained = s.obtained + 1) :
    NewClosed strerror type s (call :: calls) ↔
      ((call.apply strerror type s).afterLife strerror type calls).closed.count
          (some s.obtained) = 1 ∧
        NewClosed strerror type (call.apply strerror type s) calls := by
  have hlt : s.obtained <
      ((call.apply strerror type s).afterLife strerror type calls).obtained :=
    Nat.lt_of_lt_of_le (by omega) (obtained_le_afterLife calls)
  simp only [NewClosed, afterLife_cons, hnext]
  constructor
  · intro h
    exact ⟨h s.obtained (Nat.le_refl _) hlt, fun d hd hd' => h d (Nat.le_of_lt hd) hd'⟩
  · intro ⟨hfirst, hrest⟩ d hd hd'
    obtain heq | hlt := Nat.eq_or_lt_of_le hd
    · exact heq ▸ hfirst
    · exact hrest d hlt hd'

theorem newClosed_iff (h : Bounded s) (calls : List SocketCall) :
    NewClosed strerror type s calls ↔ ClosedOnce type calls := by
  induction calls generalizing s with
  | nil =>
      simp only [ClosedOnce, iff_true]
      intro d hd hd'
      exact absurd hd (Nat.not_le.mpr hd')
  | cons call calls ih =>
      have heffect := effect_apply strerror type s call
      have hbounded := h.effect heffect
      have hfresh : s.closed.count (some s.obtained) = 0 := by
        rw [List.count_eq_zero]
        exact fun hclosed => Nat.lt_irrefl _ (h.closed _ hclosed)
      generalize ht : call.apply strerror type s = t at heffect hbounded
      cases heffect with
      | fails =>
          rw [newClosed_of_same calls (by rw [ht]), ht, ih hbounded,
            closedOnce_cons (by simp)]
          simp [SocketCall.accepts]
      | obtains zero =>
          rw [newClosed_of_next calls (by rw [ht]), ht, ih hbounded,
            count_afterLife (Nat.lt_succ_self _)]
          cases zero <;> simp [ClosedOnce, List.count_append, hfresh]
      | accepts call haccepts =>
          have hprepare := (closes_of_accepts haccepts).1
          have hfd : s.fd ≠ some s.obtained := fun hfd => Nat.lt_irrefl _ (h.fd _ hfd)
          rw [newClosed_of_next calls (by rw [ht]), ht, count_afterLife (Nat.lt_succ_self _),
            closedOnce_cons fun zero => hprepare (.given zero)]
          simp [haccepts, hfresh, hfd]
      | stays call conn hprepare haccepts =>
          rw [newClosed_of_same calls (by rw [ht]), ht, ih hbounded,
            closedOnce_cons fun zero => hprepare (.given zero)]
          simp [haccepts]

/-- Everything is closed once exactly if no connection is accepted and every socket is closed once
before the next one is obtained, or by the deleter alone. -/
theorem descriptors_iff (strerror : ℤ → String) (type : SocketType) (calls : List SocketCall) :
    Accounted strerror type calls ↔ ClosedOnce type calls := by
  have hnew : NewClosed strerror type .init calls ↔ ClosedOnce type calls :=
    newClosed_iff bounded_init calls
  rw [← hnew]
  constructor
  · intro h d _ hd
    have hpos := List.count_pos_iff.mpr (h.closed d hd)
    have hone := h.once d
    omega
  · intro h
    constructor
    · intro d hd
      exact List.count_pos_iff.mp (by rw [h d (Nat.zero_le _) hd]; exact Nat.one_pos)
    · intro d
      by_cases hd : d < (DetailSocket.init.afterLife strerror type calls).obtained
      · exact (h d (Nat.zero_le _) hd).le
      · have hnone : (DetailSocket.init.afterLife strerror type calls).closed.count (some d) = 0 := by
          rw [List.count_eq_zero]
          exact fun hclosed => hd ((bounded_init.afterLife calls).closed d hclosed)
        omega

/-- A server that accepts a connection and is destroyed keeps the connection. -/
theorem accept_leaks :
    ¬ Accounted (fun _ => "") .server
      [.prepare (.given false), .open ⟨true, true, true, true, true, true⟩ 0] := by
  intro h
  exact absurd (h.closed 1 (by decide)) (by decide)

/-- A client that is closed is closed again by its deleter. -/
example :
    ¬ Accounted (fun _ => "") .client
      [.prepare (.given false), .open ⟨true, true, true, true, true, true⟩ 0, .close] := by
  intro h
  exact absurd (h.once 0) (by decide)

end CommonLib.Communication
