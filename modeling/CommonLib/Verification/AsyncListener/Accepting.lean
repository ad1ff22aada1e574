import CommonLib.Model.AsyncListener
import Mathlib.Algebra.BigOperators.Group.List.Basic
import Mathlib.Algebra.Order.Group.Multiset
import Mathlib.Tactic.Abel
import Mathlib.Tactic.Common

/-! # The accept loop

Every connection that comes in is passed to `onAccept` once and in turn, no error of an accept ends
the loop, and `stop` does. -/

namespace CommonLib.AsyncTcp

variable {ι : Type*}

/-! ## The loops -/

namespace AcceptLoop

/-- The connection that was accepted and is not yet passed on. -/
def connection : AcceptLoop ι → Option ι
  | completed (.connection c) => some c
  | pending | completed (.error _) | accepting | ended => none

/-- The loop will be armed again unless the acceptor is closed. -/
def Live : AcceptLoop ι → Prop
  | ended | completed (.error .operationAborted) => False
  | pending | completed (.connection _) | completed (.error .badDescriptor)
  | completed (.error (.other _)) | accepting => True

/-- How many handlers are still to come before the loop waits or has ended. -/
def work : AcceptLoop ι → ℕ
  | pending | ended => 0
  | completed (.error _) => 1
  | accepting => 2
  | completed (.connection _) => 3

theorem connection_abort (loop : AcceptLoop ι) : loop.abort.connection = loop.connection := by
  cases loop <;> rfl

theorem abort_ne_pending (loop : AcceptLoop ι) : loop.abort ≠ .pending := by
  cases loop <;> simp [abort]

theorem live_of_ne {ec : AcceptError} (h : ec ≠ .operationAborted) :
    (completed (.error ec) : AcceptLoop ι).Live := by
  cases ec with
  | operationAborted => exact absurd rfl h
  | badDescriptor | other code => trivial

end AcceptLoop

theorem exists_split_of_getElem? {α : Type*} {l : List α} {k : ℕ} {a : α} (h : l[k]? = some a) :
    ∃ front back, l = front ++ a :: back ∧ ∀ b, l.set k b = front ++ b :: back := by
  obtain ⟨hlt, rfl⟩ := List.getElem?_eq_some_iff.mp h
  refine ⟨l.take k, l.drop (k + 1), ?_, fun b => ?_⟩
  · rw [← List.drop_eq_getElem_cons hlt, List.take_append_drop]
  · rw [List.set_eq_take_append_cons_drop, if_pos hlt]

namespace AsyncListener

/-! ## The steps -/

/-- One loop takes a step: what it was, what it becomes, and what the listener makes of it. -/
inductive Turn (s : AsyncListener ι) :
    ListenerAction ι → AcceptLoop ι → AcceptLoop ι → List ι → List ι → Prop
  | accept (k : ℕ) (c : ι) (rest : List ι) (hbacklog : s.backlog = c :: rest) :
      Turn s (.accept k) .pending (.completed (.connection c)) rest s.handed
  | fail (k : ℕ) (ec : AcceptError) (hec : ec ≠ .operationAborted) :
      Turn s (.fail k ec) .pending (.completed (.error ec)) s.backlog s.handed
  | hand (k : ℕ) (c : ι) :
      Turn s (.handle k) (.completed (.connection c)) .accepting s.backlog (s.handed ++ [c])
  | aborted (k : ℕ) :
      Turn s (.handle k) (.completed (.error .operationAborted)) .ended s.backlog s.handed
  | retry (k : ℕ) (ec : AcceptError) (hec : ec ≠ .operationAborted) (hopen : s.isOpen = true) :
      Turn s (.handle k) (.completed (.error ec)) .pending s.backlog s.handed
  | giveUp (k : ℕ) (ec : AcceptError) (hec : ec ≠ .operationAborted) (hclosed : s.isOpen = false) :
      Turn s (.handle k) (.completed (.error ec)) .ended s.backlog s.handed
  | rearm (k : ℕ) (hopen : s.isOpen = true) :
      Turn s (.returns k) .accepting .pending s.backlog s.handed
  | rearmClosed (k : ℕ) (hclosed : s.isOpen = false) :
      Turn s (.returns k) .accepting (.completed (.error .badDescriptor)) s.backlog s.handed
  | throws (k : ℕ) : Turn s (.throws k) .accepting .ended s.backlog s.handed

inductive Step (s : AsyncListener ι) : ListenerAction ι → AsyncListener ι → Prop
  | listen : Step s (.listen true) (s.listen true)
  | refused : Step s (.listen false) { s with terminated := true }
  | stopped (hclosed : s.isOpen = false) : Step s .stop s
  | stop (hopen : s.isOpen = true) : Step s .stop s.close
  | arrive (c : ι) (hopen : s.isOpen = true) :
      Step s (.arrive c) { s with backlog := s.backlog ++ [c], arrived := s.arrived ++ [c] }
  | turn (a : ListenerAction ι) (old new : AcceptLoop ι) (backlog handed : List ι)
      (front back : List (AcceptLoop ι)) (hloops : s.loops = front ++ old :: back)
      (hturn : Turn s a old new backlog handed) :
      Step s a { s with backlog := backlog, handed := handed, loops := front ++ new :: back }

/-- The completion handler turns its loop. -/
theorem Turn.of_handler (s : AsyncListener ι) (k : ℕ) (result : Accepted ι) :
    ∃ new handed, Turn s (.handle k) (.completed result) new s.backlog handed ∧
      s.handler k result = { s with handed := handed, loops := s.loops.set k new } := by
  cases result with
  | connection c => exact ⟨_, _, .hand k c, rfl⟩
  | error ec =>
      by_cases hec : ec = .operationAborted
      · subst hec
        exact ⟨_, _, .aborted k, rfl⟩
      · have hhandler : s.handler k (.error ec) =
            if s.isOpen then s.listening k else s.setLoop k .ended := by
          cases ec with
          | operationAborted => exact absurd rfl hec
          | badDescriptor | other code => rfl
        rw [hhandler]
        cases hopen : s.isOpen with
        | true => exact ⟨_, _, .retry k ec hec hopen, by simp [listening, setLoop, hopen]⟩
        | false => exact ⟨_, _, .giveUp k ec hec hopen, by simp [setLoop, hopen]⟩

theorem Turn.of_returns (s : AsyncListener ι) (k : ℕ) :
    ∃ new, Turn s (.returns k) .accepting new s.backlog s.handed ∧
      s.listening k = { s with loops := s.loops.set k new } := by
  cases hopen : s.isOpen with
  | true => exact ⟨_, .rearm k hopen, by simp [listening, setLoop, hopen]⟩
  | false => exact ⟨_, .rearmClosed k hopen, by simp [listening, setLoop, hopen]⟩

theorem Turn.step {s : AsyncListener ι} {a : ListenerAction ι} {old new : AcceptLoop ι}
    {backlog handed : List ι} {k : ℕ} (h : Turn s a old new backlog handed)
    (hk : s.loops[k]? = some old) :
    Step s a { s with backlog := backlog, handed := handed, loops := s.loops.set k new } := by
  obtain ⟨front, back, hloops, hset⟩ := exists_split_of_getElem? hk
  rw [hset]
  exact .turn a old new backlog handed front back hloops h

theorem step_cases {s s' : AsyncListener ι} {a : ListenerAction ι} (h : s.step a = some s') :
    s.terminated = false ∧ Step s a s' := by
  unfold step at h
  split at h
  · cases h
  · rename_i hlive
    refine ⟨by simpa using hlive, ?_⟩
    cases a with
    | listen bound =>
        cases h
        cases bound with
        | true => exact .listen
        | false => exact .refused
    | stop =>
        simp only [AsyncListener.stop, Option.some.injEq] at h
        subst h
        split
        · next hopen => exact .stop hopen
        · next hclosed => exact .stopped (by simpa using hclosed)
    | arrive c =>
        simp only at h
        split at h <;> cases h
        exact .arrive c ‹_›
    | accept k =>
        simp only at h
        split at h <;> cases h
        rename_i c rest hk hbacklog
        exact (Turn.accept k c rest hbacklog).step hk
    | fail k ec =>
        simp only at h
        split at h
        · next hk =>
            split at h <;> cases h
            exact (Turn.fail k ec ‹_›).step hk
        · cases h
    | handle k =>
        simp only at h
        split at h <;> cases h
        rename_i result hk
        obtain ⟨new, handed, hturn, hhandler⟩ := Turn.of_handler s k result
        rw [hhandler]
        exact hturn.step hk
    | returns k =>
        simp only at h
        split at h <;> cases h
        rename_i hk
        obtain ⟨new, hturn, hlistening⟩ := Turn.of_returns s k
        rw [hlistening]
        exact hturn.step hk
    | throws k =>
        simp only at h
        split at h <;> cases h
        rename_i hk
        exact (Turn.throws k).step hk

/-! ## No connection is lost sight of -/

/-- The connections that were accepted and are not yet passed on. -/
def inFlight (s : AsyncListener ι) : List ι :=
  s.loops.filterMap AcceptLoop.connection

/-- A turn keeps the order: a connection goes from the backlog over the loop to `onAccept`. -/
theorem Turn.order {s : AsyncListener ι} {a : ListenerAction ι} {old new : AcceptLoop ι}
    {backlog handed : List ι} (h : Turn s a old new backlog handed) :
    handed ++ new.connection.toList ++ backlog = s.handed ++ old.connection.toList ++ s.backlog := by
  cases h with
  | accept k c rest hbacklog => simp [AcceptLoop.connection, hbacklog]
  | hand k c => simp [AcceptLoop.connection]
  | fail | aborted | retry | giveUp | rearm | rearmClosed | throws => simp [AcceptLoop.connection]

theorem Turn.handed_prefix {s : AsyncListener ι} {a : ListenerAction ι} {old new : AcceptLoop ι}
    {backlog handed : List ι} (h : Turn s a old new backlog handed) : s.handed <+: handed := by
  cases h with
  | hand k c => exact List.prefix_append _ _
  | accept | fail | aborted | retry | giveUp | rearm | rearmClosed | throws => exact List.prefix_rfl

theorem filterMap_split (front back : List (AcceptLoop ι)) (loop : AcceptLoop ι) :
    (front ++ loop :: back).filterMap AcceptLoop.connection =
      front.filterMap AcceptLoop.connection ++ loop.connection.toList ++
        back.filterMap AcceptLoop.connection := by
  cases hloop : loop.connection <;> simp [hloop]

theorem inFlight_close (s : AsyncListener ι) : s.close.inFlight = s.inFlight := by
  simp [inFlight, close, List.filterMap_map, AcceptLoop.connection_abort]

theorem inFlight_listen (s : AsyncListener ι) : (s.listen true).inFlight = s.inFlight := by
  rw [← inFlight_close s]
  simp [AsyncListener.listen, inFlight, AcceptLoop.connection]

/-- Where the connections are that came in. While there is one loop at most, they are in order. -/
structure Accounted (s : AsyncListener ι) : Prop where
  pending : .pending ∈ s.loops → s.isOpen = true
  idle : s.isOpen = false → s.backlog = []
  before : s.loops = [] → s.isOpen = false ∧ s.lost = []
  all : s.arrived.Perm (s.handed ++ s.inFlight ++ s.backlog ++ s.lost)
  order : s.loops.length ≤ 1 → s.arrived = s.handed ++ s.inFlight ++ s.backlog ++ s.lost ∧
    (s.isOpen = true → s.lost = [])

theorem accounted_init : (init : AsyncListener ι).Accounted :=
  ⟨fun h => (by cases h), fun _ => rfl, fun _ => ⟨rfl, rfl⟩, .refl _, fun _ => ⟨rfl, fun _ => rfl⟩⟩

theorem Accounted.close_all {s : AsyncListener ι} (h : s.Accounted) :
    s.arrived.Perm (s.handed ++ s.inFlight ++ (s.lost ++ s.backlog)) := by
  refine h.all.trans ?_
  rw [List.append_assoc]
  exact List.perm_append_comm.append_left _

theorem Accounted.listen {s : AsyncListener ι} (h : s.Accounted) : (s.listen true).Accounted where
  pending _ := rfl
  idle hclosed := by cases hclosed
  before hnone := by simp [AsyncListener.listen] at hnone
  all := by
    rw [inFlight_listen, List.append_assoc, List.append_assoc]
    simpa [AsyncListener.listen, close] using h.close_all
  order hone := by
    have hnone : s.loops = [] := by simpa [AsyncListener.listen, close] using hone
    obtain ⟨hclosed, hlost⟩ := h.before hnone
    have hbacklog := h.idle hclosed
    have harrived := (h.order (by simp [hnone])).1
    rw [inFlight_listen]
    simpa [AsyncListener.listen, close, hlost, hbacklog] using harrived

theorem Accounted.close {s : AsyncListener ι} (h : s.Accounted) (hopen : s.isOpen = true) :
    s.close.Accounted where
  pending hmem := by
    obtain ⟨loop, -, hloop⟩ := List.mem_map.mp hmem
    exact absurd hloop loop.abort_ne_pending
  idle _ := rfl
  before hnone := by
    have hloops : s.loops = [] := List.map_eq_nil_iff.mp hnone
    rw [(h.before hloops).1] at hopen
    cases hopen
  all := by
    rw [inFlight_close]
    simpa [AsyncListener.close] using h.close_all
  order hone := by
    obtain ⟨harrived, hlost⟩ := h.order (by simpa [AsyncListener.close] using hone)
    refine ⟨?_, fun hclosed => by cases hclosed⟩
    rw [inFlight_close]
    simpa [AsyncListener.close, hlost hopen] using harrived

theorem Accounted.turn {s : AsyncListener ι} (h : s.Accounted) {a : ListenerAction ι}
    {old new : AcceptLoop ι} {backlog handed : List ι} {front back : List (AcceptLoop ι)}
    (hloops : s.loops = front ++ old :: back) (hturn : Turn s a old new backlog handed) :
    Accounted { s with backlog := backlog, handed := handed, loops := front ++ new :: back } where
  pending hmem := by
    rcases List.mem_append.mp hmem with hfront | hback
    · exact h.pending (hloops ▸ List.mem_append_left _ hfront)
    · rcases List.mem_cons.mp hback with hnew | hback
      · cases hturn with
        | retry k ec hec hopen | rearm k hopen => exact hopen
        | accept | fail | hand | aborted | giveUp | rearmClosed | throws => cases hnew
      · exact h.pending (hloops ▸ List.mem_append_right _ (List.mem_cons_of_mem _ hback))
  idle hclosed := by
    have hidle := h.idle hclosed
    cases hturn with
    | accept k c rest hbacklog =>
        rw [hbacklog] at hidle
        cases hidle
    | fail | hand | aborted | retry | giveUp | rearm | rearmClosed | throws => exact hidle
  before hnone := by simp at hnone
  all := by
    have hall := h.all
    have horder := congrArg (fun l : List ι => (l : Multiset ι)) hturn.order
    rw [inFlight, hloops, filterMap_split] at hall
    change s.arrived.Perm (handed ++ (front ++ new :: back).filterMap _ ++ backlog ++ s.lost)
    rw [filterMap_split]
    simp only [← Multiset.coe_eq_coe, ← Multiset.coe_add] at hall horder ⊢
    rw [hall]
    calc _ = ((s.handed : Multiset ι) + old.connection.toList + s.backlog) +
          (front.filterMap AcceptLoop.connection + back.filterMap AcceptLoop.connection + s.lost) := by
          abel
      _ = ((handed : Multiset ι) + new.connection.toList + backlog) +
          (front.filterMap AcceptLoop.connection + back.filterMap AcceptLoop.connection + s.lost) := by
          rw [horder]
      _ = _ := by abel
  order hone := by
    change (front ++ new :: back).length ≤ 1 at hone
    rw [List.length_append, List.length_cons] at hone
    obtain rfl : front = [] := List.length_eq_zero_iff.mp (by omega)
    obtain rfl : back = [] := List.length_eq_zero_iff.mp (by omega)
    obtain ⟨harrived, hlost⟩ := h.order (by simp [hloops])
    refine ⟨?_, hlost⟩
    rw [inFlight, hloops, filterMap_split] at harrived
    change s.arrived = handed ++ ([] ++ new :: []).filterMap _ ++ backlog ++ s.lost
    rw [filterMap_split, harrived]
    simpa using congrArg (· ++ s.lost) hturn.order.symm

theorem Accounted.step {s s' : AsyncListener ι} {a : ListenerAction ι} (h : s.Accounted)
    (hstep : Step s a s') : s'.Accounted := by
  cases hstep with
  | listen => exact h.listen
  | refused => exact ⟨h.pending, h.idle, h.before, h.all, h.order⟩
  | stopped hclosed => exact h
  | stop hopen => exact h.close hopen
  | arrive c hopen =>
      refine ⟨h.pending, fun hclosed => ?_, fun hnone => ?_, ?_, fun hone => ?_⟩
      · rw [hopen] at hclosed
        cases hclosed
      · rw [(h.before hnone).1] at hopen
        cases hopen
      · change (s.arrived ++ [c]).Perm (s.handed ++ s.inFlight ++ (s.backlog ++ [c]) ++ s.lost)
        have hall := h.all.append_right [c]
        refine hall.trans ?_
        simp only [List.append_assoc]
        exact ((List.perm_append_comm.append_left _).append_left _).append_left _
      · obtain ⟨harrived, hlost⟩ := h.order hone
        refine ⟨?_, hlost⟩
        change s.arrived ++ [c] = s.handed ++ s.inFlight ++ (s.backlog ++ [c]) ++ s.lost
        rw [harrived, hlost hopen]
        simp
  | turn a old new backlog handed front back hloops hturn => exact h.turn hloops hturn

theorem Reachable.accounted {s : AsyncListener ι} (h : (machine ι).Reachable s) : s.Accounted :=
  h.invariant accounted_init fun _ _ _ hs _ hstep => hs.step (step_cases hstep).2

/-- However often `listen` and `stop` are called: every connection that came in was passed to
`onAccept` once, waits to be, or went down with its acceptor. Where `listen` was called once they
are passed on in the order in which they came, and none is lost before `stop`. -/
theorem hands_over_in_order {s : AsyncListener ι} (h : (machine ι).Reachable s) :
    s.arrived.Perm (s.handed ++ s.inFlight ++ s.backlog ++ s.lost) ∧
    (s.loops.length ≤ 1 → s.arrived = s.handed ++ s.inFlight ++ s.backlog ++ s.lost ∧
      (s.isOpen = true → s.lost = [])) :=
  ⟨(Reachable.accounted h).all, (Reachable.accounted h).order⟩

/-- Three connections, an error in between; the third one is not accepted before `stop`. -/
theorem hands_over_in_order_three :
    ∃ s : AsyncListener ℕ, (machine ℕ).run init [.listen true, .arrive 7, .arrive 8, .accept 0,
        .handle 0, .arrive 9, .returns 0, .fail 0 (.other 24), .handle 0, .accept 0, .stop] = some s ∧
      s.handed = [7] ∧ s.inFlight = [8] ∧ s.lost = [9] ∧
      [7, 8, 9] = s.handed ++ s.inFlight ++ s.backlog ++ s.lost := by
  obtain ⟨s, hrun, harrived, hloops, hhanded, hflight, hlost⟩ : ∃ s : AsyncListener ℕ,
      (machine ℕ).run init [.listen true, .arrive 7, .arrive 8, .accept 0, .handle 0, .arrive 9,
        .returns 0, .fail 0 (.other 24), .handle 0, .accept 0, .stop] = some s ∧
      s.arrived = [7, 8, 9] ∧ s.loops.length ≤ 1 ∧ s.handed = [7] ∧ s.inFlight = [8] ∧
      s.lost = [9] :=
    ⟨_, rfl, rfl, by decide, rfl, rfl, rfl⟩
  refine ⟨s, hrun, hhanded, hflight, hlost, ?_⟩
  rw [← harrived]
  exact ((hands_over_in_order (Machine.reachable_of_run hrun)).2 hloops).1

end AsyncListener

end CommonLib.AsyncTcp
