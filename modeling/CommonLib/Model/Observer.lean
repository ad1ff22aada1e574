import Mathlib.Data.Nat.Notation
import Mathlib.Tactic.TypeStar

/-! `Subject` of `Observer.hpp`: a vector of observers that is notified with a range-based `for`. -/

namespace CommonLib

structure Subject (O : Type*) where
  observers : List O
  /-- How often `emplace_back` has run. It invalidates an end of the vector that was taken before,
  and with a reallocation every other position too. -/
  growths : ℕ
  deriving DecidableEq, Repr

/-- What an observer can do to the subject while it is notified. -/
inductive SubjectCall (O : Type*)
  | regist (observer : O)
  | unregist (observer : O)
  deriving DecidableEq, Repr

inductive NotifyEvent (O : Type*)
  | called (observer : O)
  | changed (call : SubjectCall O)
  deriving DecidableEq, Repr

section Notify

variable {O α σ : Type*} [DecidableEq O]

def Subject.regist (observer : O) (s : Subject O) : Subject O :=
  { observers := s.observers ++ [observer], growths := s.growths + 1 }

/-- `erase` of what `remove_if` leaves behind: the observers that follow move down, and a position
keeps its number. -/
def Subject.unregist (observer : O) (s : Subject O) : Subject O :=
  { s with observers := s.observers.filter fun obs => obs ≠ observer }

def SubjectCall.apply (s : Subject O) : SubjectCall O → Subject O
  | .regist observer => s.regist observer
  | .unregist observer => s.unregist observer

/-- A subject that is notified. The state of the user is what the observers know and change; the
vector itself cannot be read from outside. -/
structure Notification (O σ : Type*) where
  subject : Subject O
  user : σ
  events : List (NotifyEvent O)
  /-- A position was used that was not valid any more. What follows is undefined and left out. -/
  invalid : Bool
  deriving DecidableEq, Repr

/-- `observer->onEvent(args...)`; `onEvent` gives the calls to the subject in their order. -/
def Notification.call (onEvent : O → α → σ → σ × List (SubjectCall O)) (args : α)
    (n : Notification O σ) (observer : O) : Notification O σ :=
  let (user, calls) := onEvent observer args n.user
  { n with
    subject := calls.foldl SubjectCall.apply n.subject
    user := user
    events := n.events ++ .called observer :: calls.map .changed }

/-- The loop from `position` on. Its end was taken before the first call, `remaining` positions
ahead and with the vector grown `growths` times; every turn compares with it. -/
def Notification.loop (onEvent : O → α → σ → σ × List (SubjectCall O)) (args : α) (growths : ℕ) :
    (remaining position : ℕ) → Notification O σ → Notification O σ
  | 0, _, n => if n.subject.growths = growths then n else { n with invalid := true }
  | remaining + 1, position, n =>
      if n.subject.growths = growths then
        match n.subject.observers[position]? with
        | none => { n with invalid := true }
        | some observer => (n.call onEvent args observer).loop onEvent args growths remaining
            (position + 1)
      else { n with invalid := true }

def Subject.notify (onEvent : O → α → σ → σ × List (SubjectCall O)) (args : α) (user : σ)
    (s : Subject O) : Notification O σ :=
  Notification.loop onEvent args s.growths s.observers.length 0 ⟨s, user, [], false⟩

end Notify

end CommonLib
