import Mathlib.Data.List.Basic

/-! # Histories of a sequential deque

One owner pushes and pops at the back, others steal at the front. A concurrent deque is explained
by such a history if each of its operations takes effect at one moment of its own. -/

namespace CommonLib.Deque

variable {ι α : Type*}

/-- What is seen of the operations: the moments at which they take effect, and the returns of
`pop`. -/
inductive Event (ι α : Type*)
  | push (item : α)
  /-- A `pop` takes effect, with its result. -/
  | pop (result : Option α)
  /-- A `pop` returns. -/
  | answer (result : Option α)
  | steal (i : ι) (item : α)
  deriving DecidableEq

/-- The history is one of a sequential deque, which holds `items` at its end; `owed` is the result
of a `pop` that has taken effect and has not returned. -/
inductive Explains : List (Event ι α) → List α → Option (Option α) → Prop
  | nil : Explains [] [] none
  | push {history items} (item) (h : Explains history items none) :
      Explains (history ++ [.push item]) (items ++ [item]) none
  | pop {history items} (item) (h : Explains history (items ++ [item]) none) :
      Explains (history ++ [.pop (some item)]) items (some (some item))
  | empty {history} (h : Explains history [] none) :
      Explains (history ++ [.pop none]) [] (some none)
  | answer {history items} (result) (h : Explains history items (some result)) :
      Explains (history ++ [.answer result]) items none
  | steal {history items owed} (i) (item) (h : Explains history (item :: items) owed) :
      Explains (history ++ [.steal i item]) items owed

def Event.pushed : Event ι α → Option α
  | .push item => some item
  | .pop _ | .answer _ | .steal .. => none

def Event.stolen : Event ι α → Option α
  | .steal _ item => some item
  | .push _ | .pop _ | .answer _ => none

/-- The result of a `pop` that takes effect. -/
def Event.popped : Event ι α → Option (Option α)
  | .pop result => some result
  | .push _ | .answer _ | .steal .. => none

/-- The result that a `pop` returns. -/
def Event.answered : Event ι α → Option (Option α)
  | .answer result => some result
  | .push _ | .pop _ | .steal .. => none

/-- What the operations hand out when they return. -/
def Event.returned : Event ι α → Option α
  | .answer result => result
  | .steal _ item => some item
  | .push _ | .pop _ => none

variable {history : List (Event ι α)} {items : List α} {owed : Option (Option α)}

/-- The stolen items, and behind them those still there, keep the order in which they were
pushed. -/
theorem Explains.stolen_sublist (h : Explains history items owed) :
    (history.filterMap Event.stolen ++ items).Sublist (history.filterMap Event.pushed) := by
  induction h with
  | nil => exact .refl _
  | push item h ih =>
      have hsame := ih.append_right [item]
      simpa [Event.stolen, Event.pushed, List.filterMap_cons] using hsame
  | @pop history items item h ih =>
      have hless : (history.filterMap Event.stolen ++ items).Sublist
          (history.filterMap Event.stolen ++ (items ++ [item])) :=
        (List.sublist_append_left items [item]).append_left _
      simpa [Event.stolen, Event.pushed, List.filterMap_cons] using hless.trans ih
  | empty h ih | answer result h ih => simpa [Event.stolen, Event.pushed, List.filterMap_cons] using ih
  | steal i item h ih => simpa [Event.stolen, Event.pushed, List.filterMap_cons] using ih

/-- Every `pop` returns what it took. -/
theorem Explains.answers (h : Explains history items owed) :
    history.filterMap Event.popped = history.filterMap Event.answered ++ owed.toList := by
  induction h with
  | nil => rfl
  | push item h ih | steal i item h ih => simpa [Event.popped, Event.answered, List.filterMap_cons] using ih
  | pop item h ih | empty h ih | answer result h ih => simp [Event.popped, Event.answered, List.filterMap_cons, ih]

end CommonLib.Deque
