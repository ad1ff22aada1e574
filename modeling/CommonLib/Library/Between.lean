import Mathlib.Data.List.TakeWhile

/-! The part of a history between two events: from the first `start` on, and before the first
`stop`. -/

namespace CommonLib

variable {α : Type*} [DecidableEq α] {start stop : α} {l : List α}

def between (start stop : α) (l : List α) : List α :=
  (l.takeWhile fun a => a ≠ stop).dropWhile fun a => a ≠ start

theorem between_sublist (start stop : α) (l : List α) : (between start stop l).Sublist l :=
  (List.dropWhile_sublist _).trans (List.takeWhile_sublist _)

theorem takeWhile_of_not_mem (h : stop ∉ l) : (l.takeWhile fun a => a ≠ stop) = l := by
  rw [List.takeWhile_eq_self_iff]
  intro a ha
  exact decide_eq_true fun heq => h (heq ▸ ha)

theorem between_of_not_mem (h : start ∉ l) : between start stop l = [] := by
  rw [between, List.dropWhile_eq_nil_iff]
  intro a ha
  exact decide_eq_true fun heq => h (heq ▸ (List.takeWhile_sublist _).mem ha)

/-- What comes behind `stop` does not count. -/
theorem between_concat_of_mem (h : stop ∈ l) (e : α) :
    between start stop (l ++ [e]) = between start stop l := by
  rw [between, between, List.takeWhile_append, if_neg]
  intro hlen
  have hall := (List.takeWhile_sublist fun a => decide (a ≠ stop)).eq_of_length hlen
  rw [List.takeWhile_eq_self_iff] at hall
  simpa using hall stop h

theorem between_concat_stop : between start stop (l ++ [stop]) = between start stop l := by
  by_cases h : stop ∈ l
  · exact between_concat_of_mem h stop
  · rw [between, between, List.takeWhile_append, if_pos (by rw [takeWhile_of_not_mem h]),
      takeWhile_of_not_mem h]
    simp

theorem between_concat_start (hstart : start ∉ l) (hstop : stop ∉ l) (hne : start ≠ stop) :
    between start stop (l ++ [start]) = [start] := by
  have hmem : stop ∉ l ++ [start] := by simp [hstop, hne.symm]
  have hall : ∀ a ∈ l, decide (a ≠ start) = true :=
    fun a ha => decide_eq_true fun heq => hstart (heq ▸ ha)
  rw [between, takeWhile_of_not_mem hmem, List.dropWhile_append_of_pos hall]
  simp

/-- Between the two events everything is kept. -/
theorem between_concat (hstart : start ∈ l) (hstop : stop ∉ l) {e : α} (hne : e ≠ stop) :
    between start stop (l ++ [e]) = between start stop l ++ [e] := by
  have hmem : stop ∉ l ++ [e] := by simp [hstop, hne.symm]
  rw [between, between, takeWhile_of_not_mem hmem, takeWhile_of_not_mem hstop,
    List.dropWhile_append, if_neg]
  rw [List.isEmpty_iff, List.dropWhile_eq_nil_iff]
  intro hall
  simpa using hall start hstart

end CommonLib
