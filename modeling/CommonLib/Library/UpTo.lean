import Mathlib.Data.List.TakeWhile
import Mathlib.Algebra.Order.BigOperators.Group.List
import Mathlib.Algebra.Order.Group.Nat

/-! The part of a list up to the first occurrence of a stop element, or of a whole pattern, that
one included. -/

namespace CommonLib

variable {α : Type*} [DecidableEq α] {stop : α}

def upTo (stop : α) : List α → List α
  | [] => []
  | a :: l => if a = stop then [a] else a :: upTo stop l

theorem upTo_of_not_mem {l : List α} (h : stop ∉ l) : upTo stop l = l := by
  induction l with
  | nil => rfl
  | cons a l ih =>
      rw [List.mem_cons, not_or] at h
      rw [upTo, if_neg (Ne.symm h.1), ih h.2]

theorem upTo_append {body rest : List α} (h : stop ∉ body) :
    upTo stop (body ++ stop :: rest) = body ++ [stop] := by
  induction body with
  | nil => simp [upTo]
  | cons a body ih =>
      rw [List.mem_cons, not_or] at h
      rw [List.cons_append, upTo, if_neg (Ne.symm h.1), ih h.2, List.cons_append]

theorem exists_upTo {l : List α} (h : stop ∈ l) :
    ∃ body rest, l = body ++ stop :: rest ∧ stop ∉ body := by
  induction l with
  | nil => cases h
  | cons a l ih =>
      by_cases ha : a = stop
      · subst ha
        exact ⟨[], l, rfl, by simp⟩
      · obtain ⟨body, rest, heq, hbody⟩ := ih ((List.mem_cons.mp h).resolve_left (Ne.symm ha))
        exact ⟨a :: body, rest, by rw [heq, List.cons_append], by simp [Ne.symm ha, hbody]⟩

theorem upTo_isPrefix (stop : α) (l : List α) : upTo stop l <+: l := by
  by_cases h : stop ∈ l
  · obtain ⟨body, rest, rfl, hbody⟩ := exists_upTo h
    rw [upTo_append hbody]
    exact ⟨rest, by simp⟩
  · simp [upTo_of_not_mem h]

/-- Nothing is cut off exactly when the stop element occurs nowhere but at the end. -/
theorem upTo_eq_self_iff {l : List α} : upTo stop l = l ↔ stop ∉ l.dropLast := by
  by_cases h : stop ∈ l
  · obtain ⟨body, rest, rfl, hbody⟩ := exists_upTo h
    rw [upTo_append hbody]
    cases rest with
    | nil => simpa using hbody
    | cons a rest => simp
  · rw [upTo_of_not_mem h]
    exact iff_of_true rfl fun hmem => h ((List.dropLast_sublist l).mem hmem)

/-- Cutting every list of a family keeps the whole exactly if it keeps each of them. -/
theorem flatMap_upTo_eq_iff {ls : List (List α)} :
    ls.flatMap (upTo stop) = ls.flatten ↔ ∀ l ∈ ls, stop ∉ l.dropLast := by
  induction ls with
  | nil => simp
  | cons l ls ih =>
      rw [List.flatMap_cons, List.flatten_cons, List.forall_mem_cons, ← ih, ← upTo_eq_self_iff]
      constructor
      · intro heq
        have hlen := congrArg List.length heq
        have hrest : (ls.flatMap (upTo stop)).length ≤ ls.flatten.length := by
          rw [List.length_flatMap, List.length_flatten]
          exact List.sum_le_sum fun l _ => (upTo_isPrefix stop l).length_le
        rw [List.length_append, List.length_append] at hlen
        have hhead := (upTo_isPrefix stop l).length_le
        have hself : upTo stop l = l := (upTo_isPrefix stop l).eq_of_length (by omega)
        rw [hself] at heq
        exact ⟨hself, List.append_cancel_left heq⟩
      · intro ⟨hhead, hrest⟩
        rw [hhead, hrest]

/-! ## Patterns -/

def upToSeq (pat : List α) : List α → List α
  | [] => []
  | a :: l => if pat <+: a :: l then pat else a :: upToSeq pat l

theorem upToSeq_singleton (stop : α) (l : List α) : upToSeq [stop] l = upTo stop l := by
  induction l with
  | nil => rfl
  | cons a l ih =>
      rw [upToSeq, upTo, ih]
      by_cases h : a = stop
      · simp [h]
      · simp [h, Ne.symm h]

/-- The shortest prefix that ends with the pattern, or the whole list where there is none. -/
structure FirstUpTo (pat l part : List α) : Prop where
  isPrefix : part <+: l
  shortest : ∀ p, p <+: l → pat <:+ p → part.length ≤ p.length
  ends : pat <:+ part ∨ part = l

theorem firstUpTo_upToSeq {pat : List α} (hpat : pat ≠ []) (l : List α) :
    FirstUpTo pat l (upToSeq pat l) := by
  induction l with
  | nil => exact ⟨by simp [upToSeq], by simp [upToSeq], .inr rfl⟩
  | cons a l ih =>
      rw [upToSeq]
      split
      case isTrue h =>
          exact ⟨h, fun p _ hp => hp.length_le, .inl List.suffix_rfl⟩
      case isFalse h =>
          refine ⟨List.cons_prefix_cons.mpr ⟨rfl, ih.isPrefix⟩, fun p hp hends => ?_, ?_⟩
          · cases p with
            | nil => exact absurd (List.suffix_nil.mp hends) hpat
            | cons b p =>
                rcases List.suffix_cons_iff.mp hends with heq | hends
                · rw [heq] at h
                  exact absurd hp h
                · have hp' := (List.cons_prefix_cons.mp hp).2
                  exact Nat.succ_le_succ (ih.shortest p hp' hends)
          · rcases ih.ends with hends | hwhole
            · exact .inl (hends.trans (List.suffix_cons a _))
            · exact .inr (by rw [hwhole])

omit [DecidableEq α] in
theorem FirstUpTo.unique {pat l part part' : List α} (h : FirstUpTo pat l part)
    (h' : FirstUpTo pat l part') : part = part' := by
  have hle : ∀ {p q : List α}, FirstUpTo pat l p → FirstUpTo pat l q → p.length ≤ q.length := by
    intro p q hp hq
    rcases hq.ends with hends | hwhole
    · exact hp.shortest q hq.isPrefix hends
    · rw [hwhole]
      exact hp.isPrefix.length_le
  have hlen := Nat.le_antisymm (hle h h') (hle h' h)
  exact (List.prefix_of_prefix_length_le h.isPrefix h'.isPrefix hlen.le).eq_of_length hlen

end CommonLib
