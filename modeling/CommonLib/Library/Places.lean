import Mathlib.Algebra.BigOperators.Group.Finset.Basic
import Mathlib.Algebra.Order.BigOperators.Group.Finset
import Mathlib.Algebra.Order.Group.Multiset

/-! Finitely many places that hold items. What moves from one place to another does not change
the sum over all places; and where that sum is without repetition, each item is in one place. -/

namespace CommonLib

open Finset

variable {κ τ : Type*} [Fintype κ] [DecidableEq κ] {content content' : κ → Multiset τ}

theorem sum_add_of_eq_off {k : κ} {x : τ} (hk : content' k = x ::ₘ content k)
    (hrest : ∀ j, j ≠ k → content' j = content j) :
    ∑ j, content' j = x ::ₘ ∑ j, content j := by
  rw [← add_sum_erase univ content' (mem_univ k), ← add_sum_erase univ content (mem_univ k), hk,
    Multiset.cons_add]
  congr 2
  exact sum_congr rfl fun j hj => hrest j (ne_of_mem_erase hj)

/-- One item moves from place `a` to place `b`. -/
theorem sum_move {a b : κ} (hab : a ≠ b) {x : τ} (ha : content a = x ::ₘ content' a)
    (hb : content' b = x ::ₘ content b) (hrest : ∀ j, j ≠ a → j ≠ b → content' j = content j) :
    ∑ j, content' j = ∑ j, content j := by
  have hfrom : ∑ j, content j = x ::ₘ ∑ j, Function.update content a (content' a) j := by
    refine sum_add_of_eq_off (k := a) (by simpa using ha) fun j hj => ?_
    rw [Function.update_of_ne hj]
  have hto : ∑ j, content' j = x ::ₘ ∑ j, Function.update content a (content' a) j := by
    refine sum_add_of_eq_off (k := b) (by rw [Function.update_of_ne hab.symm, hb]) fun j hj => ?_
    by_cases hja : j = a
    · rw [hja, Function.update_self]
    · rw [Function.update_of_ne hja]
      exact hrest j hja hj
  rw [hfrom, hto]

/-- Without repetition over all places, an item is in at most one place. -/
theorem eq_of_mem_of_nodup (hnodup : (∑ j, content j).Nodup) {x : τ} {a b : κ}
    (ha : x ∈ content a) (hb : x ∈ content b) : a = b := by
  by_contra hab
  rw [← add_sum_erase univ content (mem_univ a), Multiset.nodup_add] at hnodup
  apply Multiset.disjoint_left.mp hnodup.2.2 ha
  rw [Multiset.mem_sum]
  exact ⟨b, mem_erase.mpr ⟨Ne.symm hab, mem_univ b⟩, hb⟩

theorem existsUnique_place (hnodup : (∑ j, content j).Nodup) {x : τ} (hx : x ∈ ∑ j, content j) :
    ∃! k, x ∈ content k := by
  obtain ⟨k, -, hk⟩ := Multiset.mem_sum.mp hx
  exact ⟨k, hk, fun j hj => eq_of_mem_of_nodup hnodup hj hk⟩

end CommonLib
