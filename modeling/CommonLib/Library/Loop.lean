import Mathlib.Data.Nat.Notation
import Mathlib.Tactic.Common

/-! Loops without a condition, which are left only from inside their body. -/

namespace CommonLib

variable {σ ρ : Type*}

/-- How one turn of a loop ends. -/
inductive Turn (σ ρ : Type*)
  | again (s : σ)
  | done (r : ρ)

/-- `while (true)`, for as many turns as there is fuel. -/
def whileTrue (body : σ → Turn σ ρ) : ℕ → σ → Option ρ
  | 0, _ => none
  | fuel + 1, s =>
      match body s with
      | .again s' => whileTrue body fuel s'
      | .done r => some r

/-- The loop comes to an end, with the result `r`. -/
inductive Ends (body : σ → Turn σ ρ) : σ → ρ → Prop
  | done {s : σ} {r : ρ} : body s = .done r → Ends body s r
  | again {s s' : σ} {r : ρ} : body s = .again s' → Ends body s' r → Ends body s r

variable {body : σ → Turn σ ρ} {s s' : σ} {r r' : ρ}

theorem Ends.execution (h : Ends body s r) : ∃ fuel, whileTrue body fuel s = some r := by
  induction h with
  | done hs =>
      refine ⟨1, ?_⟩
      rw [whileTrue, hs]
  | again hs _ ih =>
      obtain ⟨fuel, hfuel⟩ := ih
      refine ⟨fuel + 1, ?_⟩
      rw [whileTrue, hs]
      exact hfuel

theorem ends_of_whileTrue {fuel : ℕ} (h : whileTrue body fuel s = some r) : Ends body s r := by
  induction fuel generalizing s with
  | zero => cases h
  | succ fuel ih =>
      rw [whileTrue] at h
      cases hs : body s with
      | again s' =>
          rw [hs] at h
          exact .again hs (ih h)
      | done r' =>
          rw [hs] at h
          cases h
          exact .done hs

/-- A loop ends exactly if some amount of fuel is enough for it. -/
theorem ends_iff : Ends body s r ↔ ∃ fuel, whileTrue body fuel s = some r :=
  ⟨Ends.execution, fun ⟨_, h⟩ => ends_of_whileTrue h⟩

theorem ends_of_done (hs : body s = .done r') : Ends body s r ↔ r = r' := by
  constructor
  · intro h
    cases h with
    | done hs' =>
        cases hs.symm.trans hs'
        rfl
    | again hs' => cases hs.symm.trans hs'
  · rintro rfl
    exact .done hs

theorem ends_of_again (hs : body s = .again s') : Ends body s r ↔ Ends body s' r := by
  constructor
  · intro h
    cases h with
    | done hs' => cases hs.symm.trans hs'
    | again hs' hrest =>
        cases hs.symm.trans hs'
        exact hrest
  · exact .again hs

theorem Ends.unique (h : Ends body s r) (h' : Ends body s r') : r = r' := by
  induction h with
  | done hs => exact ((ends_of_done hs).mp h').symm
  | again hs _ ih => exact ih ((ends_of_again hs).mp h')

/-- What holds in front of a loop and is carried from turn to turn gives what holds behind it. -/
theorem Ends.invariant {I : σ → Prop} {Q : ρ → Prop} (h : Ends body s r)
    (hagain : ∀ s s', I s → body s = .again s' → I s')
    (hdone : ∀ s r, I s → body s = .done r → Q r) (hI : I s) : Q r := by
  induction h with
  | done hs => exact hdone _ _ hI hs
  | again hs _ ih => exact ih (hagain _ _ hI hs)

/-- A loop that always takes another turn does not end. -/
theorem not_ends_of_again {I : σ → Prop} (hI : I s)
    (hagain : ∀ s, I s → ∃ s', body s = .again s' ∧ I s') : ¬ Ends body s r := by
  intro h
  induction h with
  | done hs =>
      obtain ⟨s', hs', -⟩ := hagain _ hI
      cases hs.symm.trans hs'
  | again hs _ ih =>
      obtain ⟨s', hs', hI'⟩ := hagain _ hI
      cases hs.symm.trans hs'
      exact ih hI'

end CommonLib
