import Mathlib.Data.Nat.Init

/-! Repeating a partial step until it is stuck. A measure that every step decreases bounds
the number of repetitions, so the result does not depend on the fuel once there is enough. -/

namespace CommonLib

variable {σ : Type*} (next : σ → Option σ)

/-- Take at most the given number of steps, stopping when no step is possible. -/
def exhaust : ℕ → σ → σ
  | 0, s => s
  | fuel + 1, s =>
      match next s with
      | none => s
      | some s' => exhaust fuel s'

variable {next} {μ : σ → ℕ}

theorem exhaust_of_stuck {s : σ} (h : next s = none) (fuel : ℕ) : exhaust next fuel s = s := by
  cases fuel with
  | zero => rfl
  | succ fuel => simp [exhaust, h]

/-- With at least as much fuel as the measure allows steps, the result is stuck. -/
theorem next_exhaust (hμ : ∀ s s', next s = some s' → μ s' < μ s) {fuel : ℕ} {s : σ}
    (hfuel : μ s ≤ fuel) : next (exhaust next fuel s) = none := by
  induction fuel generalizing s with
  | zero =>
      cases h : next s with
      | none => exact h
      | some s' => exact absurd (hμ s s' h) (by omega)
  | succ fuel ih =>
      cases h : next s with
      | none => simp [exhaust, h]
      | some s' =>
          have hlt := hμ s s' h
          simpa [exhaust, h] using ih (s := s') (by omega)

/-- Two amounts of fuel that both cover the measure give the same result. -/
theorem exhaust_congr (hμ : ∀ s s', next s = some s' → μ s' < μ s) {fuel fuel' : ℕ} {s : σ}
    (hfuel : μ s ≤ fuel) (hfuel' : μ s ≤ fuel') :
    exhaust next fuel s = exhaust next fuel' s := by
  induction fuel generalizing s fuel' with
  | zero =>
      cases h : next s with
      | none => rw [exhaust_of_stuck h, exhaust_of_stuck h]
      | some s' => exact absurd (hμ s s' h) (by omega)
  | succ fuel ih =>
      cases h : next s with
      | none => rw [exhaust_of_stuck h, exhaust_of_stuck h]
      | some s' =>
          have hlt := hμ s s' h
          cases fuel' with
          | zero => omega
          | succ fuel' =>
              have hcongr : exhaust next fuel s' = exhaust next fuel' s' :=
                ih (by omega) (by omega)
              simpa [exhaust, h] using hcongr

/-- One step can be taken first. -/
theorem exhaust_step (hμ : ∀ s s', next s = some s' → μ s' < μ s) {s s' : σ}
    (h : next s = some s') : exhaust next (μ s) s = exhaust next (μ s') s' := by
  have hlt := hμ s s' h
  obtain ⟨fuel, hfuel⟩ : ∃ fuel, μ s = fuel + 1 := Nat.exists_eq_succ_of_ne_zero (by omega)
  have hunfold : exhaust next (μ s) s = exhaust next fuel s' := by
    rw [hfuel]
    simp [exhaust, h]
  rw [hunfold]
  exact exhaust_congr hμ (by omega) (Nat.le_refl _)

end CommonLib
