import Mathlib.Data.Nat.Notation
import Mathlib.Tactic.Common

/-! Programs over a store that may fail, with counting loops, and rules for what holds of their
results whatever the store contains. -/

namespace CommonLib

universe u v

/-- A program over a store of type `μ` that fails with an `ε`. -/
abbrev Program (μ : Type u) (ε : Type v) (α : Type u) := StateT μ (Except ε) α

/-- The turns of a counting loop from `i` on. -/
def iterate {m : Type u → Type v} [Monad m] {σ : Type u} (body : ℕ → σ → m σ) : ℕ → ℕ → σ → m σ
  | 0, _, s => pure s
  | count + 1, i, s => body i s >>= iterate body count (i + 1)

/-- `for (i = lo; i < hi; ++i)`; the variables that the body changes are `s`. -/
def forRange {m : Type u → Type v} [Monad m] {σ : Type u} (lo hi : ℕ) (s : σ)
    (body : ℕ → σ → m σ) : m σ :=
  iterate body (hi - lo) lo s

namespace Program

variable {μ α β σ : Type u} {ε : Type v}

/-- From every store the program returns, and what it returns has the property. -/
def Meets (x : Program μ ε α) (P : α → Prop) : Prop :=
  ∀ store, ∃ a store', x store = .ok (a, store') ∧ P a

/-- From every store the program returns `a`. -/
abbrev Returns (x : Program μ ε α) (a : α) : Prop :=
  Meets x (· = a)

/-- What the program returns, if it does, has the property. -/
def Ensures (x : Program μ ε α) (P : α → Prop) : Prop :=
  ∀ store a store', x store = .ok (a, store') → P a

/-- From every store the program fails with `e`. -/
def Fails (x : Program μ ε α) (e : ε) : Prop :=
  ∀ store, x store = .error e

/-! ### Returning -/

theorem Meets.pure {P : α → Prop} {a : α} (h : P a) : Meets (pure a : Program μ ε α) P :=
  fun store => ⟨a, store, rfl, h⟩

theorem Meets.imp {x : Program μ ε α} {P Q : α → Prop} (h : Meets x P) (hPQ : ∀ a, P a → Q a) :
    Meets x Q := by
  intro store
  obtain ⟨a, store', hx, ha⟩ := h store
  exact ⟨a, store', hx, hPQ a ha⟩

theorem Meets.bind {x : Program μ ε α} {f : α → Program μ ε β} {P : α → Prop} {Q : β → Prop}
    (hx : Meets x P) (hf : ∀ a, P a → Meets (f a) Q) : Meets (x >>= f) Q := by
  intro store
  obtain ⟨a, store', hxa, ha⟩ := hx store
  obtain ⟨b, store'', hfb, hb⟩ := hf a ha store'
  refine ⟨b, store'', ?_, hb⟩
  change (x store >>= fun p => f p.1 p.2) = _
  rw [hxa]
  exact hfb

/-- Going on with the one result that a program has. -/
theorem Meets.then {x : Program μ ε α} {f : α → Program μ ε β} {a : α} {Q : β → Prop}
    (hx : Returns x a) (hf : Meets (f a) Q) : Meets (x >>= f) Q :=
  hx.bind fun _ heq => heq ▸ hf

/-- A program has one outcome. -/
theorem Meets.ensures {x : Program μ ε α} {P : α → Prop} (h : Meets x P) : Ensures x P := by
  intro store a store' hx
  obtain ⟨b, store'', hxb, hb⟩ := h store
  rw [hx] at hxb
  cases hxb
  exact hb

theorem Meets.unique [Nonempty μ] {x : Program μ ε α} {a b : α} (ha : Returns x a)
    (hb : Returns x b) : a = b := by
  obtain ⟨store⟩ := ‹Nonempty μ›
  obtain ⟨c, store', hx, rfl⟩ := hb store
  exact (ha.ensures store c store' hx).symm

theorem Meets.ne_error {x : Program μ ε α} {P : α → Prop} (h : Meets x P) (store : μ) {e : ε} :
    x store ≠ .error e := by
  intro herror
  obtain ⟨a, store', hx, -⟩ := h store
  rw [herror] at hx
  cases hx

theorem Meets.not_fails {x : Program μ ε α} {P : α → Prop} {e : ε} [Nonempty μ] (h : Meets x P) :
    ¬ Fails x e := by
  intro hfails
  obtain ⟨store⟩ := ‹Nonempty μ›
  exact h.ne_error store (hfails store)

theorem Meets.turns {body : ℕ → σ → Program μ ε σ} {I : ℕ → σ → Prop} (count lo : ℕ) {s : σ}
    (h : I lo s)
    (hbody : ∀ i s, lo ≤ i → i < lo + count → I i s → Meets (body i s) (I (i + 1))) :
    Meets (iterate body count lo s) (I (lo + count)) := by
  induction count generalizing lo s with
  | zero => exact Meets.pure h
  | succ count ih =>
      refine (hbody lo s (Nat.le_refl _) (by omega) h).bind fun s' hs' => ?_
      have hrest := ih (lo + 1) hs' fun i s hlo hi => hbody i s (by omega) (by omega)
      rw [show lo + (count + 1) = lo + 1 + count by omega]
      exact hrest

/-- What holds in front of a loop and is carried from turn to turn holds behind it. -/
theorem Meets.range {body : ℕ → σ → Program μ ε σ} {I : ℕ → σ → Prop} {lo hi : ℕ} {s : σ}
    (hle : lo ≤ hi) (h : I lo s)
    (hbody : ∀ i s, lo ≤ i → i < hi → I i s → Meets (body i s) (I (i + 1))) :
    Meets (forRange lo hi s body) (I hi) := by
  have hloop := Meets.turns (hi - lo) lo h fun i s hlo hi' => hbody i s hlo (by omega)
  rwa [Nat.add_sub_cancel' hle] at hloop

/-- Each turn of the loop does its own part, from `U` to `D`, and leaves the others alone. -/
theorem Meets.range_each (body : ℕ → σ → Program μ ε σ) {J : σ → Prop} {U D : ℕ → σ → Prop}
    {lo hi : ℕ} {s : σ} (hle : lo ≤ hi) (hJ : J s) (hU : ∀ i, lo ≤ i → i < hi → U i s)
    (hbody : ∀ i s, lo ≤ i → i < hi → J s → U i s → Meets (body i s) fun s' =>
      J s' ∧ D i s' ∧ ∀ k, k ≠ i → (U k s → U k s') ∧ (D k s → D k s')) :
    Meets (forRange lo hi s body) fun s' => J s' ∧ ∀ i, lo ≤ i → i < hi → D i s' := by
  have hloop : Meets (forRange lo hi s body) fun s' => J s' ∧
      (∀ i, lo ≤ i → i < hi → D i s') ∧ ∀ i, hi ≤ i → i < hi → U i s' := by
    refine Meets.range (I := fun n s => J s ∧ (∀ i, lo ≤ i → i < n → D i s) ∧
      ∀ i, n ≤ i → i < hi → U i s) hle ⟨hJ, fun i hlo hi' => by omega, hU⟩ ?_
    rintro n s hlo hn ⟨hJ, hD, hU⟩
    refine (hbody n s hlo hn hJ (hU n (Nat.le_refl _) hn)).imp fun s' hs' => ?_
    obtain ⟨hJ', hDn, hkeep⟩ := hs'
    refine ⟨hJ', fun i hi hin => ?_, fun i hin hi => ?_⟩
    · by_cases heq : i = n
      · rw [heq]
        exact hDn
      · exact (hkeep i heq).2 (hD i hi (by omega))
    · exact (hkeep i (by omega)).1 (hU i (by omega) hi)
  exact hloop.imp fun s' hs' => ⟨hs'.1, hs'.2.1⟩

/-- The same for two loops, one inside the other. -/
theorem Meets.range_each₂ (body : ℕ → ℕ → σ → Program μ ε σ) {J : σ → Prop}
    {U D : ℕ → ℕ → σ → Prop} (rows cols : ℕ) {s : σ} (hJ : J s)
    (hU : ∀ r c, r < rows → c < cols → U r c s)
    (hbody : ∀ r c s, r < rows → c < cols → J s → U r c s → Meets (body r c s) fun s' =>
      J s' ∧ D r c s' ∧ ∀ r' c', (r', c') ≠ (r, c) → (U r' c' s → U r' c' s') ∧
        (D r' c' s → D r' c' s')) :
    Meets (forRange 0 rows s fun r s => forRange 0 cols s (body r)) fun s' =>
      J s' ∧ ∀ r c, r < rows → c < cols → D r c s' := by
  have hloop := Meets.range_each (fun r s => forRange 0 cols s (body r)) (J := J)
    (U := fun r s => ∀ c < cols, U r c s) (D := fun r s => ∀ c < cols, D r c s) (Nat.zero_le rows)
    hJ (fun r _ hr c hc => hU r c hr hc) ?_
  · exact hloop.imp fun s' hs' => ⟨hs'.1, fun r c hr hc => hs'.2 r (Nat.zero_le r) hr c hc⟩
  · intro r s _ hr hJ hUr
    -- the other rows are part of what the inner loop carries along
    have hinner := Meets.range_each (body r) (s := s)
      (J := fun s' => J s' ∧ ∀ r' c', r' ≠ r → (U r' c' s → U r' c' s') ∧ (D r' c' s → D r' c' s'))
      (U := fun c s => U r c s) (D := fun c s => D r c s) (Nat.zero_le cols)
      ⟨hJ, fun _ _ _ => ⟨id, id⟩⟩ (fun c _ hc => hUr c hc) ?_
    · refine hinner.imp fun s' hs' => ⟨hs'.1.1, fun c hc => hs'.2 c (Nat.zero_le c) hc, ?_⟩
      intro r' hr'
      exact ⟨fun h c hc => (hs'.1.2 r' c hr').1 (h c hc), fun h c hc => (hs'.1.2 r' c hr').2 (h c hc)⟩
    · rintro c t _ hc ⟨hJt, hothers⟩ hUc
      refine (hbody r c t hr hc hJt hUc).imp fun t' ht' => ?_
      obtain ⟨hJ', hD', hkeep⟩ := ht'
      refine ⟨⟨hJ', fun r' c' hr' => ?_⟩, hD', fun c' hc' => hkeep r c' (by simpa using hc')⟩
      have hne : (r', c') ≠ (r, c) := by simp [hr']
      exact ⟨fun h => (hkeep r' c' hne).1 ((hothers r' c' hr').1 h),
        fun h => (hkeep r' c' hne).2 ((hothers r' c' hr').2 h)⟩

/-! ### Where it returns -/

theorem Ensures.pure {P : α → Prop} {a : α} (h : P a) : Ensures (pure a : Program μ ε α) P := by
  intro store b store' hx
  cases hx
  exact h

theorem Ensures.throw {P : α → Prop} (e : ε) : Ensures (throw e : Program μ ε α) P := by
  intro store a store' hx
  cases hx

theorem Ensures.imp {x : Program μ ε α} {P Q : α → Prop} (h : Ensures x P)
    (hPQ : ∀ a, P a → Q a) : Ensures x Q :=
  fun store a store' hx => hPQ a (h store a store' hx)

theorem Ensures.trivial (x : Program μ ε α) : Ensures x fun _ => True :=
  fun _ _ _ _ => True.intro

theorem exists_of_bind {x : Program μ ε α} {f : α → Program μ ε β} {store store'' : μ} {b : β}
    (h : (x >>= f) store = .ok (b, store'')) :
    ∃ a store', x store = .ok (a, store') ∧ f a store' = .ok (b, store'') := by
  change (x store >>= fun p => f p.1 p.2) = _ at h
  cases hx : x store with
  | error e =>
      rw [hx] at h
      cases h
  | ok p =>
      rw [hx] at h
      exact ⟨p.1, p.2, rfl, h⟩

theorem Ensures.bind {x : Program μ ε α} {f : α → Program μ ε β} {P : α → Prop} {Q : β → Prop}
    (hx : Ensures x P) (hf : ∀ a, P a → Ensures (f a) Q) : Ensures (x >>= f) Q := by
  intro store b store'' h
  obtain ⟨a, store', hxa, hfb⟩ := exists_of_bind h
  exact hf a (hx store a store' hxa) store' b store'' hfb

theorem Ensures.of_returns [Nonempty μ] {x : Program μ ε α} {P : α → Prop} {a : α}
    (h : Ensures x P) (hx : Returns x a) : P a := by
  obtain ⟨store⟩ := ‹Nonempty μ›
  obtain ⟨b, store', hxb, rfl⟩ := hx store
  exact h store b store' hxb

theorem Ensures.turns {body : ℕ → σ → Program μ ε σ} {J : σ → Prop} (count lo : ℕ) {s : σ}
    (h : J s) (hbody : ∀ i s, J s → Ensures (body i s) J) :
    Ensures (iterate body count lo s) J := by
  induction count generalizing lo s with
  | zero => exact Ensures.pure h
  | succ count ih => exact (hbody lo s h).bind fun s' hs' => ih (lo + 1) hs'

theorem Ensures.range {body : ℕ → σ → Program μ ε σ} {J : σ → Prop} {lo hi : ℕ} {s : σ}
    (h : J s) (hbody : ∀ i s, J s → Ensures (body i s) J) :
    Ensures (forRange lo hi s body) J :=
  Ensures.turns (hi - lo) lo h hbody

/-- A loop whose first turn does not return does not return. -/
theorem Ensures.range_never {body : ℕ → σ → Program μ ε σ} {Q : σ → Prop} {lo hi : ℕ} {s : σ}
    (hlt : lo < hi) (hfirst : Ensures (body lo s) fun _ => False) :
    Ensures (forRange lo hi s body) Q := by
  obtain ⟨count, hcount⟩ : ∃ count, hi - lo = count + 1 := Nat.exists_eq_succ_of_ne_zero (by omega)
  rw [forRange, hcount, iterate]
  exact hfirst.bind fun _ hnever => hnever.elim

/-! ### Failing -/

theorem Fails.throw (e : ε) : Fails (throw e : Program μ ε α) e :=
  fun _ => rfl

theorem Fails.ensures {x : Program μ ε α} {P : α → Prop} {e : ε} (h : Fails x e) :
    Ensures x P := by
  intro store a store' hx
  rw [h store] at hx
  cases hx

theorem Meets.bind_fails {x : Program μ ε α} {f : α → Program μ ε β} {P : α → Prop} {e : ε}
    (hx : Meets x P) (hf : ∀ a, P a → Fails (f a) e) : Fails (x >>= f) e := by
  intro store
  obtain ⟨a, store', hxa, ha⟩ := hx store
  change (x store >>= fun p => f p.1 p.2) = _
  rw [hxa]
  exact hf a ha store'

end Program

end CommonLib
