import CommonLib.Model.SingletonRegistry
import Mathlib.Tactic.Common

/-! # One instance for each type

An entry is inserted under the lock, before it has an instance; from then on its flag decides who may
run a factory for it, and the call that has set it to running is the only one to write to it. -/

namespace CommonLib.Singletons.SingletonRegistry

variable {ι τ ω : Type*}

/-! ## The steps -/

section Step

variable [DecidableEq ι] [DecidableEq τ]

inductive Step (s : SingletonRegistry ι τ ω) : Action ι τ ω → SingletonRegistry ι τ ω → Prop
  | get (i : ι) (type : τ) (hi : s.phase i = .idle) :
      Step s (.get i type) (s.setPhase i (.locking type))
  | lock (i : ι) (type : τ) (hi : s.phase i = .locking type) (hmutex : s.mutex = none) :
      Step s (.step i) ({ s with mutex := some i }.setPhase i (.finding type))
  | miss (i : ι) (type : τ) (hi : s.phase i = .finding type) (hnone : s.registry type = none) :
      Step s (.step i) (s.setPhase i (.inserting type))
  | find (i : ι) (type : τ) (e : ℕ) (hi : s.phase i = .finding type)
      (he : s.registry type = some e) : Step s (.step i) (s.setPhase i (.unlocking type e))
  | insert (i : ι) (type : τ) (hi : s.phase i = .inserting type) :
      Step s (.step i) ((s.insert type).setPhase i (.unlocking type s.entries))
  | unlock (i : ι) (type : τ) (e : ℕ) (hi : s.phase i = .unlocking type e) :
      Step s (.step i) ({ s with mutex := none }.setPhase i (.calling type e))
  | begin (i : ι) (type : τ) (e : ℕ) (hi : s.phase i = .calling type e)
      (hflag : (s.entry e).flag = .idle) :
      Step s (.step i) ((s.setFlag e (.running i)).setPhase i (.running type e))
  | skip (i : ι) (type : τ) (e : ℕ) (hi : s.phase i = .calling type e)
      (hflag : (s.entry e).flag = .done) : Step s (.step i) (s.setPhase i (.returning type e))
  | makes (i : ι) (type : τ) (e : ℕ) (object : ω) (hi : s.phase i = .running type e) :
      Step s (.factory i (some object))
        ({ s with made := Function.update s.made type (s.made type ++ [object]) }.setPhase i
          (.assigning type e object))
  | throws (i : ι) (type : τ) (e : ℕ) (hi : s.phase i = .running type e) :
      Step s (.factory i none) ((s.setFlag e .idle).setPhase i .idle)
  | assign (i : ι) (type : τ) (e : ℕ) (object : ω) (hi : s.phase i = .assigning type e object) :
      Step s (.step i) ((s.setInstance e object).setPhase i (.marking type e))
  | mark (i : ι) (type : τ) (e : ℕ) (hi : s.phase i = .marking type e) :
      Step s (.step i) ((s.setFlag e .done).setPhase i (.returning type e))
  | answer (i : ι) (type : τ) (e : ℕ) (hi : s.phase i = .returning type e) :
      Step s (.step i)
        ({ s with returned := s.returned ++ [(type, (s.entry e).instance?)] }.setPhase i .idle)

theorem stepCall_cases {s s' : SingletonRegistry ι τ ω} {i : ι} (h : s.stepCall i = some s') :
    Step s (.step i) s' := by
  unfold stepCall at h
  split at h
  · cases h
  · cases h
  · next type hi =>
      split at h
      · next hmutex =>
          cases h
          exact .lock i type hi hmutex
      · cases h
  · next type hi =>
      split at h
      · next hnone =>
          cases h
          exact .miss i type hi hnone
      · next e he =>
          cases h
          exact .find i type e hi he
  · next type hi =>
      cases h
      exact .insert i type hi
  · next type e hi =>
      cases h
      exact .unlock i type e hi
  · next type e hi =>
      split at h
      · next hflag =>
          cases h
          exact .begin i type e hi hflag
      · cases h
      · next hflag =>
          cases h
          exact .skip i type e hi hflag
  · next type e object hi =>
      cases h
      exact .assign i type e object hi
  · next type e hi =>
      cases h
      exact .mark i type e hi
  · next type e hi =>
      cases h
      exact .answer i type e hi

theorem step_cases {s s' : SingletonRegistry ι τ ω} {a : Action ι τ ω} (h : s.step a = some s') :
    Step s a s' := by
  cases a with
  | get i type =>
      simp only [step] at h
      split at h
      · next hi =>
          cases h
          exact .get i type hi
      · cases h
  | step i => exact stepCall_cases h
  | factory i result =>
      simp only [step] at h
      split at h
      · next type e object hi =>
          cases h
          exact .makes i type e object hi
      · next type e hi =>
          cases h
          exact .throws i type e hi
      · cases h

end Step

/-! ## The invariant -/

/-- What a call in the given phase relies on. -/
def Relies (s : SingletonRegistry ι τ ω) (i : ι) : Phase τ ω → Prop
  | .idle | .locking _ => True
  | .finding _ => s.mutex = some i
  | .inserting type => s.mutex = some i ∧ s.registry type = none
  | .unlocking type e => s.mutex = some i ∧ s.registry type = some e
  | .calling type e => s.registry type = some e
  | .running type e => s.registry type = some e ∧ (s.entry e).flag = .running i ∧
      (s.entry e).instance? = none ∧ s.made type = []
  | .assigning type e object => s.registry type = some e ∧ (s.entry e).flag = .running i ∧
      (s.entry e).instance? = none ∧ s.made type = [object]
  | .marking type e => s.registry type = some e ∧ (s.entry e).flag = .running i ∧
      ∃ object, (s.entry e).instance? = some object ∧ s.made type = [object]
  | .returning type e => s.registry type = some e ∧ (s.entry e).flag = .done

/-- The entry at which a call is, with the type that it is for. -/
def Phase.target? : Phase τ ω → Option (τ × ℕ)
  | .idle | .locking _ | .finding _ | .inserting _ => none
  | .unlocking type e | .calling type e | .running type e | .assigning type e _ | .marking type e
  | .returning type e => some (type, e)

theorem Relies.registry {s : SingletonRegistry ι τ ω} {i : ι} {phase : Phase τ ω} {type : τ} {e : ℕ}
    (h : s.Relies i phase) (he : phase.target? = some (type, e)) : s.registry type = some e := by
  cases phase with
  | idle | locking type' | finding type' | inserting type' => cases he
  | unlocking type' e' =>
      cases he
      exact h.2
  | calling type' e' =>
      cases he
      exact h
  | running type' e' | assigning type' e' object | marking type' e' | returning type' e' =>
      cases he
      exact h.1

/-- What an entry with the given flag holds, when the factory runs for its type have made `made`. -/
def Entered (instance? : Option ω) (made : List ω) : OnceFlag ι → Prop
  | .idle => instance? = none ∧ made = []
  | .running _ => made.length ≤ 1
  | .done => ∃ object, instance? = some object ∧ made = [object]

structure Shared (s : SingletonRegistry ι τ ω) : Prop where
  absent : ∀ type, s.registry type = none → s.made type = []
  bound : ∀ type e, s.registry type = some e → e < s.entries
  entered : ∀ type e, s.registry type = some e →
    Entered (s.entry e).instance? (s.made type) (s.entry e).flag
  injective : ∀ type type' e, s.registry type = some e → s.registry type' = some e → type = type'
  returned : ∀ call ∈ s.returned, ∃ object, call.2 = some object ∧ s.made call.1 = [object]

structure Consistent (s : SingletonRegistry ι τ ω) : Prop extends s.Shared where
  relies : ∀ i, s.Relies i (s.phase i)

theorem Consistent.relies_of {s : SingletonRegistry ι τ ω} {i : ι} {phase : Phase τ ω}
    (h : s.Consistent) (hi : s.phase i = phase) : s.Relies i phase :=
  hi ▸ h.relies i

theorem Shared.length_made {s : SingletonRegistry ι τ ω} (h : s.Shared) (type : τ) :
    (s.made type).length ≤ 1 := by
  cases he : s.registry type with
  | none => simp [h.absent type he]
  | some e =>
      have hentered := h.entered type e he
      cases hflag : (s.entry e).flag with
      | idle =>
          rw [hflag] at hentered
          simp [hentered.2]
      | running i =>
          rw [hflag] at hentered
          exact hentered
      | done =>
          rw [hflag] at hentered
          obtain ⟨object, -, hmade⟩ := hentered
          simp [hmade]

theorem consistent_init : (init : SingletonRegistry ι τ ω).Consistent where
  relies _ := trivial
  absent _ _ := rfl
  bound _ _ he := by cases he
  entered _ _ he := by cases he
  injective _ _ _ he := by cases he
  returned _ hcall := by cases hcall

/-- A call does not notice what happens to locks and entries that are not its own. -/
theorem Relies.frame {s s' : SingletonRegistry ι τ ω} {i : ι} {phase : Phase τ ω}
    (h : s.Relies i phase) (hmutex : s.mutex = some i → s'.mutex = some i)
    (hnone : ∀ type, s.mutex = some i → s.registry type = none → s'.registry type = none)
    (hsome : ∀ type e, s.registry type = some e → s'.registry type = some e)
    (hentry : ∀ type e, s.registry type = some e →
      (s.entry e).flag = .running i ∨ (s.entry e).flag = .done →
        s'.entry e = s.entry e ∧ s'.made type = s.made type) : s'.Relies i phase := by
  cases phase with
  | idle | locking type => trivial
  | finding type => exact hmutex h
  | inserting type => exact ⟨hmutex h.1, hnone type h.1 h.2⟩
  | unlocking type e => exact ⟨hmutex h.1, hsome type e h.2⟩
  | calling type e => exact hsome type e h
  | running type e | assigning type e object | marking type e =>
      obtain ⟨he, hflag, hinstance⟩ := h
      obtain ⟨hentry', hmade⟩ := hentry type e he (.inl hflag)
      rw [Relies, hentry', hmade]
      exact ⟨hsome type e he, hflag, hinstance⟩
  | returning type e =>
      obtain ⟨he, hflag⟩ := h
      rw [Relies, (hentry type e he (.inr hflag)).1]
      exact ⟨hsome type e he, hflag⟩

/-! ## Changes of the registry -/

/-- A call moves on. -/
theorem Shared.setPhase [DecidableEq ι] {s : SingletonRegistry ι τ ω} (h : s.Shared) (i : ι)
    (phase : Phase τ ω) : (s.setPhase i phase).Shared :=
  ⟨h.absent, h.bound, h.entered, h.injective, h.returned⟩

section Insert

variable [DecidableEq τ] {s : SingletonRegistry ι τ ω} {type type' : τ} {e : ℕ}

theorem registry_insert_self : (s.insert type).registry type = some s.entries :=
  Function.update_self _ _ _

theorem registry_insert_of_ne (hne : type' ≠ type) :
    (s.insert type).registry type' = s.registry type' :=
  Function.update_of_ne hne _ _

theorem entry_insert_of_lt (he : e < s.entries) : (s.insert type).entry e = s.entry e :=
  Function.update_of_ne (Nat.ne_of_lt he) _ _

/-- The types behind an insertion: the new one, with the new entry, and the old ones. -/
theorem registry_insert_cases (he : (s.insert type).registry type' = some e) :
    type' = type ∧ e = s.entries ∨ type' ≠ type ∧ s.registry type' = some e := by
  by_cases hne : type' = type
  · subst hne
    rw [registry_insert_self] at he
    exact .inl ⟨rfl, (Option.some.inj he).symm⟩
  · rw [registry_insert_of_ne hne] at he
    exact .inr ⟨hne, he⟩

theorem Shared.insert (h : s.Shared) (hnone : s.registry type = none) : (s.insert type).Shared where
  absent := by
    intro type' hnone'
    by_cases hne : type' = type
    · rw [hne, registry_insert_self] at hnone'
      cases hnone'
    · rw [registry_insert_of_ne hne] at hnone'
      exact h.absent type' hnone'
  bound := by
    intro type' e he
    rcases registry_insert_cases he with ⟨-, rfl⟩ | ⟨-, he⟩
    · exact Nat.lt_succ_self _
    · exact Nat.lt_succ_of_lt (h.bound type' e he)
  entered := by
    intro type' e he
    rcases registry_insert_cases he with ⟨rfl, rfl⟩ | ⟨-, he⟩
    · have hentry : (s.insert type').entry s.entries = ⟨.idle, none⟩ := Function.update_self _ _ _
      rw [hentry]
      exact ⟨rfl, h.absent type' hnone⟩
    · rw [entry_insert_of_lt (h.bound type' e he)]
      exact h.entered type' e he
  injective := by
    intro type₁ type₂ e h₁ h₂
    rcases registry_insert_cases h₁ with ⟨htype₁, he₁⟩ | ⟨-, h₁⟩ <;>
      rcases registry_insert_cases h₂ with ⟨htype₂, he₂⟩ | ⟨-, h₂⟩
    · exact htype₁.trans htype₂.symm
    · rw [he₁] at h₂
      exact absurd (h.bound type₂ _ h₂) (Nat.lt_irrefl _)
    · rw [he₂] at h₁
      exact absurd (h.bound type₁ _ h₁) (Nat.lt_irrefl _)
    · exact h.injective type₁ type₂ e h₁ h₂
  returned := h.returned

theorem Relies.insert {i j : ι} {phase : Phase τ ω} (h : s.Relies j phase) (hshared : s.Shared)
    (hmutex : s.mutex = some i) (hj : j ≠ i) (hnone : s.registry type = none) :
    (s.insert type).Relies j phase := by
  refine h.frame (fun hmutex' => hmutex') ?_ ?_ ?_
  · intro _ hmutex'
    rw [hmutex] at hmutex'
    exact absurd (Option.some.inj hmutex').symm hj
  · intro type' e he
    have hne : type' ≠ type := by
      rintro rfl
      rw [hnone] at he
      cases he
    rw [registry_insert_of_ne hne]
    exact he
  · intro type' e he _
    exact ⟨entry_insert_of_lt (hshared.bound type' e he), rfl⟩

end Insert

section Touch

variable [DecidableEq τ] {s : SingletonRegistry ι τ ω} {type : τ} {e : ℕ}

/-- The entry of a type is written to, or a factory for it succeeds. -/
def touch (s : SingletonRegistry ι τ ω) (type : τ) (e : ℕ) (entry : RegistryEntry ι ω)
    (made : List ω) : SingletonRegistry ι τ ω :=
  { s with entry := Function.update s.entry e entry, made := Function.update s.made type made }

theorem setFlag_eq_touch (type : τ) (flag : OnceFlag ι) :
    s.setFlag e flag = s.touch type e { s.entry e with flag := flag } (s.made type) := by
  simp [setFlag, touch]

theorem setInstance_eq_touch (type : τ) (object : ω) :
    s.setInstance e object =
      s.touch type e { s.entry e with instance? := some object } (s.made type) := by
  simp [setInstance, touch]

theorem made_eq_touch (e : ℕ) (made : List ω) :
    { s with made := Function.update s.made type made } = s.touch type e (s.entry e) made := by
  simp [touch]

variable {entry : RegistryEntry ι ω} {made : List ω}

@[simp] theorem entry_touch_self : (s.touch type e entry made).entry e = entry :=
  Function.update_self _ _ _

@[simp] theorem made_touch_self : (s.touch type e entry made).made type = made :=
  Function.update_self _ _ _

/-- Other types keep their entries and what was made for them. -/
theorem touch_other (entry : RegistryEntry ι ω) (made : List ω) (h : s.Shared)
    (he : s.registry type = some e) {type' : τ} {e' : ℕ} (he' : s.registry type' = some e')
    (hne : type' ≠ type) :
    (s.touch type e entry made).entry e' = s.entry e' ∧
      (s.touch type e entry made).made type' = s.made type' := by
  refine ⟨Function.update_of_ne ?_ _ _, Function.update_of_ne hne _ _⟩
  rintro rfl
  exact hne (h.injective _ _ _ he' he)

theorem Shared.touch (h : s.Shared) (he : s.registry type = some e)
    (hmade : made = s.made type ∨ s.made type = [])
    (hentered : Entered entry.instance? made entry.flag) : (s.touch type e entry made).Shared where
  absent := by
    intro type' hnone
    have hne : type' ≠ type := by
      rintro rfl
      cases hnone.symm.trans he
    exact (Function.update_of_ne hne _ _).trans (h.absent type' hnone)
  bound := h.bound
  entered := by
    intro type' e' he'
    by_cases hne : type' = type
    · subst hne
      cases he'.symm.trans he
      simpa using hentered
    · obtain ⟨hentry, hmade'⟩ := touch_other entry made h he he' hne
      rw [hentry, hmade']
      exact h.entered type' e' he'
  injective := h.injective
  returned := by
    intro call hcall
    obtain ⟨object, hobject, hold⟩ := h.returned call hcall
    refine ⟨object, hobject, ?_⟩
    by_cases hne : call.1 = type
    · subst hne
      rcases hmade with rfl | hempty
      · simpa using hold
      · rw [hempty] at hold
        cases hold
    · exact (Function.update_of_ne hne _ _).trans hold

/-- An entry is touched by the call that has set its flag to running, or is about to. -/
theorem Relies.touch {i j : ι} {phase : Phase τ ω} (h : s.Relies j phase) (hshared : s.Shared)
    (he : s.registry type = some e)
    (hflag : (s.entry e).flag = .idle ∨ (s.entry e).flag = .running i) (hj : j ≠ i) :
    (s.touch type e entry made).Relies j phase := by
  refine h.frame (fun hmutex => hmutex) (fun _ _ hnone => hnone) (fun _ _ he => he) ?_
  intro type' e' he' hflag'
  apply touch_other entry made hshared he he'
  rintro rfl
  cases he.symm.trans he'
  rcases hflag with hflag | hflag <;> rcases hflag' with hflag' | hflag' <;>
    cases hflag.symm.trans hflag'
  exact hj rfl

end Touch

/-! ## All runs -/

section Runs

variable [DecidableEq ι] {s s' : SingletonRegistry ι τ ω} {i : ι}

/-- What holds of the shared data and of all the other threads is left to hold of this one. -/
theorem Shared.consistent {phase : Phase τ ω} (h : s.Shared) (hphase : s.Relies i phase)
    (hothers : ∀ j, j ≠ i → s.Relies j (s.phase j)) : (s.setPhase i phase).Consistent where
  toShared := h.setPhase i phase
  relies := (Function.forall_update_iff s.phase s.Relies).mpr ⟨hphase, hothers⟩

theorem Consistent.setPhase {phase : Phase τ ω} (h : s.Consistent) (hphase : s.Relies i phase) :
    (s.setPhase i phase).Consistent :=
  h.toShared.consistent hphase fun j _ => h.relies j

/-- The lock is taken from nobody else. -/
theorem Consistent.setMutex {phase : Phase τ ω} {mutex : Option ι} (h : s.Consistent)
    (hothers : ∀ j, j ≠ i → s.mutex ≠ some j) (hphase : { s with mutex := mutex }.Relies i phase) :
    ({ s with mutex := mutex }.setPhase i phase).Consistent := by
  have hshared : { s with mutex := mutex }.Shared :=
    ⟨h.absent, h.bound, h.entered, h.injective, h.returned⟩
  apply hshared.consistent hphase
  intro j hj
  exact (h.relies j).frame (fun hmutex => absurd hmutex (hothers j hj)) (fun _ _ hnone => hnone)
    (fun _ _ he => he) fun _ _ _ _ => ⟨rfl, rfl⟩

variable [DecidableEq τ]

theorem Consistent.touch {type : τ} {e : ℕ} {entry : RegistryEntry ι ω} {made : List ω}
    {phase : Phase τ ω} (h : s.Consistent) (he : s.registry type = some e)
    (hflag : (s.entry e).flag = .idle ∨ (s.entry e).flag = .running i)
    (hmade : made = s.made type ∨ s.made type = [])
    (hphase : (s.touch type e entry made).Relies i phase)
    (hentered : Entered entry.instance? made entry.flag) :
    ((s.touch type e entry made).setPhase i phase).Consistent :=
  (h.toShared.touch he hmade hentered).consistent hphase
    fun j hj => (h.relies j).touch h.toShared he hflag hj

theorem Consistent.step {a : Action ι τ ω} (h : s.Consistent) (hstep : Step s a s') :
    s'.Consistent := by
  cases hstep with
  | get i type hi => exact h.setPhase trivial
  | lock i type hi hmutex =>
      apply h.setMutex
      · intro j _ hj
        cases hmutex.symm.trans hj
      · exact rfl
  | miss i type hi hnone =>
      have hrelies := h.relies_of hi
      exact h.setPhase ⟨hrelies, hnone⟩
  | find i type e hi he =>
      have hrelies := h.relies_of hi
      exact h.setPhase ⟨hrelies, he⟩
  | insert i type hi =>
      obtain ⟨hmutex, hnone⟩ := h.relies_of hi
      apply (h.toShared.insert hnone).consistent
      · exact ⟨hmutex, registry_insert_self⟩
      · exact fun j hj => (h.relies j).insert h.toShared hmutex hj hnone
  | unlock i type e hi =>
      have hrelies := h.relies_of hi
      apply h.setMutex
      · intro j hj hmutex
        exact hj (Option.some.inj (hmutex.symm.trans hrelies.1))
      · exact hrelies.2
  | begin i type e hi hflag =>
      have he := h.relies_of hi
      have hentered := h.entered type e he
      rw [hflag] at hentered
      rw [setFlag_eq_touch type]
      apply h.touch he (.inl hflag) (.inl rfl)
      · simpa [Relies] using ⟨he, hentered⟩
      · simp [Entered, hentered.2]
  | skip i type e hi hflag =>
      have he := h.relies_of hi
      exact h.setPhase ⟨he, hflag⟩
  | makes i type e object hi =>
      obtain ⟨he, hflag, hinstance, hmade⟩ := h.relies_of hi
      rw [made_eq_touch e]
      apply h.touch he (.inr hflag) (.inr hmade)
      · simpa [Relies, hmade] using ⟨he, hflag, hinstance⟩
      · simp [Entered, hflag, hmade]
  | throws i type e hi =>
      obtain ⟨he, hflag, hinstance, hmade⟩ := h.relies_of hi
      rw [setFlag_eq_touch type]
      apply h.touch he (.inr hflag) (.inl rfl)
      · trivial
      · exact ⟨hinstance, hmade⟩
  | assign i type e object hi =>
      obtain ⟨he, hflag, hinstance, hmade⟩ := h.relies_of hi
      rw [setInstance_eq_touch type]
      apply h.touch he (.inr hflag) (.inl rfl)
      · simpa [Relies, hmade] using ⟨he, hflag⟩
      · simp [Entered, hflag, hmade]
  | mark i type e hi =>
      obtain ⟨he, hflag, hmade⟩ := h.relies_of hi
      rw [setFlag_eq_touch type]
      apply h.touch he (.inr hflag) (.inl rfl)
      · exact ⟨he, by simp⟩
      · exact hmade
  | answer i type e hi =>
      obtain ⟨he, hflag⟩ := h.relies_of hi
      have hentered := h.entered type e he
      rw [hflag] at hentered
      refine Shared.consistent ⟨h.absent, h.bound, h.entered, h.injective, fun call hcall => ?_⟩
        trivial fun j _ => h.relies j
      rcases List.mem_append.mp hcall with hold | hnew
      · exact h.returned call hold
      · rw [List.mem_singleton.mp hnew]
        exact hentered

theorem Reachable.consistent (h : (machine ι τ ω).Reachable s) : s.Consistent :=
  h.invariant consistent_init fun _ _ _ hs _ hstep => hs.step (step_cases hstep)

/-- At most one factory run for a type succeeds; every call that returns for it returns what that run
has made; and calls for different types are never at the same entry. -/
theorem instance_per_type (h : (machine ι τ ω).Reachable s) :
    (∀ type, (s.made type).length ≤ 1) ∧
    (∀ call ∈ s.returned, ∃ object, call.2 = some object ∧ s.made call.1 = [object]) ∧
    ∀ i j type type' e, (s.phase i).target? = some (type, e) →
      (s.phase j).target? = some (type', e) → type = type' := by
  have hconsistent := Reachable.consistent h
  refine ⟨hconsistent.length_made, hconsistent.returned, ?_⟩
  intro i j type type' e hi hj
  exact hconsistent.injective type type' e ((hconsistent.relies i).registry hi)
    ((hconsistent.relies j).registry hj)

/-- A factory throws while another call waits; that call tries again and succeeds. -/
theorem instance_per_type_retried :
    ∃ s : SingletonRegistry Bool Bool ℕ, (machine Bool Bool ℕ).run init
        [.get false true, .step false, .step false, .step false, .step false, .step false,
          .get true true, .step true, .step true, .step true, .factory false none, .step true,
          .factory true (some 7), .step true, .step true, .step true] = some s ∧
      s.returned = [(true, some 7)] ∧ (s.made true).length ≤ 1 := by
  have hreturned : ((machine Bool Bool ℕ).run init
      [.get false true, .step false, .step false, .step false, .step false, .step false,
        .get true true, .step true, .step true, .step true, .factory false none, .step true,
        .factory true (some 7), .step true, .step true, .step true]).map returned =
      some [(true, some 7)] := rfl
  obtain ⟨s, hrun, hs⟩ := Option.map_eq_some_iff.mp hreturned
  exact ⟨s, hrun, hs, (instance_per_type (Machine.reachable_of_run hrun)).1 true⟩

end Runs

end CommonLib.Singletons.SingletonRegistry
