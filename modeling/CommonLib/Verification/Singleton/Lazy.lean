import CommonLib.Model.LazySingleton
import Mathlib.Data.Fintype.Basic
import Mathlib.Tactic.Common

/-! # One instance or several

The null test and the assignment are two steps. One instance is all there is as long as nobody finds
the pointer empty while somebody else is on the way to its assignment. -/

namespace CommonLib.Singletons.LazySingleton

variable {ι : Type*}

/-- Neither constructing nor about to assign. -/
def Phase.builds : Phase → Bool
  | .constructing | .assigning _ => true
  | .idle | .testing | .returning => false

/-- The thread does not find the pointer empty while another one constructs or is about to assign. -/
def FindsBuilt (s : LazySingleton ι) (i : ι) : Prop :=
  s.phase i = .testing → s.instance? = none → ∀ j, (s.phase j).builds = false

instance decidableFindsBuilt [Fintype ι] (s : LazySingleton ι) (i : ι) :
    Decidable (FindsBuilt s i) :=
  inferInstanceAs (Decidable (s.phase i = .testing → s.instance? = none →
    ∀ j, (s.phase j).builds = false))

/-- The constructor has run at most once, once if a call has returned, and all calls have returned
what it made. -/
structure Single (s : LazySingleton ι) : Prop where
  atMostOnce : s.constructed ≤ 1
  once : s.returned ≠ [] → s.constructed = 1
  same : ∀ call ∈ s.returned, call.2 = some 0

/-! ## The stages of the instance -/

/-- Before the first assignment, a thread other than the one that builds has at most made its call. -/
def Phase.waits : Phase → Bool
  | .idle | .testing => true
  | .constructing | .assigning _ | .returning => false

inductive Stage (s : LazySingleton ι) : Prop
  | empty (hinstance : s.instance? = none) (hconstructed : s.constructed = 0)
      (hreturned : s.returned = []) (hothers : ∀ j, (s.phase j).waits = true)
  | constructing (i : ι) (hi : s.phase i = .constructing) (hinstance : s.instance? = none)
      (hconstructed : s.constructed = 0) (hreturned : s.returned = [])
      (hothers : ∀ j, j ≠ i → (s.phase j).waits = true)
  | assigning (i : ι) (hi : s.phase i = .assigning 0) (hinstance : s.instance? = none)
      (hconstructed : s.constructed = 1) (hreturned : s.returned = [])
      (hothers : ∀ j, j ≠ i → (s.phase j).waits = true)
  | built (hinstance : s.instance? = some 0) (hconstructed : s.constructed = 1)
      (hreturned : ∀ call ∈ s.returned, call.2 = some 0)
      (hothers : ∀ j, (s.phase j).builds = false)

theorem Stage.single {s : LazySingleton ι} (h : Stage s) : Single s := by
  cases h with
  | empty _ hconstructed hreturned | constructing _ _ _ hconstructed hreturned =>
      refine ⟨by omega, fun hne => absurd hreturned hne, ?_⟩
      rw [hreturned]
      simp
  | assigning _ _ _ hconstructed hreturned =>
      refine ⟨by omega, fun _ => hconstructed, ?_⟩
      rw [hreturned]
      simp
  | built _ hconstructed hreturned => exact ⟨by omega, fun _ => hconstructed, hreturned⟩

/-! ## One step -/

variable [DecidableEq ι]

theorem forall_setPhase {P : ι → Phase → Prop} {s : LazySingleton ι} {i : ι} {phase : Phase}
    (hi : P i phase) (h : ∀ j, j ≠ i → P j (s.phase j)) (j : ι) : P j ((s.setPhase i phase).phase j) :=
  (Function.forall_update_iff s.phase P).mpr ⟨hi, h⟩ j

theorem builds_of_waits {phase : Phase} (h : phase.waits = true) : phase.builds = false := by
  cases phase with
  | idle | testing => rfl
  | constructing | assigning | returning => cases h

/-- A thread that builds is the one of its stage. -/
theorem eq_of_builds {s : LazySingleton ι} {i k : ι} (hothers : ∀ j, j ≠ k → (s.phase j).waits = true)
    (hi : (s.phase i).builds = true) : i = k := by
  by_contra hne
  exact Bool.false_ne_true ((builds_of_waits (hothers i hne)).symm.trans hi)

/-- A thread that builds is the only one behind its test. -/
theorem Stage.building {s : LazySingleton ι} {i : ι} (h : Stage s)
    (hi : (s.phase i).builds = true) :
    s.instance? = none ∧ s.returned = [] ∧ (∀ j, j ≠ i → (s.phase j).waits = true) ∧
      (s.phase i = .constructing ∧ s.constructed = 0 ∨
        s.phase i = .assigning 0 ∧ s.constructed = 1) := by
  cases h with
  | empty _ _ _ hothers =>
      exact absurd ((builds_of_waits (hothers i)).symm.trans hi) Bool.false_ne_true
  | constructing k hk hinstance hconstructed hreturned hothers =>
      obtain rfl := eq_of_builds hothers hi
      exact ⟨hinstance, hreturned, hothers, .inl ⟨hk, hconstructed⟩⟩
  | assigning k hk hinstance hconstructed hreturned hothers =>
      obtain rfl := eq_of_builds hothers hi
      exact ⟨hinstance, hreturned, hothers, .inr ⟨hk, hconstructed⟩⟩
  | built _ _ _ hothers => exact absurd ((hothers i).symm.trans hi) Bool.false_ne_true

/-- A thread that does not build goes on to wait. -/
theorem Stage.wait {s : LazySingleton ι} {i : ι} {phase : Phase} (h : Stage s)
    (hi : (s.phase i).builds = false) (hphase : phase.waits = true) :
    Stage (s.setPhase i phase) := by
  have hne : ∀ {k : ι} {q : Phase}, s.phase k = q → q.builds = true → k ≠ i := by
    rintro k q hk hq rfl
    rw [hk, hq] at hi
    cases hi
  cases h with
  | empty hinstance hconstructed hreturned hothers =>
      exact .empty hinstance hconstructed hreturned
        (forall_setPhase (P := fun _ q => q.waits = true) hphase fun j _ => hothers j)
  | constructing k hk hinstance hconstructed hreturned hothers =>
      have hki : k ≠ i := hne hk rfl
      refine .constructing k ?_ hinstance hconstructed hreturned ?_
      · exact (Function.update_of_ne hki _ _).trans hk
      · exact forall_setPhase (P := fun j q => j ≠ k → q.waits = true) (fun _ => hphase)
          fun j _ => hothers j
  | assigning k hk hinstance hconstructed hreturned hothers =>
      have hki : k ≠ i := hne hk rfl
      refine .assigning k ?_ hinstance hconstructed hreturned ?_
      · exact (Function.update_of_ne hki _ _).trans hk
      · exact forall_setPhase (P := fun j q => j ≠ k → q.waits = true) (fun _ => hphase)
          fun j _ => hothers j
  | built hinstance hconstructed hreturned hothers =>
      refine .built hinstance hconstructed hreturned ?_
      exact forall_setPhase (P := fun _ q => q.builds = false) (builds_of_waits hphase)
        fun j _ => hothers j

/-- A thread finds the pointer empty while nobody builds. -/
theorem Stage.find {s : LazySingleton ι} {i : ι} (h : Stage s) (hnone : s.instance? = none)
    (hnobody : ∀ j, (s.phase j).builds = false) : Stage (s.setPhase i .constructing) := by
  cases h with
  | empty hinstance hconstructed hreturned hothers =>
      refine .constructing i ?_ hinstance hconstructed hreturned ?_
      · exact Function.update_self i _ _
      · exact forall_setPhase (P := fun j q => j ≠ i → q.waits = true)
          (fun hne => absurd rfl hne) fun j _ _ => hothers j
  | constructing k hk | assigning k hk =>
      have hbuilds := hnobody k
      rw [hk] at hbuilds
      cases hbuilds
  | built hinstance =>
      rw [hinstance] at hnone
      cases hnone

/-- A thread finds the pointer filled. -/
theorem Stage.found {s : LazySingleton ι} {i : ι} (h : Stage s) (hsome : s.instance? ≠ none) :
    Stage (s.setPhase i .returning) := by
  cases h with
  | empty hinstance | constructing k hk hinstance | assigning k hk hinstance =>
      exact absurd hinstance hsome
  | built hinstance hconstructed hreturned hothers =>
      refine .built hinstance hconstructed hreturned ?_
      exact forall_setPhase (P := fun _ q => q.builds = false) rfl fun j _ => hothers j

theorem Stage.construct {s : LazySingleton ι} {i : ι} (h : Stage s) (hi : s.phase i = .constructing) :
    Stage ({ s with constructed := s.constructed + 1 }.setPhase i (.assigning s.constructed)) := by
  have hbuilds : (s.phase i).builds = true := by
    rw [hi]
    rfl
  obtain ⟨hinstance, hreturned, hothers, ⟨-, hconstructed⟩ | ⟨hassigning, -⟩⟩ := h.building hbuilds
  · rw [hconstructed]
    refine .assigning i ?_ hinstance rfl hreturned ?_
    · exact Function.update_self i _ _
    · exact forall_setPhase (P := fun j q => j ≠ i → q.waits = true)
        (fun hne => absurd rfl hne) fun j _ => hothers j
  · cases hi.symm.trans hassigning

theorem Stage.assign {s : LazySingleton ι} {i : ι} {object : ℕ} (h : Stage s)
    (hi : s.phase i = .assigning object) :
    Stage ({ s with instance? := some object }.setPhase i .returning) := by
  have hbuilds : (s.phase i).builds = true := by
    rw [hi]
    rfl
  obtain ⟨-, hreturned, hothers, ⟨hconstructing, -⟩ | ⟨hassigning, hconstructed⟩⟩ :=
    h.building hbuilds
  · cases hi.symm.trans hconstructing
  · cases hi.symm.trans hassigning
    refine .built rfl hconstructed ?_ ?_
    · simp [setPhase, hreturned]
    · exact forall_setPhase (P := fun _ q => q.builds = false) rfl
        fun j hne => builds_of_waits (hothers j hne)

/-- Only behind the assignment does a thread come to return. -/
theorem Stage.answer {s : LazySingleton ι} {i : ι} (h : Stage s) (hi : s.phase i = .returning) :
    Stage ({ s with returned := s.returned ++ [(i, s.instance?)] }.setPhase i .idle) := by
  cases h with
  | empty _ _ _ hothers =>
      have hwaits := hothers i
      rw [hi] at hwaits
      cases hwaits
  | constructing k hk _ _ _ hothers | assigning k hk _ _ _ hothers =>
      have hne : i ≠ k := by
        rintro rfl
        rw [hi] at hk
        cases hk
      have hwaits := hothers i hne
      rw [hi] at hwaits
      cases hwaits
  | built hinstance hconstructed hreturned hothers =>
      refine .built hinstance hconstructed ?_ ?_
      · intro call hcall
        rcases List.mem_append.mp hcall with hold | hnew
        · exact hreturned call hold
        · rw [List.mem_singleton.mp hnew]
          exact hinstance
      · exact forall_setPhase (P := fun _ q => q.builds = false) rfl fun j _ => hothers j

theorem Stage.step {s s' : LazySingleton ι} {i : ι} (h : Stage s) (hok : FindsBuilt s i)
    (hstep : s.step i = some s') : Stage s' := by
  cases hi : s.phase i with
  | idle =>
      simp only [LazySingleton.step, hi, Option.some.injEq] at hstep
      subst hstep
      exact h.wait (by rw [hi]; rfl) rfl
  | testing =>
      simp only [LazySingleton.step, hi] at hstep
      split at hstep
      · next hnone =>
          cases hstep
          exact h.find hnone (hok hi hnone)
      · next hsome =>
          cases hstep
          exact h.found hsome
  | constructing =>
      simp only [LazySingleton.step, hi, Option.some.injEq] at hstep
      subst hstep
      exact h.construct hi
  | assigning object =>
      simp only [LazySingleton.step, hi, Option.some.injEq] at hstep
      subst hstep
      exact h.assign hi
  | returning =>
      simp only [LazySingleton.step, hi, Option.some.injEq] at hstep
      subst hstep
      exact h.answer hi

theorem Reaches.stage {s : LazySingleton ι} (h : (machine ι).Reaches FindsBuilt s) : Stage s :=
  h.invariant (.empty rfl rfl rfl fun _ => rfl) fun _ _ _ hs hok hstep => hs.step hok hstep

/-! ## Two builders -/

theorem step_constructing {s : LazySingleton ι} {i : ι} (hi : s.phase i = .constructing) :
    (machine ι).step s i =
      some ({ s with constructed := s.constructed + 1 }.setPhase i (.assigning s.constructed)) := by
  simp [machine, LazySingleton.step, hi]

/-- A thread that finds the pointer empty while another one builds will run the constructor a second
time. -/
theorem Stage.leads_two {s s' : LazySingleton ι} {i : ι} (h : Stage s) (hstep : s.step i = some s')
    (hok : ¬ FindsBuilt s i) : (machine ι).Leads (fun t => t.constructed = 2) s' := by
  simp only [FindsBuilt, not_forall, Bool.not_eq_false] at hok
  obtain ⟨hi, hnone, j, hj⟩ := hok
  simp only [LazySingleton.step, hi, hnone, if_true, Option.some.injEq] at hstep
  subst hstep
  have hne : j ≠ i := by
    rintro rfl
    rw [hi] at hj
    cases hj
  have hi' : (s.setPhase i .constructing).phase i = .constructing := Function.update_self i _ _
  have hj' : (s.setPhase i .constructing).phase j = s.phase j := Function.update_of_ne hne _ _
  obtain ⟨-, -, -, ⟨hk, hconstructed⟩ | ⟨-, hconstructed⟩⟩ := h.building hj
  · apply Machine.Leads.of_step (step_constructing (hj'.trans hk))
    apply Machine.Leads.of_step (step_constructing ((Function.update_of_ne hne.symm _ _).trans hi'))
    apply Machine.leads_of
    exact congrArg (· + 2) hconstructed
  · apply Machine.Leads.of_step (step_constructing hi')
    apply Machine.leads_of
    exact congrArg (· + 1) hconstructed

/-! ## All runs -/

/-- As long as nobody finds the pointer empty while another thread builds, there is one instance.
The first time that somebody does, the constructor is on its way to run twice. -/
theorem single_of_findsBuilt :
    (∀ s : LazySingleton ι, (machine ι).Reaches FindsBuilt s → Single s) ∧
    ∀ (s : LazySingleton ι) (i : ι) (s' : LazySingleton ι), (machine ι).Reaches FindsBuilt s →
      s.step i = some s' → ¬ FindsBuilt s i →
        (machine ι).Leads (fun t => t.constructed = 2) s' :=
  ⟨fun _ hs => (Reaches.stage hs).single,
    fun _ _ _ hs hstep hok => (Reaches.stage hs).leads_two hstep hok⟩

/-- The second thread makes its test behind the assignment of the first one. -/
theorem single_in_turn :
    ∃ s : LazySingleton Bool, (machine Bool).run init
        [false, true, false, false, false, true, true, false] = some s ∧
      s.returned = [(true, some 0), (false, some 0)] ∧ Single s := by
  have hmeets : (machine Bool).Meets FindsBuilt init
      [false, true, false, false, false, true, true, false] := by
    decide
  exact ⟨_, rfl, rfl, single_of_findsBuilt.1 _ (Machine.Reaches.init.run_of_meets hmeets rfl)⟩

/-- Both threads make their test before either has assigned: two instances are returned. -/
theorem two_instances :
    ∃ s : LazySingleton Bool, (machine Bool).run init
        [false, true, false, true, false, true, false, false, true, true] = some s ∧
      s.constructed = 2 ∧ s.returned = [(false, some 0), (true, some 1)] ∧ ¬ Single s := by
  refine ⟨_, rfl, rfl, rfl, fun h => ?_⟩
  exact absurd h.atMostOnce (by decide)

end CommonLib.Singletons.LazySingleton
