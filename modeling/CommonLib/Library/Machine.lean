import Mathlib.Data.List.Basic
import Mathlib.Order.WellFounded

/-! Machines given by a partial step function. An action names the actor that moves and
resolves its choices, so the runs of a machine are exactly the interleavings of its actors. -/

namespace CommonLib

/-- A start state and a partial step; `none` means that the action is not enabled. -/
structure Machine (σ α : Type*) where
  init : σ
  step : σ → α → Option σ

namespace Machine

variable {σ α : Type*} (m : Machine σ α)

/-- Perform the actions in order; `none` as soon as one of them is not enabled. -/
def run : σ → List α → Option σ
  | s, [] => some s
  | s, a :: actions => (m.step s a).bind fun s' => run s' actions

@[simp] theorem run_nil (s : σ) : m.run s [] = some s := rfl

theorem run_cons (s : σ) (a : α) (actions : List α) :
    m.run s (a :: actions) = (m.step s a).bind fun s' => m.run s' actions := rfl

/-- The states reached by runs each of whose steps meets the condition `ok`. -/
inductive Reaches (ok : σ → α → Prop) : σ → Prop
  | init : Reaches ok m.init
  | step {s s' : σ} {a : α} : Reaches ok s → ok s a → m.step s a = some s' → Reaches ok s'

/-- The states reached by any run at all. -/
abbrev Reachable : σ → Prop := m.Reaches fun _ _ => True

theorem run_concat (s : σ) (actions : List α) (a : α) :
    m.run s (actions ++ [a]) = (m.run s actions).bind fun s' => m.step s' a := by
  induction actions generalizing s with
  | nil => simp [run_cons]
  | cons b actions ih =>
      rw [List.cons_append, run_cons, run_cons, Option.bind_assoc]
      exact congrArg _ (funext fun next => ih next)

variable {m}

theorem exists_of_run_cons {s s' : σ} {a : α} {actions : List α}
    (h : m.run s (a :: actions) = some s') :
    ∃ next, m.step s a = some next ∧ m.run next actions = some s' :=
  Option.bind_eq_some_iff.mp h

/-- What holds initially and survives every step that meets `ok` holds in every state that
such steps reach. -/
theorem Reaches.invariant {ok : σ → α → Prop} {P : σ → Prop} {s : σ} (h : m.Reaches ok s)
    (hinit : P m.init) (hstep : ∀ s a s', P s → ok s a → m.step s a = some s' → P s') : P s := by
  induction h with
  | init => exact hinit
  | step _ hok hs ih => exact hstep _ _ _ ih hok hs

/-- An invariant whose step may assume another one that is already established. -/
theorem Reaches.invariant_of {ok : σ → α → Prop} {P Q : σ → Prop} {s : σ}
    (h : m.Reaches ok s) (hQ : ∀ s, m.Reaches ok s → Q s) (hinit : P m.init)
    (hstep : ∀ s a s', Q s → P s → ok s a → m.step s a = some s' → P s') : P s := by
  induction h with
  | init => exact hinit
  | step hr hok hs ih => exact hstep _ _ _ (hQ _ hr) ih hok hs

/-- A weaker condition lets through more runs. -/
theorem Reaches.mono {ok ok' : σ → α → Prop} {s : σ} (h : m.Reaches ok s)
    (himp : ∀ s a, ok s a → ok' s a) : m.Reaches ok' s := by
  induction h with
  | init => exact .init
  | step _ hok hs ih => exact ih.step (himp _ _ hok) hs

/-- What the steps of some actions preserve, a run of such actions preserves. -/
theorem run_invariant_of {A : α → Prop} {P : σ → Prop} {s s' : σ} {actions : List α}
    (hstep : ∀ s a s', A a → P s → m.step s a = some s' → P s') (hA : ∀ a ∈ actions, A a)
    (h : P s) (hrun : m.run s actions = some s') : P s' := by
  induction actions generalizing s with
  | nil =>
      cases hrun
      exact h
  | cons a actions ih =>
      obtain ⟨next, hs, hrest⟩ := exists_of_run_cons hrun
      have hnext := hstep s a next (hA a List.mem_cons_self) h hs
      exact ih (fun b hb => hA b (List.mem_cons_of_mem a hb)) hnext hrest

/-- What every step preserves, a run preserves. -/
theorem run_invariant {P : σ → Prop} {s s' : σ} {actions : List α}
    (hstep : ∀ s a s', P s → m.step s a = some s' → P s') (h : P s)
    (hrun : m.run s actions = some s') : P s' :=
  run_invariant_of (A := fun _ => True) (fun s a s' _ => hstep s a s') (fun _ _ => trivial) h hrun

theorem Reaches.run {s s' : σ} {actions : List α} (h : m.Reachable s)
    (hrun : m.run s actions = some s') : m.Reachable s' :=
  run_invariant (fun _ _ _ hs hstep => hs.step trivial hstep) h hrun

theorem reachable_of_run {s : σ} {actions : List α} (h : m.run m.init actions = some s) :
    m.Reachable s :=
  Reaches.init.run h

variable (m) in
/-- Some run from `s` leads to a state with the property `P`. -/
def Leads (P : σ → Prop) (s : σ) : Prop :=
  ∃ actions s', m.run s actions = some s' ∧ P s'

theorem leads_of {P : σ → Prop} {s : σ} (h : P s) : m.Leads P s :=
  ⟨[], s, rfl, h⟩

theorem Leads.of_step {P : σ → Prop} {s s' : σ} {a : α} (hstep : m.step s a = some s')
    (h : m.Leads P s') : m.Leads P s := by
  obtain ⟨actions, last, hrun, hlast⟩ := h
  refine ⟨a :: actions, last, ?_, hlast⟩
  rw [run_cons, hstep]
  exact hrun

theorem Leads.trans {P Q : σ → Prop} {s : σ} (h : m.Leads P s) (hPQ : ∀ t, P t → m.Leads Q t) :
    m.Leads Q s := by
  obtain ⟨actions, last, hrun, hlast⟩ := h
  induction actions generalizing s with
  | nil =>
      cases hrun
      exact hPQ _ hlast
  | cons a actions ih =>
      obtain ⟨next, hs, hrest⟩ := exists_of_run_cons hrun
      exact (ih hrest).of_step hs

theorem Leads.imp {P Q : σ → Prop} {s : σ} (h : m.Leads P s) (hPQ : ∀ t, P t → Q t) :
    m.Leads Q s :=
  h.trans fun t ht => leads_of (hPQ t ht)

/-- Where no action is enabled, a run leads nowhere else. -/
theorem Leads.of_stuck {P : σ → Prop} {s : σ} (h : m.Leads P s)
    (hstuck : ∀ a, m.step s a = none) : P s := by
  obtain ⟨actions, last, hrun, hlast⟩ := h
  cases actions with
  | nil =>
      cases hrun
      exact hlast
  | cons a actions =>
      rw [run_cons, hstuck a] at hrun
      cases hrun

/-- Where some step brings a state of `I` without the property closer to one with it, a run gets
there. -/
theorem Leads.of_decreasing {β : Type*} [LT β] [WellFoundedLT β] {I P : σ → Prop} (distance : σ → β)
    (hstep : ∀ s, I s → ¬ P s → ∃ a s', m.step s a = some s' ∧ I s' ∧ distance s' < distance s)
    {s : σ} (h : I s) : m.Leads (fun s' => I s' ∧ P s') s := by
  induction hd : distance s using WellFoundedLT.induction generalizing s with
  | ind d ih =>
      by_cases hP : P s
      · exact leads_of ⟨h, hP⟩
      · obtain ⟨a, s', hs, hI, hlt⟩ := hstep s h hP
        exact (ih (distance s') (hd ▸ hlt) hI rfl).of_step hs

/-- Where every step of some actions brings a state of `I` to one with a smaller distance, a run of
such actions is no longer than the distance it covers. -/
theorem run_length_le {A : α → Prop} {I : σ → Prop} (distance : σ → ℕ)
    (hstep : ∀ s a s', A a → I s → m.step s a = some s' → I s' ∧ distance s' < distance s)
    {s s' : σ} {actions : List α} (hA : ∀ a ∈ actions, A a) (h : I s)
    (hrun : m.run s actions = some s') : I s' ∧ actions.length + distance s' ≤ distance s := by
  induction actions generalizing s with
  | nil =>
      cases hrun
      exact ⟨h, (Nat.zero_add _).le⟩
  | cons a actions ih =>
      obtain ⟨next, hs, hrest⟩ := exists_of_run_cons hrun
      obtain ⟨hnext, hless⟩ := hstep s a next (hA a List.mem_cons_self) h hs
      obtain ⟨hlast, hlength⟩ := ih (fun b hb => hA b (List.mem_cons_of_mem a hb)) hnext hrest
      refine ⟨hlast, ?_⟩
      rw [List.length_cons]
      omega

variable (m) in
/-- Nothing but the action `a` happens. -/
def solo (a : α) : Machine σ Unit where
  init := m.init
  step s _ := m.step s a

theorem Leads.of_solo {P : σ → Prop} {s : σ} {a : α} (h : (m.solo a).Leads P s) :
    m.Leads P s := by
  obtain ⟨actions, last, hrun, hlast⟩ := h
  induction actions generalizing s with
  | nil =>
      cases hrun
      exact leads_of hlast
  | cons _ actions ih =>
      obtain ⟨next, hs, hrest⟩ := exists_of_run_cons hrun
      exact (ih hrest).of_step hs

/-! ## Simulation -/

/-- Let every step that meets `ok` keep the relation `R` to a state that the second machine
reaches, where that machine takes one step or none. Then it reaches a related state whenever the
first machine gets anywhere. -/
theorem Reaches.simulated {τ β : Type*} {n : Machine τ β} {ok : σ → α → Prop} {R : σ → τ → Prop}
    {s : σ} (h : m.Reaches ok s) (hinit : R m.init n.init)
    (hstep : ∀ s t a s', n.Reachable t → R s t → ok s a → m.step s a = some s' →
      R s' t ∨ ∃ b t', n.step t b = some t' ∧ R s' t') : ∃ t, n.Reachable t ∧ R s t := by
  induction h with
  | init => exact ⟨n.init, .init, hinit⟩
  | step _ hok hs ih =>
      obtain ⟨t, ht, hR⟩ := ih
      rcases hstep _ t _ _ ht hR hok hs with hstay | ⟨b, t', hb, hmove⟩
      · exact ⟨t, ht, hstay⟩
      · exact ⟨t', ht.step trivial hb, hmove⟩

/-! ## Histories -/

variable {ε : Type*}

/-- The machine together with what an observer of its steps has written down. -/
def recorded (m : Machine σ α) (observe : σ → α → Option ε) : Machine (σ × List ε) α where
  init := (m.init, [])
  step s a := (m.step s.1 a).map fun next => (next, s.2 ++ (observe s.1 a).toList)

/-- An invariant of the state and the history, whose step may assume an invariant of the state
that is already established. -/
theorem Reaches.recorded {observe : σ → α → Option ε} {ok : σ → α → Prop} {I : σ → Prop}
    {P : σ → List ε → Prop} {s : σ} {history : List ε}
    (h : (m.recorded observe).Reaches (fun s a => ok s.1 a) (s, history))
    (hI : ∀ s, m.Reaches ok s → I s) (hinit : P m.init [])
    (hstep : ∀ s a s' history, I s → P s history → ok s a → m.step s a = some s' →
      P s' (history ++ (observe s a).toList)) : m.Reaches ok s ∧ P s history := by
  refine h.invariant (P := fun s => m.Reaches ok s.1 ∧ P s.1 s.2) ⟨.init, hinit⟩ ?_
  rintro ⟨s, history⟩ a _ ⟨hs, hP⟩ hok hboth
  obtain ⟨next, hnext, rfl⟩ := Option.map_eq_some_iff.mp hboth
  exact ⟨hs.step hok hnext, hstep s a next history (hI s hs) hP hok hnext⟩

/-! ## Runs judged step by step -/

variable (m) in
/-- `P` holds in every state of the run from `s`, which ends at an action that is not enabled. -/
def Holds (P : σ → Prop) : σ → List α → Prop
  | s, [] => P s
  | s, a :: actions => P s ∧ ∀ s', m.step s a = some s' → Holds P s' actions

variable (m) in
/-- Every step that the run from `s` takes meets the condition `ok`. -/
def Meets (ok : σ → α → Prop) : σ → List α → Prop
  | _, [] => True
  | s, a :: actions => ∀ s', m.step s a = some s' → ok s a ∧ Meets ok s' actions

instance decidableMeets {ok : σ → α → Prop} [∀ s a, Decidable (ok s a)] (s : σ) :
    (actions : List α) → Decidable (m.Meets ok s actions)
  | [] => isTrue trivial
  | a :: actions =>
      match h : m.step s a with
      | none => isTrue fun s' hs => absurd (h.symm.trans hs) (Option.some_ne_none s').symm
      | some next =>
          have : Decidable (m.Meets ok next actions) := decidableMeets next actions
          decidable_of_iff (ok s a ∧ m.Meets ok next actions) (by simp [Meets, h])

/-- Where a step keeps `P` exactly if it meets `ok`, a run keeps `P` exactly if all its steps
meet `ok`. The invariant `I` may help to judge the steps. -/
theorem holds_iff_meets {I P : σ → Prop} {ok : σ → α → Prop}
    (hI : ∀ s a s', I s → m.step s a = some s' → I s')
    (hok : ∀ s a s', I s → P s → m.step s a = some s' → (P s' ↔ ok s a))
    {s : σ} (hIs : I s) (hPs : P s) (actions : List α) :
    m.Holds P s actions ↔ m.Meets ok s actions := by
  induction actions generalizing s with
  | nil => exact ⟨fun _ => trivial, fun _ => hPs⟩
  | cons a actions ih =>
      constructor
      · rintro ⟨-, hrest⟩ s' hs
        have hP' : P s' := by
          have h := hrest s' hs
          cases actions with
          | nil => exact h
          | cons b actions => exact h.1
        exact ⟨(hok s a s' hIs hPs hs).mp hP', (ih (hI s a s' hIs hs) hP').mp (hrest s' hs)⟩
      · intro hmeets
        refine ⟨hPs, fun s' hs => ?_⟩
        obtain ⟨hstep, hrest⟩ := hmeets s' hs
        exact (ih (hI s a s' hIs hs) ((hok s a s' hIs hPs hs).mpr hstep)).mpr hrest

/-- A run whose steps meet the condition ends in a state that such steps reach. -/
theorem Reaches.run_of_meets {ok : σ → α → Prop} {s s' : σ} {actions : List α}
    (h : m.Reaches ok s) (hmeets : m.Meets ok s actions) (hrun : m.run s actions = some s') :
    m.Reaches ok s' := by
  induction actions generalizing s with
  | nil =>
      cases hrun
      exact h
  | cons a actions ih =>
      obtain ⟨next, hs, hrest⟩ := exists_of_run_cons hrun
      obtain ⟨hok, hmeets⟩ := hmeets next hs
      exact ih (h.step hok hs) hmeets hrest

end Machine

end CommonLib
