import CommonLib.Model.Observer
import Mathlib.Data.List.Basic

/-! # Changes to a subject while it is notified

The loop keeps the end that it took first. A registration makes that end invalid, and behind an
observer that was erased the loop runs past the last one; so only the observer that is called last can
erase any. -/

namespace CommonLib

open List

variable {O α σ : Type*}

/-! ## The events -/

def NotifyEvent.target : NotifyEvent O → Option O
  | .called observer => some observer
  | .changed _ => none

@[simp]
theorem target_called (observer : O) : (NotifyEvent.called observer).target = some observer := rfl

@[simp]
theorem target_changed (call : SubjectCall O) : (NotifyEvent.changed call).target = none := rfl

section Events

variable {onEvent : O → α → σ → σ × List (SubjectCall O)} {args : α}

/-- What happens if every observer of a list is called and the loop is not disturbed. -/
def eventsOf (onEvent : O → α → σ → σ × List (SubjectCall O)) (args : α) :
    σ → List O → List (NotifyEvent O)
  | _, [] => []
  | user, observer :: rest =>
      (.called observer :: (onEvent observer args user).2.map .changed) ++
        eventsOf onEvent args (onEvent observer args user).1 rest

theorem eventsOf_cons (user : σ) (observer : O) (rest : List O) :
    eventsOf onEvent args user (observer :: rest) =
      (.called observer :: (onEvent observer args user).2.map .changed) ++
        eventsOf onEvent args (onEvent observer args user).1 rest :=
  rfl

theorem filterMap_eventsOf (user : σ) (rest : List O) :
    (eventsOf onEvent args user rest).filterMap (·.target) = rest := by
  induction rest generalizing user with
  | nil => rfl
  | cons observer rest ih =>
      have hcalls : ((onEvent observer args user).2.map NotifyEvent.changed).filterMap (·.target) =
          [] := by
        simp [filterMap_map]
      rw [eventsOf_cons, cons_append, filterMap_cons_some (target_called observer),
        filterMap_append, hcalls, ih, nil_append]

theorem mem_of_called_mem {user : σ} {rest : List O} {o : O}
    (hmem : .called o ∈ eventsOf onEvent args user rest) : o ∈ rest := by
  have hcalled : o ∈ (eventsOf onEvent args user rest).filterMap (·.target) :=
    mem_filterMap.mpr ⟨_, hmem, rfl⟩
  rwa [filterMap_eventsOf] at hcalled

end Events

/-! ## What a notification should do -/

/-- The observers that were called, in their order. -/
def Notification.called (n : Notification O σ) : List O := n.events.filterMap (·.target)

variable [DecidableEq O]

/-- The observer was registered once and is not unregistered by any of the calls. -/
def Notification.Stays (s : Subject O) (n : Notification O σ) (observer : O) : Prop :=
  s.observers.count observer = 1 ∧ .changed (.unregist observer) ∉ n.events

instance (s : Subject O) (n : Notification O σ) (observer : O) : Decidable (n.Stays s observer) :=
  inferInstanceAs (Decidable (_ ∧ _))

/-- A notification is not harmed by what its observers do to the subject. -/
structure Survives (onEvent : O → α → σ → σ × List (SubjectCall O)) (args : α) (user : σ)
    (s : Subject O) : Prop where
  valid : (s.notify onEvent args user).invalid = false
  called : (s.notify onEvent args user).called.filter ((s.notify onEvent args user).Stays s ·) =
    s.observers.filter ((s.notify onEvent args user).Stays s ·)
  gone : (s.notify onEvent args user).events.Pairwise fun earlier later =>
    ∀ o, earlier = .changed (.unregist o) → later ≠ .called o

/-- The calls do nothing to the vector. -/
def Idle (observers : List O) (calls : List (SubjectCall O)) : Prop :=
  ∀ call ∈ calls, ∃ o ∉ observers, call = .unregist o

/-- Nothing is registered, and before the last observer is called nothing is unregistered either that
is in the vector. -/
def Undisturbed (onEvent : O → α → σ → σ × List (SubjectCall O)) (args : α) (observers : List O) :
    σ → List O → Prop
  | _, [] => True
  | user, [last] => ∀ o, .regist o ∉ (onEvent last args user).2
  | user, observer :: next :: rest =>
      Idle observers (onEvent observer args user).2 ∧
        Undisturbed onEvent args observers (onEvent observer args user).1 (next :: rest)

/-! ## The calls of one observer -/

section Calls

variable {s : Subject O} {calls : List (SubjectCall O)}

theorem growths_le_foldl (calls : List (SubjectCall O)) (s : Subject O) :
    s.growths ≤ (calls.foldl SubjectCall.apply s).growths := by
  induction calls generalizing s with
  | nil => exact Nat.le_refl _
  | cons call calls ih =>
      cases call with
      | regist o => exact Nat.le_trans (Nat.le_succ _) (ih (s.regist o))
      | unregist o => exact ih (s.unregist o)

/-- The vector has not grown exactly if nothing was registered. -/
theorem growths_foldl_eq_iff (calls : List (SubjectCall O)) (s : Subject O) :
    (calls.foldl SubjectCall.apply s).growths = s.growths ↔ ∀ o, .regist o ∉ calls := by
  induction calls generalizing s with
  | nil => simp
  | cons call calls ih =>
      rw [foldl_cons]
      cases call with
      | regist o =>
          have hgrown : s.growths + 1 ≤ (calls.foldl SubjectCall.apply (s.regist o)).growths :=
            growths_le_foldl calls (s.regist o)
          constructor
          · intro hsame
            exact absurd hgrown (by rw [SubjectCall.apply] at hsame; omega)
          · intro hnone
            exact absurd mem_cons_self (hnone o)
      | unregist o =>
          have hih := ih (s.unregist o)
          rw [SubjectCall.apply]
          simpa [Subject.unregist] using hih

theorem length_foldl_le (hnone : ∀ o, .regist o ∉ calls) :
    (calls.foldl SubjectCall.apply s).observers.length ≤ s.observers.length := by
  induction calls generalizing s with
  | nil => exact Nat.le_refl _
  | cons call calls ih =>
      cases call with
      | regist o => exact absurd mem_cons_self (hnone o)
      | unregist o =>
          calc
            (calls.foldl SubjectCall.apply (s.unregist o)).observers.length
                ≤ (s.unregist o).observers.length := ih fun o hmem => hnone o (mem_cons_of_mem _ hmem)
            _ ≤ s.observers.length := length_filter_le _ _

theorem unregist_eq_self {o : O} (hne : o ∉ s.observers) : s.unregist o = s := by
  have hfilter : (s.observers.filter fun obs => obs ≠ o) = s.observers := by
    rw [filter_eq_self]
    intro obs hobs
    simp [ne_of_mem_of_not_mem hobs hne]
  simp only [Subject.unregist, hfilter]

theorem Idle.foldl_eq (h : Idle s.observers calls) : calls.foldl SubjectCall.apply s = s := by
  induction calls with
  | nil => rfl
  | cons call calls ih =>
      obtain ⟨o, hne, rfl⟩ := h call mem_cons_self
      rw [foldl_cons, SubjectCall.apply, unregist_eq_self hne]
      exact ih fun call hcall => h call (mem_cons_of_mem _ hcall)

/-- Calls that neither register anything nor shorten the vector do nothing. -/
theorem idle_of_length (hnone : ∀ o, .regist o ∉ calls)
    (hlength : s.observers.length ≤ (calls.foldl SubjectCall.apply s).observers.length) :
    Idle s.observers calls := by
  induction calls generalizing s with
  | nil => simp [Idle]
  | cons call calls ih =>
      have hrest : ∀ o, .regist o ∉ calls := fun o hmem => hnone o (mem_cons_of_mem _ hmem)
      cases call with
      | regist o => exact absurd mem_cons_self (hnone o)
      | unregist o =>
          have hkept : s.observers.length ≤ (s.unregist o).observers.length :=
            Nat.le_trans hlength (length_foldl_le hrest)
          have hne : o ∉ s.observers := by
            intro hmem
            have hlt : (s.unregist o).observers.length < s.observers.length :=
              length_filter_lt_length_iff_exists.mpr ⟨o, hmem, by simp⟩
            omega
          rw [foldl_cons, SubjectCall.apply, unregist_eq_self hne] at hlength
          intro call hcall
          cases hcall with
          | head => exact ⟨o, hne, rfl⟩
          | tail _ hcall => exact ih hrest hlength call hcall

end Calls

/-! ## The loop -/

section Loop

variable {onEvent : O → α → σ → σ × List (SubjectCall O)} {args : α} {growths : ℕ}

/-- A loop that is valid has not seen the vector grow, and its positions were inside of it. -/
theorem inside_of_loop_valid (remaining position : ℕ) (n : Notification O σ)
    (hvalid : (n.loop onEvent args growths remaining position).invalid = false) :
    n.subject.growths = growths ∧
      (0 < remaining → position + remaining ≤ n.subject.observers.length) := by
  induction remaining generalizing position n with
  | zero =>
      by_cases hgrowths : n.subject.growths = growths
      · exact ⟨hgrowths, fun hpos => absurd hpos (Nat.lt_irrefl 0)⟩
      · simp [Notification.loop, hgrowths] at hvalid
  | succ remaining ih =>
      by_cases hgrowths : n.subject.growths = growths
      · refine ⟨hgrowths, fun _ => ?_⟩
        cases hat : n.subject.observers[position]? with
        | none => simp [Notification.loop, hgrowths, hat] at hvalid
        | some observer =>
            have hlt : position < n.subject.observers.length :=
              (List.getElem?_eq_some_iff.mp hat).1
            simp only [Notification.loop, hgrowths, if_true, hat] at hvalid
            obtain ⟨hsame, hinside⟩ := ih (position + 1) (n.call onEvent args observer) hvalid
            have hnone := (growths_foldl_eq_iff _ n.subject).mp (hsame.trans hgrowths.symm)
            have hshrunk : (n.call onEvent args observer).subject.observers.length ≤
                n.subject.observers.length := length_foldl_le hnone
            omega
      · simp [Notification.loop, hgrowths] at hvalid

/-- The next observer is called if the vector has not changed. -/
theorem loop_cons {n : Notification O σ} (called rest : List O) (observer : O)
    (hobservers : n.subject.observers = called ++ observer :: rest)
    (hgrowths : n.subject.growths = growths) :
    n.loop onEvent args growths (observer :: rest).length called.length =
      (n.call onEvent args observer).loop onEvent args growths rest.length
        (called ++ [observer]).length := by
  have hat : n.subject.observers[called.length]? = some observer := by simp [hobservers]
  simp only [length_cons, Notification.loop, hgrowths, if_true, hat, length_append, length_nil]

theorem undisturbed_of_valid (called rest : List O) (n : Notification O σ)
    (hobservers : n.subject.observers = called ++ rest)
    (hvalid : (n.loop onEvent args growths rest.length called.length).invalid = false) :
    Undisturbed onEvent args n.subject.observers n.user rest := by
  induction rest generalizing called n with
  | nil => exact trivial
  | cons observer rest ih =>
      have hgrowths := (inside_of_loop_valid _ _ n hvalid).1
      rw [loop_cons called rest observer hobservers hgrowths] at hvalid
      obtain ⟨hsame, hinside⟩ := inside_of_loop_valid _ _ _ hvalid
      have hnone : ∀ o, .regist o ∉ (onEvent observer args n.user).2 :=
        (growths_foldl_eq_iff _ n.subject).mp (hsame.trans hgrowths.symm)
      cases rest with
      | nil => exact hnone
      | cons next rest =>
          have hlength : n.subject.observers.length ≤
              (n.call onEvent args observer).subject.observers.length := by
            have hend := hinside (Nat.succ_pos _)
            simp only [hobservers, length_append, length_cons] at hend ⊢
            omega
          have hidle := idle_of_length hnone hlength
          have hsubject : (n.call onEvent args observer).subject = n.subject := hidle.foldl_eq
          have hrest := ih (called ++ [observer]) (n.call onEvent args observer)
            (by simp [hsubject, hobservers]) hvalid
          rw [hsubject] at hrest
          exact ⟨hidle, hrest⟩

theorem loop_of_undisturbed (called rest : List O) (n : Notification O σ)
    (hobservers : n.subject.observers = called ++ rest) (hgrowths : n.subject.growths = growths)
    (hundisturbed : Undisturbed onEvent args n.subject.observers n.user rest) :
    (n.loop onEvent args growths rest.length called.length).invalid = n.invalid ∧
      (n.loop onEvent args growths rest.length called.length).events =
        n.events ++ eventsOf onEvent args n.user rest := by
  induction rest generalizing called n with
  | nil => simp [Notification.loop, hgrowths, eventsOf]
  | cons observer rest ih =>
      rw [loop_cons called rest observer hobservers hgrowths]
      cases rest with
      | nil =>
          have hsame : (n.call onEvent args observer).subject.growths = growths :=
            ((growths_foldl_eq_iff _ n.subject).mpr hundisturbed).trans hgrowths
          have hend : (n.call onEvent args observer).loop onEvent args growths 0
              (called ++ [observer]).length = n.call onEvent args observer := if_pos hsame
          rw [length_nil, hend]
          exact ⟨rfl, by simp [Notification.call, eventsOf]⟩
      | cons next rest =>
          obtain ⟨hidle, hrest⟩ := hundisturbed
          have hsubject : (n.call onEvent args observer).subject = n.subject := hidle.foldl_eq
          obtain ⟨hvalid, hevents⟩ := ih (called ++ [observer]) (n.call onEvent args observer)
            (by simp [hsubject, hobservers]) (by rw [hsubject, hgrowths]) (by rwa [hsubject])
          refine ⟨hvalid, hevents.trans ?_⟩
          rw [eventsOf_cons n.user observer (next :: rest), ← append_assoc]
          rfl

omit [DecidableEq O] in
/-- What is unregistered while others are still to come is none of them. -/
theorem gone_eventsOf (observers : List O) (user : σ) (rest : List O)
    (hsubset : ∀ o ∈ rest, o ∈ observers)
    (hundisturbed : Undisturbed onEvent args observers user rest) :
    (eventsOf onEvent args user rest).Pairwise fun earlier later =>
      ∀ o, earlier = .changed (.unregist o) → later ≠ .called o := by
  induction rest generalizing user with
  | nil => exact Pairwise.nil
  | cons observer rest ih =>
      rw [eventsOf_cons, cons_append, pairwise_cons, pairwise_append]
      refine ⟨fun later _ o hearlier => absurd hearlier (by simp), ?_, ?_, ?_⟩
      · refine pairwise_of_forall_mem_list fun earlier _ later hlater o _ => ?_
        obtain ⟨call, _, rfl⟩ := mem_map.mp hlater
        simp
      · cases rest with
        | nil => exact Pairwise.nil
        | cons next rest =>
            exact ih _ (fun o ho => hsubset o (mem_cons_of_mem _ ho)) hundisturbed.2
      · intro earlier hearlier later hlater o hunregist hcalled
        subst hunregist hcalled
        have hrest := mem_of_called_mem hlater
        cases rest with
        | nil => exact absurd hrest not_mem_nil
        | cons next rest =>
            obtain ⟨call, hcall, heq⟩ := mem_map.mp hearlier
            cases heq
            obtain ⟨o', hne, heq⟩ := hundisturbed.1 _ hcall
            cases heq
            exact hne (hsubset o (mem_cons_of_mem _ hrest))

end Loop

/-! ## The notification -/

/-- A notification survives exactly the changes that the loop does not see. -/
theorem survives_iff (onEvent : O → α → σ → σ × List (SubjectCall O)) (args : α) (user : σ)
    (s : Subject O) :
    Survives onEvent args user s ↔ Undisturbed onEvent args s.observers user s.observers := by
  constructor
  · intro h
    exact undisturbed_of_valid [] s.observers ⟨s, user, [], false⟩ rfl h.valid
  · intro hundisturbed
    have hloop : (s.notify onEvent args user).invalid = false ∧
        (s.notify onEvent args user).events = [] ++ eventsOf onEvent args user s.observers :=
      loop_of_undisturbed [] s.observers ⟨s, user, [], false⟩ rfl rfl hundisturbed
    obtain ⟨hvalid, hevents⟩ := hloop
    rw [nil_append] at hevents
    refine ⟨hvalid, ?_, ?_⟩
    · rw [Notification.called, hevents, filterMap_eventsOf]
    · rw [hevents]
      exact gone_eventsOf s.observers user s.observers (fun o ho => ho) hundisturbed

/-- The first of two observers unregisters itself: the second one is passed over, and the position
behind it is read. -/
theorem unregist_self_invalid :
    ¬ Survives (fun (observer : Bool) () () => ((), if observer then [] else [.unregist observer]))
      () () ⟨[false, true], 2⟩ := by
  intro h
  exact absurd h.valid (by decide)

end CommonLib
