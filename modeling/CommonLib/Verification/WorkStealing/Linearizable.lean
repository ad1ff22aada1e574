import CommonLib.Library.Deque
import CommonLib.Verification.WorkStealing.ExactlyOnce

/-! # The work-stealing queue is linearizable

A push takes effect when it stores `_bottom`, a steal when its compare-exchange succeeds. A pop takes
effect at its load of `_top`, except for the last item, where its own compare-exchange decides. -/

namespace CommonLib.LockFreeWorkQueue.Shared

open CircularArray Deque

variable {ι T : Type*} {s s' : Shared ι T}

/-! ## What the deque holds -/

/-- The slots from the oldest item to the newest one that still counts. -/
def contents (s : Shared ι T) : List (Option T) :=
  slice s.current.slot s.top s.last

/-- The result of a `pop` that has taken effect and has not returned. -/
def owed (s : Shared ι T) : Option (Option (Option T)) :=
  match s.owner with
  | .popGet bottom array top =>
      if top < bottom then some (some ((s.arrays array).slot bottom)) else none
  | .popRestore _ result => some result
  | _ => none

/-- The history of the queue holds what the queue holds. -/
def Explained (s : Shared ι T) (history : List (Event ι (Option T))) : Prop :=
  Explains history s.contents s.owed

variable {history : List (Event ι (Option T))}

theorem owed_of_outsidePop (ho : OutsidePop s.owner) : s.owed = none := by
  rw [owed]
  cases hpc : s.owner with
  | popGet | popRestore =>
      rw [hpc] at ho
      cases ho
  | _ => rfl

theorem contents_congr (htop : s'.top = s.top) (hlast : s'.last = s.last)
    (hslot : ∀ i, s.top ≤ i → i < s.last → s'.current.slot i = s.current.slot i) :
    s'.contents = s.contents := by
  rw [contents, contents, htop, hlast]
  exact slice_congr hslot

theorem contents_eq_nil (hlast : s.last ≤ s.top) : s.contents = [] :=
  slice_eq_nil_iff.mpr hlast

/-! ## The owner -/

/-- Nothing takes effect while the owner moves on outside of the end of `pop`. -/
theorem Explained.outside (h : s.Explained history) (ho : OutsidePop s.owner)
    (ho' : OutsidePop s'.owner) (htop : s'.top = s.top) (hbottom : s'.bottom = s.bottom)
    (hslot : ∀ i, s.top ≤ i → i < s.bottom → s'.current.slot i = s.current.slot i) :
    s'.Explained history := by
  have hlast : s.last = s.bottom := last_of_outsidePop ho
  have hlast' : s'.last = s.last := by rw [last_of_outsidePop ho', hbottom, hlast]
  rw [Explained, contents_congr htop hlast' (hlast ▸ hslot), owed_of_outsidePop ho',
    ← owed_of_outsidePop ho]
  exact h

theorem Explained.moveOn (h : s.Explained history) {pc pc' : Owner T} (ho : s.owner = pc)
    (hpc : OutsidePop pc) (hpc' : OutsidePop pc') : (s.setOwner pc').Explained history :=
  h.outside (ho ▸ hpc) hpc' rfl rfl fun _ _ _ => rfl

/-- The larger array has the items that the old one has. -/
theorem Explained.store (h : s.Explained history) (hs : s.Inv) {item : T} {bottom top : ℕ}
    {newArray : CircularArray T} (ho : s.owner = .storing item bottom top newArray) :
    ({ s with
      arrays := Function.update s.arrays (s.array + 1) newArray,
      array := s.array + 1 }.setOwner (.putting item bottom top (s.array + 1))).Explained
      history := by
  obtain ⟨hp, -, hcopied⟩ := hs.knows ho
  refine h.outside (ho ▸ trivial) trivial rfl rfl fun i hlo hhi => ?_
  rw [← hcopied i (hp.le_top.trans hlo) (hp.eq_bottom ▸ hhi)]
  exact congrArg (fun array : CircularArray T => array.slot i) (Function.update_self ..)

/-- The place that the owner writes to is none of an item. -/
theorem Explained.put (h : s.Explained history) (hs : s.Inv) {item : T} {bottom top array : ℕ}
    (ho : s.owner = .putting item bottom top array) (hsize : (s.arrays array).size ≠ 0) :
    ({ s with
      arrays := Function.update s.arrays array ((s.arrays array).write bottom (some item))
      }.setOwner (.publishing item bottom)).Explained history := by
  obtain ⟨hp, rfl, hroom⟩ := hs.knows ho
  have hplaces := threshold_lt_of_sized hs.sized hsize
  have hfree := hroom hsize
  have htop := hp.le_top
  refine h.outside (ho ▸ trivial) trivial rfl rfl fun i hlo hhi => ?_
  have hother : (s.current.write bottom (some item)).slot i = s.current.slot i :=
    slot_write_of_lt _ (hp.eq_bottom ▸ hhi) (by omega)
  rw [← hother]
  exact congrArg (fun array : CircularArray T => array.slot i) (Function.update_self ..)

theorem Explained.publish (h : s.Explained history) (hs : s.Inv) {item : T} {bottom : ℕ}
    (ho : s.owner = .publishing item bottom) :
    ({ s with
      bottom := (bottom + 1) % 2 ^ 64, pushed := s.pushed ++ [item] }.setOwner .idle).Explained
      (history ++ [Event.push (some item)]) := by
  obtain ⟨rfl, hfits, hslot, -⟩ := hs.knows ho
  have hout : OutsidePop s.owner := ho ▸ trivial
  have hle : s.top ≤ s.bottom := last_of_outsidePop hout ▸ hs.le
  have hitems : s.contents = slice s.current.slot s.top s.bottom := by
    rw [contents, last_of_outsidePop hout]
  rw [Explained, hitems, owed_of_outsidePop hout] at h
  have hpush := h.push (some item)
  rw [← hslot, ← slice_concat hle] at hpush
  rw [hslot, ← Nat.mod_eq_of_lt hfits] at hpush
  exact hpush

theorem Explained.popStore (h : s.Explained history) (hs : s.Inv) {bottom array : ℕ}
    (ho : s.owner = .popStore bottom array) :
    ({ s with bottom := bottom }.setOwner (.popTop bottom array)).Explained history := by
  obtain ⟨hbottom, -⟩ := hs.knows ho
  have hout : OutsidePop s.owner := ho ▸ trivial
  have hlast : s.last = bottom + 1 := (last_of_outsidePop hout).trans hbottom
  have hitems : ({ s with bottom := bottom }.setOwner (.popTop bottom array) : Shared ι T).contents =
      s.contents := contents_congr rfl hlast.symm fun _ _ _ => rfl
  rw [Explained, owed_of_outsidePop hout] at h
  rw [Explained, hitems]
  exact h

/-- The load of `_top` by a `pop`, with an item at `_bottom`: unless it is the last one, it is the
owner's from here on. -/
theorem Explained.popSome (h : s.Explained history) {bottom array : ℕ}
    (ho : s.owner = .popTop bottom array) (harray : array = s.array) (hitems : s.top ≤ bottom) :
    (s.setOwner (.popGet bottom array s.top)).Explained
      (history ++ (if s.top < bottom then [Event.pop (some ((s.arrays array).slot bottom))] else [])) := by
  have hlast : s.last = bottom + 1 := by simp [last, ho]
  have howed : s.owed = none := by simp [owed, ho]
  rw [Explained, howed, contents, hlast, slice_concat hitems] at h
  rcases Nat.lt_or_eq_of_le hitems with hmore | rfl
  · rw [if_pos hmore]
    have hlast' : (s.setOwner (.popGet bottom array s.top)).last = bottom := by
      simp [last, Shared.setOwner, hmore]
    have howed' : (s.setOwner (.popGet bottom array s.top)).owed =
        some (some (s.current.slot bottom)) := by
      simp [owed, Shared.setOwner, hmore, harray, current]
    rw [Explained, howed', contents, hlast', harray]
    exact h.pop _
  · rw [if_neg (Nat.lt_irrefl _), List.append_nil]
    have hlast' : (s.setOwner (.popGet s.top array s.top)).last = s.top + 1 := by
      simp [last, Shared.setOwner]
    have howed' : (s.setOwner (.popGet s.top array s.top)).owed = none := by
      simp [owed, Shared.setOwner]
    rw [Explained, howed', contents, hlast']
    change Explains history (slice s.current.slot s.top (s.top + 1)) none
    rw [slice_concat le_rfl]
    exact h

/-- A `pop` that finds nothing takes effect on an empty deque. -/
theorem Explained.popEmpty (h : s.Explained history) {bottom : ℕ} (hlast : s.last = bottom + 1)
    (howed : s.owed = none) (hempty : bottom < s.top) :
    (s.setOwner (.popRestore bottom none)).Explained (history ++ [Event.pop none]) := by
  rw [Explained, howed, contents_eq_nil (hlast ▸ hempty)] at h
  have hempty' : (s.setOwner (.popRestore bottom none)).contents = [] :=
    contents_eq_nil hempty
  rw [Explained, hempty']
  exact h.empty

theorem Explained.popLast (h : s.Explained history) {bottom array : ℕ} {result : Option T}
    (ho : s.owner = .popGet bottom array bottom) :
    (s.setOwner (.popExchange bottom result)).Explained history := by
  have hlast : s.last = bottom + 1 := by simp [last, ho]
  have howed : s.owed = none := by simp [owed, ho]
  have hitems : (s.setOwner (.popExchange bottom result)).contents = s.contents :=
    contents_congr rfl hlast.symm fun _ _ _ => rfl
  rw [Explained, howed] at h
  rw [Explained, hitems]
  exact h

theorem Explained.popMore (h : s.Explained history) (hs : s.Inv) {bottom array top : ℕ}
    (ho : s.owner = .popGet bottom array top) (hne : top ≠ bottom) :
    ({ s with returned := s.returned ++ [(s.arrays array).slot bottom] }.setOwner
      .idle).Explained (history ++ [Event.answer (some ((s.arrays array).slot bottom))]) := by
  obtain ⟨hbottom, -, hle, -, -⟩ := hs.knows ho
  have hmore : top < bottom := Nat.lt_of_le_of_ne hle hne
  have hlast : s.last = s.bottom := by simp [last, ho, hmore, hbottom]
  have howed : s.owed = some (some ((s.arrays array).slot bottom)) := by simp [owed, ho, hmore]
  rw [Explained, howed, contents, hlast] at h
  exact h.answer _

/-- The owner wins the race for the last item. -/
theorem Explained.popWin (h : s.Explained history) (hs : s.Inv) {result : Option T}
    (ho : s.owner = .popExchange s.top result) :
    ({ s with top := (s.top + 1) % 2 ^ 64 }.setOwner (.popRestore s.top (some result))).Explained
      (history ++ [Event.pop (some result)]) := by
  obtain ⟨-, rfl, -⟩ := hs.knows ho
  have hlast : s.last = s.top + 1 := by simp [last, ho]
  have howed : s.owed = none := by simp [owed, ho]
  have hnext : (s.top + 1) % 2 ^ 64 = s.top + 1 := Nat.mod_eq_of_lt (hlast ▸ hs.bound)
  rw [Explained, howed, contents, hlast, slice_concat le_rfl, slice_self] at h
  have hempty : ({ s with top := (s.top + 1) % 2 ^ 64 }.setOwner
      (.popRestore s.top (some (s.current.slot s.top))) : Shared ι T).contents = [] :=
    contents_eq_nil hnext.ge
  rw [Explained, hempty]
  exact h.pop _

theorem Explained.restore (h : s.Explained history) (hs : s.Inv) {bottom : ℕ}
    {result : Option (Option T)} (ho : s.owner = .popRestore bottom result) :
    ({ s with
      bottom := (bottom + 1) % 2 ^ 64, returned := s.returned ++ result.toList }.setOwner
      .idle).Explained (history ++ [Event.answer result]) := by
  have hlast : s.last = bottom + 1 := by simp [last, ho]
  have howed : s.owed = some result := by simp [owed, ho]
  have hnext : (bottom + 1) % 2 ^ 64 = s.last := by
    rw [hlast, Nat.mod_eq_of_lt (hlast ▸ hs.bound)]
  rw [Explained, howed] at h
  rw [hnext]
  exact h.answer _

/-- What takes effect, or returns, in the next step of the owner. -/
def ownerEvent (s : Shared ι T) : Option (Event ι (Option T)) :=
  match s.owner with
  | .publishing item _ => some (.push (some item))
  | .popTop bottom array =>
      if s.top < bottom then some (.pop (some ((s.arrays array).slot bottom)))
      else if bottom < s.top then some (.pop none)
      else none
  | .popGet bottom array top =>
      if top = bottom then none else some (.answer (some ((s.arrays array).slot bottom)))
  | .popExchange bottom result => some (.pop (if s.top = bottom then some result else none))
  | .popRestore _ result => some (.answer result)
  | _ => none

theorem Explained.ownerStep (h : s.Explained history) (hs : s.Inv) (hstep : OwnerStep s s') :
    s'.Explained (history ++ s.ownerEvent.toList) := by
  cases hstep with
  | pushBottom item ho | pushTop item bottom ho | grow item bottom top ho hfull hsize
  | throws item bottom top ho | keep item bottom top ho hroom
  | copy item bottom top array newArray i ho hi hsize
  | copied item bottom top array newArray i ho hi | copyCrash item bottom top array newArray i ho
  | putCrash item bottom top array ho | popBottom ho | popArray bottom ho =>
      have hquiet : (s.ownerEvent : Option (Event ι (Option T))) = none := by
        simp [ownerEvent, ho]
      rw [hquiet, Option.toList_none, List.append_nil]
      exact h.moveOn ho trivial trivial
  | store item bottom top newArray ho => simpa [ownerEvent, ho] using h.store hs ho
  | put item bottom top array ho hsize => simpa [ownerEvent, ho] using h.put hs ho hsize
  | publish item bottom ho => simpa [ownerEvent, ho] using h.publish hs ho
  | popStore bottom array ho => simpa [ownerEvent, ho] using h.popStore hs ho
  | popSome bottom array ho hitems =>
      have hevent : s.ownerEvent.toList =
          if s.top < bottom then [Event.pop (some ((s.arrays array).slot bottom))] else [] := by
        by_cases hmore : s.top < bottom <;>
          simp [ownerEvent, ho, hmore, Nat.not_lt.mpr hitems]
      rw [hevent]
      exact h.popSome ho (hs.knows ho).2 hitems
  | popNone bottom array ho hempty =>
      have hlast : s.last = bottom + 1 := by simp [last, ho]
      have howed : s.owed = none := by simp [owed, ho]
      simpa [ownerEvent, ho, hempty, Nat.not_lt.mpr hempty.le] using h.popEmpty hlast howed hempty
  | popLast bottom array ho => simpa [ownerEvent, ho] using h.popLast ho
  | popMore bottom array top ho hne => simpa [ownerEvent, ho, hne] using h.popMore hs ho hne
  | popCrash bottom array top ho hsize =>
      obtain ⟨-, rfl, -, -, hne⟩ := hs.knows ho
      exact absurd hsize hne
  | win result ho => simpa [ownerEvent, ho] using h.popWin hs ho
  | lose bottom result ho htop =>
      have hlast : s.last = bottom + 1 := by simp [last, ho]
      have howed : s.owed = none := by simp [owed, ho]
      have hle : bottom ≤ s.top := (hs.knows ho).2.2
      have hempty : bottom < s.top := Nat.lt_of_le_of_ne hle (Ne.symm htop)
      simpa [ownerEvent, ho, htop] using h.popEmpty hlast howed hempty
  | restore bottom result ho => simpa [ownerEvent, ho] using h.restore hs ho

/-! ## The thieves -/

/-- What takes effect in the next step of a thief. -/
def thiefEvent (s : Shared ι T) (i : ι) : Option (Event ι (Option T)) :=
  match s.thief i with
  | .exchange top result => if s.top = top then some (.steal i result) else none
  | _ => none

section

variable [DecidableEq ι]

/-- The thief takes the oldest item. -/
theorem Explained.stealWin (h : s.Explained history) (hs : s.Inv) {i : ι} {result : Option T}
    (hw : s.thief i = .exchange s.top result) :
    ({ s with
      top := (s.top + 1) % 2 ^ 64, returned := s.returned ++ [result] }.setThief i .idle).Explained
      (history ++ [Event.steal i result]) := by
  have hthief := hs.thief i
  rw [hw] at hthief
  obtain ⟨hlt, rfl⟩ := hthief.2 rfl
  have hbound := hs.bound
  have hnext : (s.top + 1) % 2 ^ 64 = s.top + 1 := Nat.mod_eq_of_lt (by omega)
  rw [Explained, contents, slice_cons hlt] at h
  rw [hnext]
  exact h.steal i _

theorem Explained.stepThief (h : s.Explained history) (hs : s.Inv) {i : ι}
    (hstep : s.stepThief i = some s') : s'.Explained (history ++ (s.thiefEvent i).toList) := by
  cases ThiefStep.of_stepThief hstep with
  | loadTop hw | loadBottom top hw hitems | empty top hw | loadArray top hw | get top array hw
  | crash top array hw =>
      have hquiet : s.thiefEvent i = none := by simp [thiefEvent, hw]
      rw [hquiet, Option.toList_none, List.append_nil]
      exact h
  | win result hw => simpa [thiefEvent, hw] using h.stealWin hs hw
  | lose top result hw =>
      have htop : s.top ≠ top := by
        intro htop
        simp [Shared.stepThief, hw, htop, Shared.setThief] at hstep
      have hquiet : s.thiefEvent i = none := by simp [thiefEvent, hw, htop]
      rw [hquiet, Option.toList_none, List.append_nil]
      exact h

/-! ## Whole runs -/

/-- What takes effect, or returns, in a step. -/
def observe (s : Shared ι T) : Action ι T → Option (Event ι (Option T))
  | .owner => s.ownerEvent
  | .thief i => s.thiefEvent i
  | .push _ | .pop | .steal _ => none

/-- The history is one of a sequential deque that holds what the queue holds, with the pushes that
have stored `_bottom` and the results that were handed out. -/
structure Linearized (s : Shared ι T) (history : List (Event ι (Option T))) : Prop where
  explains : s.Explained history
  pushed : history.filterMap Event.pushed = s.pushed.map some
  returned : history.filterMap Event.returned = s.returned

theorem Explained.step (h : s.Explained history) (hs : s.Inv) {a : Action ι T}
    (hstep : s.step a = some s') : s'.Explained (history ++ (s.observe a).toList) := by
  have hrule := step_cases hstep
  cases hrule with
  | push item ho | pop ho =>
      rw [observe, Option.toList_none, List.append_nil]
      exact h.moveOn ho trivial trivial
  | owner next hnext => exact h.ownerStep hs hnext
  | steal i hw =>
      rw [observe, Option.toList_none, List.append_nil]
      exact h
  | thief i next hnext => exact h.stepThief hs hstep

omit [DecidableEq ι] in
theorem ownerStep_records (hs : s.Inv) (hstep : OwnerStep s s') :
    s'.pushed.map some = s.pushed.map some ++ (s.ownerEvent : Option
      (Event ι (Option T))).toList.filterMap Event.pushed ∧
    s'.returned = s.returned ++ (s.ownerEvent : Option
      (Event ι (Option T))).toList.filterMap Event.returned := by
  cases hstep with
  | popSome bottom array ho hitems =>
      by_cases hmore : s.top < bottom <;>
        simp [ownerEvent, ho, hmore, Nat.not_lt.mpr hitems, Shared.setOwner, Event.pushed,
          Event.returned, List.filterMap_cons]
  | popNone bottom array ho hempty =>
      simp [ownerEvent, ho, hempty, Nat.not_lt.mpr hempty.le, Shared.setOwner, Event.pushed,
        Event.returned, List.filterMap_cons]
  | popMore bottom array top ho hne =>
      simp [ownerEvent, ho, hne, Shared.setOwner, Event.pushed, Event.returned,
        List.filterMap_cons]
  | popCrash bottom array top ho hsize =>
      obtain ⟨-, rfl, -, -, hne⟩ := hs.knows ho
      exact absurd hsize hne
  | restore bottom result ho =>
      cases result <;>
        simp [ownerEvent, ho, Shared.setOwner, Event.pushed, Event.returned, List.filterMap_cons]
  | _ =>
      simp [ownerEvent, *, Shared.setOwner, Event.pushed, Event.returned, List.filterMap_cons]

theorem stepThief_records {i : ι} (hstep : s.stepThief i = some s') :
    s'.pushed.map some = s.pushed.map some ++
      (s.thiefEvent i).toList.filterMap Event.pushed ∧
    s'.returned = s.returned ++ (s.thiefEvent i).toList.filterMap Event.returned := by
  cases ThiefStep.of_stepThief hstep with
  | lose top result hw =>
      have htop : s.top ≠ top := by
        intro htop
        simp [Shared.stepThief, hw, htop, Shared.setThief] at hstep
      simp [thiefEvent, hw, htop, Shared.setThief]
  | _ =>
      simp [thiefEvent, *, Shared.setThief, Event.pushed, Event.returned, List.filterMap_cons]

theorem step_records (hs : s.Inv) {a : Action ι T} (hstep : s.step a = some s') :
    s'.pushed.map some = s.pushed.map some ++ (s.observe a).toList.filterMap Event.pushed ∧
    s'.returned = s.returned ++ (s.observe a).toList.filterMap Event.returned := by
  cases step_cases hstep with
  | push item ho | pop ho | steal i hw =>
      simp [observe, Shared.setOwner, Shared.setThief]
  | owner next hnext => exact ownerStep_records hs hnext
  | thief i next hnext => exact stepThief_records hstep

theorem Linearized.step (h : s.Linearized history) (hs : s.Inv) {a : Action ι T}
    (hstep : s.step a = some s') : s'.Linearized (history ++ (s.observe a).toList) := by
  obtain ⟨hpushed, hreturned⟩ := step_records hs hstep
  refine ⟨h.explains.step hs hstep, ?_, ?_⟩
  · rw [List.filterMap_append, h.pushed, hpushed]
  · rw [List.filterMap_append, h.returned, hreturned]

variable {initialSize : ℕ} {q : Queue T}

omit [DecidableEq ι] in
theorem linearized_init (hnew : Queue.new initialSize = .ok q) :
    (init q : Shared ι T).Linearized [] := by
  have hempty : (init q : Shared ι T).contents = [] := by
    rw [Queue.new, CircularArray.new] at hnew
    split_ifs at hnew
    · cases hnew
      exact slice_self
    · cases hnew
  refine ⟨?_, rfl, rfl⟩
  rw [Explained, hempty]
  exact .nil

theorem Reaches.linearized (hsize : initialSize < 2 ^ 64) (hnew : Queue.new initialSize = .ok q)
    (hs : ((machine ι q).recorded observe).Reaches (fun s => s.1.Allowed) (s, history)) :
    s.Linearized history :=
  (hs.recorded (I := Inv) (P := Linearized) (fun _ hreach => Reaches.inv hsize hnew hreach)
    (linearized_init hnew) fun _ _ _ _ hinv hlin _ hstep => hlin.step hinv hstep).2

/-- The stolen items and then those still there are in the order in which they were pushed, and
every `pop` returns what it took. -/
theorem stolen_in_order (hsize : initialSize < 2 ^ 64) (hnew : Queue.new initialSize = .ok q)
    (hs : ((machine ι q).recorded observe).Reaches (fun s => s.1.Allowed) (s, history)) :
    (history.filterMap Event.stolen ++ s.contents).Sublist (s.pushed.map some) ∧
      history.filterMap Event.popped = history.filterMap Event.answered ++ s.owed.toList := by
  have h := Reaches.linearized hsize hnew hs
  refine ⟨?_, h.explains.answers⟩
  rw [← h.pushed]
  exact h.explains.stolen_sublist

theorem stolen_in_order_across_resize :
    ∃ (q : Queue ℕ) (s : Shared Unit ℕ) (history : List (Event Unit (Option ℕ))),
      Queue.new 2 = .ok q ∧
      ((machine Unit q).recorded observe).run (init q, []) stealAcrossResize = some (s, history) ∧
      s.pushed = [5, 6] ∧
      (history.filterMap Event.stolen ++ s.contents).Sublist ([5, 6].map some) := by
  have hmeets : ((machine Unit ⟨0, 0, ⟨2, fun _ => none⟩⟩).recorded observe).Meets
      (fun s => s.1.Allowed) (init ⟨0, 0, ⟨2, fun _ => none⟩⟩, []) stealAcrossResize := by
    decide +kernel
  have hany : ((((machine Unit ⟨0, 0, ⟨2, fun _ => none⟩⟩).recorded observe).run
      (init ⟨0, 0, ⟨2, fun _ => none⟩⟩, []) stealAcrossResize).any fun s =>
        decide (s.1.pushed = [5, 6])) = true := by
    decide +kernel
  obtain ⟨⟨s, history⟩, hrun, h⟩ := (Option.any_eq_true _ _).mp hany
  have hpushed : s.pushed = [5, 6] := of_decide_eq_true h
  refine ⟨⟨0, 0, ⟨2, fun _ => none⟩⟩, s, history, rfl, hrun, hpushed, ?_⟩
  have hnew : Queue.new 2 = .ok (⟨0, 0, ⟨2, fun _ => none⟩⟩ : Queue ℕ) := rfl
  have horder := stolen_in_order (by decide) hnew (Machine.Reaches.init.run_of_meets hmeets hrun)
  rw [hpushed] at horder
  exact horder.1

end

end CommonLib.LockFreeWorkQueue.Shared
