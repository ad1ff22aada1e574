import CommonLib.Model.WorkStealing
import CommonLib.Verification.LockFreeWorkQueue.Ring

/-! The steps of the owner and of the thieves as local rules. -/

namespace CommonLib.LockFreeWorkQueue.Shared

variable {ι T : Type*} {s s' : Shared ι T}

/-- The rules by which the owner moves, one for each branch of the code. -/
inductive OwnerStep (s : Shared ι T) : Shared ι T → Prop
  | pushBottom (item) (ho : s.owner = .pushBottom item) :
      OwnerStep s (s.setOwner (.pushTop item s.bottom))
  | pushTop (item bottom) (ho : s.owner = .pushTop item bottom) :
      OwnerStep s (s.setOwner (.pushArray item bottom s.top))
  | grow (item bottom top) (ho : s.owner = .pushArray item bottom top)
      (hfull : s.current.threshold ≤ distance bottom top)
      (hsize : s.current.doubled < 2 ^ 63) :
      OwnerStep s (s.setOwner
        (.copying item bottom top s.array ⟨s.current.doubled, fun _ => none⟩ top))
  | throws (item bottom top) (ho : s.owner = .pushArray item bottom top) :
      OwnerStep s (s.setOwner .idle)
  | keep (item bottom top) (ho : s.owner = .pushArray item bottom top)
      (hroom : distance bottom top < s.current.threshold) :
      OwnerStep s (s.setOwner (.putting item bottom top s.array))
  | copy (item bottom top array newArray i)
      (ho : s.owner = .copying item bottom top array newArray i) (hi : i < bottom)
      (hsize : newArray.size ≠ 0) :
      OwnerStep s (s.setOwner (.copying item bottom top array
        (newArray.write i ((s.arrays array).slot i)) (i + 1)))
  | copyCrash (item bottom top array newArray i)
      (ho : s.owner = .copying item bottom top array newArray i) :
      OwnerStep s (s.setOwner .crashed)
  | copied (item bottom top array newArray i)
      (ho : s.owner = .copying item bottom top array newArray i) (hi : bottom ≤ i) :
      OwnerStep s (s.setOwner (.storing item bottom top newArray))
  | store (item bottom top newArray) (ho : s.owner = .storing item bottom top newArray) :
      OwnerStep s ({ s with
        arrays := Function.update s.arrays (s.array + 1) newArray,
        array := s.array + 1 }.setOwner (.putting item bottom top (s.array + 1)))
  | put (item bottom top array) (ho : s.owner = .putting item bottom top array)
      (hsize : (s.arrays array).size ≠ 0) :
      OwnerStep s ({ s with
        arrays := Function.update s.arrays array ((s.arrays array).write bottom (some item))
        }.setOwner (.publishing item bottom))
  | putCrash (item bottom top array) (ho : s.owner = .putting item bottom top array) :
      OwnerStep s (s.setOwner .crashed)
  | publish (item bottom) (ho : s.owner = .publishing item bottom) :
      OwnerStep s ({ s with
        bottom := (bottom + 1) % 2 ^ 64, pushed := s.pushed ++ [item] }.setOwner .idle)
  | popBottom (ho : s.owner = .popBottom) :
      OwnerStep s (s.setOwner (.popArray (distance s.bottom 1)))
  | popArray (bottom) (ho : s.owner = .popArray bottom) :
      OwnerStep s (s.setOwner (.popStore bottom s.array))
  | popStore (bottom array) (ho : s.owner = .popStore bottom array) :
      OwnerStep s ({ s with bottom := bottom }.setOwner (.popTop bottom array))
  | popSome (bottom array) (ho : s.owner = .popTop bottom array) (hitems : s.top ≤ bottom) :
      OwnerStep s (s.setOwner (.popGet bottom array s.top))
  | popNone (bottom array) (ho : s.owner = .popTop bottom array) (hempty : bottom < s.top) :
      OwnerStep s (s.setOwner (.popRestore bottom none))
  | popLast (bottom array) (ho : s.owner = .popGet bottom array bottom) :
      OwnerStep s (s.setOwner (.popExchange bottom ((s.arrays array).slot bottom)))
  | popMore (bottom array top) (ho : s.owner = .popGet bottom array top) (hne : top ≠ bottom) :
      OwnerStep s ({ s with
        returned := s.returned ++ [(s.arrays array).slot bottom] }.setOwner .idle)
  | popCrash (bottom array top) (ho : s.owner = .popGet bottom array top)
      (hsize : (s.arrays array).size = 0) : OwnerStep s (s.setOwner .crashed)
  | win (result) (ho : s.owner = .popExchange s.top result) :
      OwnerStep s ({ s with top := (s.top + 1) % 2 ^ 64 }.setOwner
        (.popRestore s.top (some result)))
  | lose (bottom result) (ho : s.owner = .popExchange bottom result) (htop : s.top ≠ bottom) :
      OwnerStep s (s.setOwner (.popRestore bottom none))
  | restore (bottom result) (ho : s.owner = .popRestore bottom result) :
      OwnerStep s ({ s with
        bottom := (bottom + 1) % 2 ^ 64, returned := s.returned ++ result.toList }.setOwner .idle)

variable [DecidableEq ι]

/-- The rules by which a thief moves. -/
inductive ThiefStep (s : Shared ι T) (i : ι) : Shared ι T → Prop
  | loadTop (hw : s.thief i = .loadTop) : ThiefStep s i (s.setThief i (.loadBottom s.top))
  | loadBottom (top) (hw : s.thief i = .loadBottom top) (hitems : top < s.bottom) :
      ThiefStep s i (s.setThief i (.loadArray top))
  | empty (top) (hw : s.thief i = .loadBottom top) : ThiefStep s i (s.setThief i .idle)
  | loadArray (top) (hw : s.thief i = .loadArray top) :
      ThiefStep s i (s.setThief i (.get top s.array))
  | get (top array) (hw : s.thief i = .get top array) :
      ThiefStep s i (s.setThief i (.exchange top ((s.arrays array).slot top)))
  | crash (top array) (hw : s.thief i = .get top array) : ThiefStep s i (s.setThief i .crashed)
  | win (result) (hw : s.thief i = .exchange s.top result) :
      ThiefStep s i ({ s with
        top := (s.top + 1) % 2 ^ 64, returned := s.returned ++ [result] }.setThief i .idle)
  | lose (top result) (hw : s.thief i = .exchange top result) :
      ThiefStep s i (s.setThief i .idle)

inductive Step (s : Shared ι T) : Action ι T → Shared ι T → Prop
  | push (item) (ho : s.owner = .idle) : Step s (.push item) (s.setOwner (.pushBottom item))
  | pop (ho : s.owner = .idle) : Step s .pop (s.setOwner .popBottom)
  | owner (next) (h : OwnerStep s next) : Step s .owner next
  | steal (i) (hw : s.thief i = .idle) : Step s (.steal i) (s.setThief i .loadTop)
  | thief (i next) (h : ThiefStep s i next) : Step s (.thief i) next

omit [DecidableEq ι] in
theorem OwnerStep.of_stepPush (h : s.stepPush = some s') : OwnerStep s s' := by
  unfold stepPush at h
  split at h
  · rename_i item ho
    cases h
    exact .pushBottom item ho
  · rename_i item bottom ho
    cases h
    exact .pushTop item bottom ho
  · rename_i item bottom top ho
    split at h
    · rename_i hfull
      by_cases hsize : s.current.doubled < 2 ^ 63
      · rw [CircularArray.new, if_pos hsize] at h
        cases h
        exact .grow item bottom top ho hfull hsize
      · rw [CircularArray.new, if_neg hsize] at h
        cases h
        exact .throws item bottom top ho
    · rename_i hroom
      cases h
      exact .keep item bottom top ho (Nat.not_le.mp hroom)
  · rename_i item bottom top array newArray i ho
    split at h
    · rename_i hi
      by_cases hsize : (s.arrays array).size = 0 ∨ newArray.size = 0
      · have hcrash : ∃ f, (s.arrays array).get i >>= newArray.put i = .error f := by
          by_cases hold : (s.arrays array).size = 0
          · exact ⟨.divisionByZero, by rw [CircularArray.get, if_pos hold]; rfl⟩
          · refine ⟨.divisionByZero, ?_⟩
            rw [CircularArray.get_eq hold]
            exact if_pos (hsize.resolve_left hold)
        obtain ⟨f, hf⟩ := hcrash
        rw [hf] at h
        cases h
        exact .copyCrash item bottom top array newArray i ho
      · obtain ⟨hold, hnew⟩ := not_or.mp hsize
        have hcopy : (s.arrays array).get i >>= newArray.put i =
            .ok (newArray.write i ((s.arrays array).slot i)) := by
          rw [CircularArray.get_eq hold]
          exact CircularArray.put_eq hnew i _
        rw [hcopy] at h
        cases h
        exact .copy item bottom top array newArray i ho hi hnew
    · rename_i hi
      cases h
      exact .copied item bottom top array newArray i ho (Nat.not_lt.mp hi)
  · rename_i item bottom top newArray ho
    cases h
    exact .store item bottom top newArray ho
  · rename_i item bottom top array ho
    by_cases hsize : (s.arrays array).size = 0
    · rw [CircularArray.put, if_pos hsize] at h
      cases h
      exact .putCrash item bottom top array ho
    · rw [CircularArray.put_eq hsize] at h
      cases h
      exact .put item bottom top array ho hsize
  · rename_i item bottom ho
    cases h
    exact .publish item bottom ho
  · cases h

omit [DecidableEq ι] in
theorem OwnerStep.of_stepPop (h : s.stepPop = some s') : OwnerStep s s' := by
  unfold stepPop at h
  split at h
  · rename_i ho
    cases h
    exact .popBottom ho
  · rename_i bottom ho
    cases h
    exact .popArray bottom ho
  · rename_i bottom array ho
    cases h
    exact .popStore bottom array ho
  · rename_i bottom array ho
    cases h
    split
    · exact .popSome bottom array ho ‹_›
    · exact .popNone bottom array ho (Nat.not_le.mp ‹_›)
  · rename_i bottom array top ho
    by_cases hsize : (s.arrays array).size = 0
    · rw [CircularArray.get, if_pos hsize] at h
      cases h
      exact .popCrash bottom array top ho hsize
    · rw [CircularArray.get_eq hsize] at h
      simp only at h
      split at h
      · rename_i heq
        cases h
        subst heq
        exact .popLast top array ho
      · cases h
        exact .popMore bottom array top ho ‹_›
  · rename_i bottom result ho
    split at h
    · rename_i heq
      cases h
      subst heq
      exact .win result ho
    · cases h
      exact .lose bottom result ho ‹_›
  · rename_i bottom result ho
    cases h
    exact .restore bottom result ho
  · cases h

theorem ThiefStep.of_stepThief {i : ι} (h : s.stepThief i = some s') : ThiefStep s i s' := by
  unfold stepThief at h
  split at h
  · cases h
  · cases h
    exact .loadTop ‹_›
  · rename_i top hw
    cases h
    split
    · exact .loadBottom top hw ‹_›
    · exact .empty top hw
  · rename_i top hw
    cases h
    exact .loadArray top hw
  · rename_i top array hw
    by_cases hsize : (s.arrays array).size = 0
    · rw [CircularArray.get, if_pos hsize] at h
      cases h
      exact .crash top array hw
    · rw [CircularArray.get_eq hsize] at h
      cases h
      exact .get top array hw
  · rename_i top result hw
    split at h
    · rename_i heq
      cases h
      subst heq
      exact .win result hw
    · cases h
      exact .lose top result hw
  · cases h

/-- Every enabled action moves the queue by one of the rules. -/
theorem step_cases {a : Action ι T} (h : s.step a = some s') : Step s a s' := by
  cases a with
  | push item =>
      simp only [step] at h
      split at h
      · cases h
        exact .push item ‹_›
      · cases h
  | pop =>
      simp only [step] at h
      split at h
      · cases h
        exact .pop ‹_›
      · cases h
  | owner =>
      rcases Option.or_eq_some_iff.mp h with hpush | ⟨-, hpop⟩
      · exact .owner s' (.of_stepPush hpush)
      · exact .owner s' (.of_stepPop hpop)
  | steal i =>
      simp only [step] at h
      split at h
      · cases h
        exact .steal i ‹_›
      · cases h
  | thief i => exact .thief i s' (.of_stepThief h)

end CommonLib.LockFreeWorkQueue.Shared
