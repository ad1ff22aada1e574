import CommonLib.Verification.WorkStealing.Invariant
import Mathlib.Data.List.Perm.Subperm

/-! # Every item is handed out at most once

One lemma for each thing that the owner and the thieves do to the shared state. -/

namespace CommonLib.LockFreeWorkQueue.Shared

open CircularArray

variable {ι T : Type*} {s s' : Shared ι T}

/-! ## The owner -/

/-- Steps that only move the owner on. -/
theorem Inv.setOwner (h : s.Inv) {pc : Owner T} (howner : s.OwnerInv pc)
    (hlast : (s.setOwner pc).last = s.last) (hhand : (s.setOwner pc).hand = s.hand) :
    (s.setOwner pc).Inv where
  le := hlast ▸ h.le
  bound := hlast ▸ h.bound
  sized := h.sized
  room := hlast ▸ h.room
  owner := howner.of_same le_rfl (fun _ _ _ => rfl) rfl rfl rfl
  thief i := (h.thief i).kept ⟨rfl, le_rfl, fun hitems => hlast ▸ hitems, fun _ => rfl,
    fun _ _ _ => rfl⟩
  items := by
    rw [hlast, hhand]
    exact h.items
  started hpushed := hlast ▸ h.started hpushed

theorem Inv.moveOn (h : s.Inv) {pc pc' : Owner T} (ho : s.owner = pc) (hpc : OutsidePop pc)
    (hpc' : OutsidePop pc') (howner : s.OwnerInv pc') : (s.setOwner pc').Inv := by
  have hpc : OutsidePop s.owner := ho ▸ hpc
  refine h.setOwner howner ?_ ?_
  · exact (last_of_outsidePop (s := s.setOwner pc') hpc').trans (last_of_outsidePop hpc).symm
  · exact (hand_of_outsidePop (s := s.setOwner pc') hpc').trans (hand_of_outsidePop hpc).symm

theorem Inv.grow (h : s.Inv) {item : T} {bottom top : ℕ}
    (ho : s.owner = .pushArray item bottom top) (hsize : s.current.doubled < 2 ^ 63) :
    (s.setOwner (.copying item bottom top s.array ⟨s.current.doubled, fun _ => none⟩ top)).Inv := by
  have hp : s.Pushing bottom top := h.knows ho
  have hlarger : Larger s.current ⟨s.current.doubled, fun _ => none⟩ :=
    larger_of_doubled h.sized hsize rfl
  exact h.moveOn ho trivial trivial ⟨hp, rfl, ⟨le_rfl, hp.le⟩, hlarger, copied_self top⟩

theorem Inv.keep (h : s.Inv) {item : T} {bottom top : ℕ}
    (ho : s.owner = .pushArray item bottom top)
    (hroom : distance bottom top < s.current.threshold) :
    (s.setOwner (.putting item bottom top s.array)).Inv := by
  have hp : s.Pushing bottom top := h.knows ho
  have hdistance : distance bottom top = bottom - top := by
    have hfits := hp.fits
    have hle := hp.le
    rw [distance]
    omega
  exact h.moveOn ho trivial trivial ⟨hp, rfl, fun _ => hdistance ▸ hroom⟩

theorem Inv.copy (h : s.Inv) {item : T} {bottom top array i : ℕ} {newArray : CircularArray T}
    (ho : s.owner = .copying item bottom top array newArray i) (hi : i < bottom)
    (hsize : newArray.size ≠ 0) :
    (s.setOwner (.copying item bottom top array
      (newArray.write i ((s.arrays array).slot i)) (i + 1))).Inv := by
  obtain ⟨hp, rfl, ⟨hlo, -⟩, hlarger, hcopied⟩ := h.knows ho
  have hroom := hp.room
  have hlt := hlarger.lt hsize
  have hplaces := threshold_lt_of_sized hlarger.sized hsize
  exact h.moveOn ho trivial trivial ⟨hp, rfl, ⟨Nat.le_succ_of_le hlo, hi⟩,
    ⟨hlarger.sized, hlarger.le, hlarger.lt⟩, hcopied.write (by omega)⟩

/-- The slots of the items stay as they are, in a current array that is no smaller. -/
theorem Inv.of_slots (h : s.Inv) (hkept : Kept s s') (hthief : s'.thief = s.thief)
    (howner : s'.OwnerInv s'.owner) (hlast : s'.last = s.last) (hhand : s'.hand = s.hand)
    (hsized : Sized s'.current.size) (hthreshold : s.current.threshold ≤ s'.current.threshold)
    (hslot : ∀ i, s.top ≤ i → i < s.last → s'.current.slot i = s.current.slot i)
    (hpushed : s'.pushed = s.pushed) (hreturned : s'.returned = s.returned) : s'.Inv where
  le := by
    rw [hkept.top, hlast]
    exact h.le
  bound := hlast ▸ h.bound
  sized := hsized
  room := by
    rw [hkept.top, hlast]
    exact h.room.trans hthreshold
  owner := howner
  thief i := by
    rw [hthief]
    exact (h.thief i).kept hkept
  items := by
    rw [hpushed, hreturned, hkept.top, hlast, hhand, slice_congr hslot]
    exact h.items
  started := by
    rw [hpushed, hlast]
    exact h.started

/-- The new array takes the place of the old one with all items in it. -/
theorem Inv.store (h : s.Inv) {item : T} {bottom top : ℕ} {newArray : CircularArray T}
    (ho : s.owner = .storing item bottom top newArray) :
    ({ s with
      arrays := Function.update s.arrays (s.array + 1) newArray,
      array := s.array + 1 }.setOwner (.putting item bottom top (s.array + 1))).Inv := by
  obtain ⟨hp, hlarger, hcopied⟩ := h.knows ho
  have hlast : s.last = bottom := by simp [last, ho, hp.eq_bottom]
  have hslot : ∀ i, s.top ≤ i → i < s.last → newArray.slot i = s.current.slot i := fun i hlo hhi =>
    hcopied i (hp.le_top.trans hlo) (hlast ▸ hhi)
  have hcurrent : Function.update s.arrays (s.array + 1) newArray (s.array + 1) = newArray :=
    Function.update_self ..
  have hold : ∀ a ≤ s.array, Function.update s.arrays (s.array + 1) newArray a = s.arrays a :=
    fun a ha => Function.update_of_ne (Nat.ne_of_lt (Nat.lt_succ_of_le ha)) ..
  refine h.of_slots ⟨rfl, Nat.le_succ _, fun hitems => ?_, fun hitems => ?_, fun _ a ha => ?_⟩ rfl
    ⟨⟨hp.eq_bottom, hp.fits, hp.le_top, hp.le, ?_⟩, rfl, fun hne => ?_⟩ ?_ ?_ ?_ ?_ ?_ rfl rfl
  · rwa [hlast, hp.eq_bottom] at hitems
  · rw [← hslot s.top le_rfl hitems]
    exact congrArg (·.slot s.top) hcurrent
  · exact congrArg (·.slot s.top) (hold a ha)
  · exact hp.room.trans (by simpa [current, Shared.setOwner] using hlarger.le)
  · have hlt := hlarger.lt (by simpa [current, Shared.setOwner] using hne)
    exact Nat.lt_of_le_of_lt hp.room (by simpa [current, Shared.setOwner] using hlt)
  · simp [last, Shared.setOwner, ho]
  · simp [hand, Shared.setOwner, ho]
  · simpa [current, Shared.setOwner] using hlarger.sized
  · simpa [current, Shared.setOwner] using hlarger.le
  · intro i hlo hhi
    rw [← hslot i hlo hhi]
    exact congrArg (·.slot i) hcurrent

/-- The owner writes above the items. -/
theorem Inv.put (h : s.Inv) {item : T} {bottom top array : ℕ}
    (ho : s.owner = .putting item bottom top array) (hsize : (s.arrays array).size ≠ 0) :
    ({ s with
      arrays := Function.update s.arrays array ((s.arrays array).write bottom (some item))
      }.setOwner (.publishing item bottom)).Inv := by
  obtain ⟨hp, rfl, hroom⟩ := h.knows ho
  have hlast : s.last = bottom := by simp [last, ho, hp.eq_bottom]
  have hplaces := threshold_lt_of_sized h.sized hsize
  have hfree := hroom hsize
  have htop := hp.le_top
  have hcurrent : Function.update s.arrays s.array (s.current.write bottom (some item)) s.array =
      s.current.write bottom (some item) :=
    Function.update_self ..
  have hslot : ∀ i, s.top ≤ i → i < s.last →
      (s.current.write bottom (some item)).slot i = s.current.slot i := fun i hlo hhi =>
    slot_write_of_lt _ (hlast ▸ hhi) (by omega)
  refine h.of_slots ⟨rfl, le_rfl, fun hitems => ?_, fun hitems => ?_, fun hitems a ha => ?_⟩ rfl
    ⟨hp.eq_bottom, hp.fits, ?_, ?_⟩ ?_ ?_ ?_ ?_ ?_ rfl rfl
  · rwa [hlast, hp.eq_bottom] at hitems
  · rw [← hslot s.top le_rfl hitems]
    exact congrArg (·.slot s.top) hcurrent
  · by_cases heq : a = s.array
    · subst heq
      rw [← current, ← hslot s.top le_rfl hitems]
      exact congrArg (·.slot s.top) hcurrent
    · have hother : Function.update s.arrays s.array (s.current.write bottom (some item)) a =
          s.arrays a := Function.update_of_ne heq ..
      exact congrArg (·.slot s.top) hother
  · exact (congrArg (·.slot bottom) hcurrent).trans (slot_write_self bottom (some item))
  · have hthreshold : bottom - s.top < s.current.threshold := by omega
    simpa [current, Shared.setOwner] using hthreshold
  · simp [last, Shared.setOwner, ho, hp.eq_bottom]
  · simp [hand, Shared.setOwner, ho]
  · simpa [current, Shared.setOwner] using h.sized
  · simp [current, Shared.setOwner]
  · intro i hlo hhi
    rw [← hslot i hlo hhi]
    exact congrArg (·.slot i) hcurrent

/-- The item becomes the newest one. -/
theorem Inv.publish (h : s.Inv) {item : T} {bottom : ℕ} (ho : s.owner = .publishing item bottom) :
    ({ s with
      bottom := (bottom + 1) % 2 ^ 64, pushed := s.pushed ++ [item] }.setOwner .idle).Inv := by
  obtain ⟨rfl, hfits, hslot, hroom⟩ := h.knows ho
  have hlast : s.last = s.bottom := by simp [last, ho]
  have hhand : s.hand = [] := by simp [hand, ho]
  have hle : s.top ≤ s.bottom := hlast ▸ h.le
  have hnext : (s.bottom + 1) % 2 ^ 64 = s.bottom + 1 := Nat.mod_eq_of_lt hfits
  have hitems := h.items
  rw [hlast, hhand, List.append_nil] at hitems
  rw [hnext]
  exact {
    le := Nat.le_succ_of_le hle
    bound := hfits
    sized := h.sized
    room := by
      change s.bottom + 1 - s.top ≤ s.current.threshold
      omega
    owner := trivial
    thief := fun i => (h.thief i).kept ⟨rfl, le_rfl, fun _ => Nat.lt_succ_of_le hle, fun _ => rfl,
      fun _ _ _ => rfl⟩
    items := by
      change (s.returned ++ (slice s.current.slot s.top (s.bottom + 1) ++ [])).Perm
        ((s.pushed ++ [item]).map some)
      rw [slice_concat hle, hslot, List.append_nil, List.map_append, ← List.append_assoc]
      exact hitems.append_right _
    started := fun _ => Nat.succ_pos _ }

/-- `_bottom` goes down, and the item above it still counts. -/
theorem Inv.popStore (h : s.Inv) {bottom array : ℕ} (ho : s.owner = .popStore bottom array) :
    ({ s with bottom := bottom }.setOwner (.popTop bottom array)).Inv := by
  obtain ⟨hbottom, harray⟩ := h.knows ho
  have hlast : s.last = bottom + 1 := by simp [last, ho, hbottom]
  refine h.of_slots ⟨rfl, le_rfl, fun hitems => ?_, fun _ => rfl, fun _ _ _ => rfl⟩ rfl
    ⟨rfl, harray⟩ hlast.symm ?_ h.sized le_rfl (fun _ _ _ => rfl) rfl rfl
  · rw [hlast] at hitems
    exact hitems
  · simp [hand, Shared.setOwner, ho]

/-- With more than one item left, the owner has the newest one from its load of `_top` on: no thief
that knows this `_top` can get there. -/
theorem Inv.popSome (h : s.Inv) {bottom array : ℕ} (ho : s.owner = .popTop bottom array)
    (hitems : s.top ≤ bottom) : (s.setOwner (.popGet bottom array s.top)).Inv := by
  obtain ⟨hbottom, rfl⟩ := h.knows ho
  have hlast : s.last = bottom + 1 := by simp [last, ho]
  have hhand : s.hand = [] := by simp [hand, ho]
  have hsize : s.current.size ≠ 0 := by
    intro hzero
    have hroom := h.room
    rw [hlast, threshold_of_zero hzero] at hroom
    omega
  have howner : s.OwnerInv (.popGet bottom s.array s.top) :=
    ⟨hbottom, rfl, hitems, le_rfl, hsize⟩
  rcases Nat.lt_or_eq_of_le hitems with hmore | hone
  · have hlast' : (s.setOwner (.popGet bottom s.array s.top)).last = bottom := by
      simp [last, Shared.setOwner, hmore]
    have hhand' : (s.setOwner (.popGet bottom s.array s.top)).hand = [s.current.slot bottom] := by
      simp [hand, Shared.setOwner, hmore, current]
    have hbound := h.bound
    have hroom := h.room
    rw [hlast] at hbound hroom
    exact {
      le := hlast'.symm ▸ hitems
      bound := hlast'.symm ▸ Nat.lt_of_succ_lt hbound
      sized := h.sized
      room := by
        rw [hlast']
        exact (Nat.sub_le_sub_right (Nat.le_succ bottom) s.top).trans hroom
      owner := howner.of_same le_rfl (fun _ _ _ => rfl) rfl rfl rfl
      thief := fun i => (h.thief i).kept ⟨rfl, le_rfl, fun _ => hlast'.symm ▸ hmore, fun _ => rfl,
        fun _ _ _ => rfl⟩
      items := by
        have hperm := h.items
        rw [hlast, hhand, slice_concat hitems, List.append_nil] at hperm
        rw [hlast', hhand']
        exact hperm
      started := fun _ => hlast'.symm ▸ Nat.zero_lt_of_lt hmore }
  · refine h.setOwner howner ?_ ?_
    · simp [last, Shared.setOwner, ho, hone]
    · simp [hand, Shared.setOwner, ho, hone]

theorem Inv.popNone (h : s.Inv) {bottom array : ℕ} (ho : s.owner = .popTop bottom array)
    (hempty : bottom < s.top) : (s.setOwner (.popRestore bottom none)).Inv := by
  obtain ⟨hbottom, -⟩ := h.knows ho
  have hle := h.le
  have hlast : s.last = bottom + 1 := by simp [last, ho]
  refine h.setOwner ⟨hbottom, by omega⟩ ?_ ?_
  · simp [last, Shared.setOwner, ho]
  · simp [hand, Shared.setOwner, ho]

theorem Inv.popLast (h : s.Inv) {bottom array : ℕ} (ho : s.owner = .popGet bottom array bottom) :
    (s.setOwner (.popExchange bottom ((s.arrays array).slot bottom))).Inv := by
  obtain ⟨hbottom, rfl, -, hle, -⟩ := h.knows ho
  refine h.setOwner ⟨hbottom, rfl, hle⟩ ?_ ?_
  · simp [last, Shared.setOwner, ho]
  · simp [hand, Shared.setOwner, ho]

/-- What was in the owner's hand is returned. -/
theorem Inv.popMore (h : s.Inv) {bottom array top : ℕ} (ho : s.owner = .popGet bottom array top)
    (hne : top ≠ bottom) :
    ({ s with returned := s.returned ++ [(s.arrays array).slot bottom] }.setOwner .idle).Inv := by
  obtain ⟨hbottom, rfl, hle, -, -⟩ := h.knows ho
  have hmore : top < bottom := Nat.lt_of_le_of_ne hle hne
  have hlast : s.last = s.bottom := by simp [last, ho, hmore, hbottom]
  have hhand : s.hand = [s.current.slot bottom] := by simp [hand, ho, hmore, current]
  have hitems := h.items
  rw [hlast, hhand] at hitems
  exact {
    le := hlast ▸ h.le
    bound := hlast ▸ h.bound
    sized := h.sized
    room := hlast ▸ h.room
    owner := trivial
    thief := fun i => (h.thief i).kept ⟨rfl, le_rfl, fun hlt => hlast ▸ hlt, fun _ => rfl,
      fun _ _ _ => rfl⟩
    items := by
      refine List.Perm.trans ?_ hitems
      change (s.returned ++ [s.current.slot bottom] ++
        (slice s.current.slot s.top s.bottom ++ [])).Perm _
      rw [List.append_nil, List.append_assoc]
      exact List.perm_append_comm.append_left _
    started := fun hpushed => hlast ▸ h.started hpushed }

/-- The owner wins the race for the last item. -/
theorem Inv.popWin (h : s.Inv) {result : Option T} (ho : s.owner = .popExchange s.top result) :
    ({ s with top := (s.top + 1) % 2 ^ 64 }.setOwner (.popRestore s.top (some result))).Inv := by
  obtain ⟨hbottom, rfl, -⟩ := h.knows ho
  have hlast : s.last = s.top + 1 := by simp [last, ho]
  have hhand : s.hand = [] := by simp [hand, ho]
  have hbound := h.bound
  rw [hlast] at hbound
  have hnext : (s.top + 1) % 2 ^ 64 = s.top + 1 := Nat.mod_eq_of_lt hbound
  have hitems := h.items
  rw [hlast, hhand, slice_concat le_rfl, slice_self] at hitems
  rw [hnext]
  exact {
    le := le_rfl
    bound := hbound
    sized := h.sized
    room := by
      change s.top + 1 - (s.top + 1) ≤ s.current.threshold
      omega
    owner := ⟨hbottom, rfl⟩
    thief := fun i => (h.thief i).advance (Nat.lt_succ_self s.top) rfl
    items := by
      change (s.returned ++ (slice s.current.slot (s.top + 1) (s.top + 1) ++
        [s.current.slot s.top])).Perm _
      rw [slice_self]
      exact hitems
    started := fun _ => Nat.succ_pos _ }

/-- A thief was faster, so that nothing is left. -/
theorem Inv.popLose (h : s.Inv) {bottom : ℕ} {result : Option T}
    (ho : s.owner = .popExchange bottom result) (htop : s.top ≠ bottom) :
    (s.setOwner (.popRestore bottom none)).Inv := by
  obtain ⟨hbottom, -, hle⟩ := h.knows ho
  have hlast : s.last = bottom + 1 := by simp [last, ho]
  have hle' := h.le
  refine h.setOwner ⟨hbottom, by omega⟩ ?_ ?_
  · simp [last, Shared.setOwner, ho]
  · simp [hand, Shared.setOwner, ho]

theorem Inv.restore (h : s.Inv) {bottom : ℕ} {result : Option (Option T)}
    (ho : s.owner = .popRestore bottom result) :
    ({ s with
      bottom := (bottom + 1) % 2 ^ 64, returned := s.returned ++ result.toList }.setOwner
      .idle).Inv := by
  have hlast : s.last = bottom + 1 := by simp [last, ho]
  have hhand : s.hand = result.toList := by simp [hand, ho]
  have hnext : (bottom + 1) % 2 ^ 64 = s.last := by rw [hlast, Nat.mod_eq_of_lt (hlast ▸ h.bound)]
  rw [hnext]
  exact {
    le := h.le
    bound := h.bound
    sized := h.sized
    room := h.room
    owner := trivial
    thief := fun i => (h.thief i).kept ⟨rfl, le_rfl, fun hlt => hlt, fun _ => rfl,
      fun _ _ _ => rfl⟩
    items := by
      refine List.Perm.trans ?_ h.items
      change (s.returned ++ result.toList ++ (slice s.current.slot s.top s.last ++ [])).Perm _
      rw [hhand, List.append_nil, List.append_assoc]
      exact List.perm_append_comm.append_left _
    started := h.started }

theorem Inv.ownerStep (h : s.Inv) (hstep : OwnerStep s s') : s'.Inv := by
  cases hstep with
  | pushBottom item ho =>
      have hfits : s.bottom + 1 < 2 ^ 64 := h.knows ho
      exact h.moveOn ho trivial trivial ⟨rfl, hfits⟩
  | pushTop item bottom ho =>
      obtain ⟨rfl, hfits⟩ := h.knows ho
      have hlast : s.last = s.bottom := by simp [last, ho]
      have hle := h.le
      have hroom := h.room
      rw [hlast] at hle hroom
      exact h.moveOn ho trivial trivial ⟨rfl, hfits, le_rfl, hle, hroom⟩
  | grow item bottom top ho hfull hsize => exact h.grow ho hsize
  | throws item bottom top ho => exact h.moveOn ho trivial trivial trivial
  | keep item bottom top ho hroom => exact h.keep ho hroom
  | copy item bottom top array newArray i ho hi hsize => exact h.copy ho hi hsize
  | copied item bottom top array newArray i ho hi =>
      obtain ⟨hp, rfl, hle, hlarger, hcopied⟩ := h.knows ho
      obtain rfl : i = bottom := Nat.le_antisymm hle.2 hi
      exact h.moveOn ho trivial trivial ⟨hp, hlarger, hcopied⟩
  | copyCrash item bottom top array newArray i ho | putCrash item bottom top array ho =>
      exact h.moveOn ho trivial trivial trivial
  | store item bottom top newArray ho => exact h.store ho
  | put item bottom top array ho hsize => exact h.put ho hsize
  | publish item bottom ho => exact h.publish ho
  | popBottom ho =>
      have hpos : 0 < s.bottom := h.knows ho
      have hlast : s.last = s.bottom := by simp [last, ho]
      have hbound := h.bound
      have hbottom : s.bottom = distance s.bottom 1 + 1 := by
        rw [distance]
        omega
      exact h.moveOn ho trivial trivial hbottom
  | popArray bottom ho =>
      have hbottom : s.bottom = bottom + 1 := h.knows ho
      exact h.moveOn ho trivial trivial ⟨hbottom, rfl⟩
  | popStore bottom array ho => exact h.popStore ho
  | popSome bottom array ho hitems => exact h.popSome ho hitems
  | popNone bottom array ho hempty => exact h.popNone ho hempty
  | popLast bottom array ho => exact h.popLast ho
  | popMore bottom array top ho hne => exact h.popMore ho hne
  | popCrash bottom array top ho hsize =>
      obtain ⟨-, rfl, -, -, hne⟩ := h.knows ho
      exact absurd hsize hne
  | win result ho => exact h.popWin ho
  | lose bottom result ho htop => exact h.popLose ho htop
  | restore bottom result ho => exact h.restore ho

/-! ## The thieves -/

theorem Inv.bottom_le_last (h : s.Inv) : s.bottom ≤ s.last := by
  have howner := h.owner
  rw [last]
  cases ho : s.owner with
  | popGet bottom array top =>
      rw [ho] at howner
      simp only
      split
      · exact howner.1.le
      · exact howner.1.le.trans (Nat.le_succ bottom)
  | popTop | popExchange | popRestore =>
      rw [ho] at howner
      exact howner.1.le.trans (Nat.le_succ _)
  | _ => exact le_rfl

section

variable [DecidableEq ι]

theorem Inv.setThief (h : s.Inv) (i : ι) {w : Thief T} (hw : s.ThiefInv w) :
    (s.setThief i w).Inv where
  le := h.le
  bound := h.bound
  sized := h.sized
  room := h.room
  owner := h.owner.of_same le_rfl (fun _ _ _ => rfl) rfl rfl rfl
  thief j := by
    have hkept : Kept s (s.setThief i w) :=
      ⟨rfl, le_rfl, fun hlt => hlt, fun _ => rfl, fun _ _ _ => rfl⟩
    change (s.setThief i w).ThiefInv (Function.update s.thief i w j)
    by_cases hj : j = i
    · subst hj
      rw [Function.update_self]
      exact hw.kept hkept
    · rw [Function.update_of_ne hj]
      exact (h.thief j).kept hkept
  items := h.items
  started := h.started

/-- A thief whose compare-exchange succeeds has read the slot of the oldest item. -/
theorem Inv.stealWin (h : s.Inv) {i : ι} {result : Option T}
    (hw : s.thief i = .exchange s.top result) :
    ({ s with
      top := (s.top + 1) % 2 ^ 64, returned := s.returned ++ [result] }.setThief i .idle).Inv := by
  have hthief := h.thief i
  rw [hw] at hthief
  obtain ⟨hlt, rfl⟩ := hthief.2 rfl
  have hbound := h.bound
  have hroom := h.room
  have hnext : (s.top + 1) % 2 ^ 64 = s.top + 1 := Nat.mod_eq_of_lt (by omega)
  have hrestore : ∀ bottom r, s.owner = .popRestore bottom r → s.top + 1 = s.top := by
    intro bottom r ho
    obtain ⟨-, htop⟩ := h.knows ho
    rw [last, ho] at hlt
    exact absurd htop (Nat.ne_of_lt hlt)
  rw [hnext]
  refine Inv.setThief (s := { s with
    top := s.top + 1, returned := s.returned ++ [s.current.slot s.top] }) ?_ i trivial
  exact {
    le := hlt
    bound := h.bound
    sized := h.sized
    room := by
      change s.last - (s.top + 1) ≤ s.current.threshold
      omega
    owner := h.owner.of_same (Nat.le_succ _) hrestore rfl rfl rfl
    thief := fun j => (h.thief j).advance (Nat.lt_succ_self s.top) rfl
    items := by
      refine List.Perm.trans ?_ h.items
      change (s.returned ++ [s.current.slot s.top] ++
        (slice s.current.slot (s.top + 1) s.last ++ s.hand)).Perm _
      rw [slice_cons hlt, List.append_assoc]
      rfl
    started := h.started }

theorem Inv.thiefStep (h : s.Inv) {i : ι} (hstep : ThiefStep s i s') : s'.Inv := by
  have hthief := h.thief i
  cases hstep with
  | loadTop hw => exact h.setThief i (Nat.le_refl s.top)
  | loadBottom top hw hitems =>
      rw [hw] at hthief
      refine h.setThief i ⟨hthief, fun htop => ?_⟩
      exact Nat.lt_of_lt_of_le (htop ▸ hitems) h.bottom_le_last
  | loadArray top hw =>
      rw [hw] at hthief
      exact h.setThief i ⟨hthief.1, le_rfl, fun htop => ⟨hthief.2 htop, rfl⟩⟩
  | get top array hw =>
      rw [hw] at hthief
      obtain ⟨hle, -, hslot⟩ := hthief
      refine h.setThief i ⟨hle, fun htop => ?_⟩
      obtain ⟨hlt, heq⟩ := hslot htop
      exact ⟨hlt, htop ▸ heq⟩
  | empty top hw | crash top array hw | lose top result hw => exact h.setThief i trivial
  | win result hw => exact h.stealWin hw

/-! ## Whole runs -/

/-- The owner's first operation is a `push`, and no index reaches `2 ^ 64`. -/
def Allowed (s : Shared ι T) : Action ι T → Prop
  | .push _ => s.bottom + 1 < 2 ^ 64
  | .pop => s.pushed ≠ []
  | _ => True

theorem Inv.step (h : s.Inv) {a : Action ι T} (hok : s.Allowed a) (hstep : Step s a s') :
    s'.Inv := by
  cases hstep with
  | push item ho =>
      have hfits : s.bottom + 1 < 2 ^ 64 := hok
      exact h.moveOn ho trivial trivial hfits
  | pop ho =>
      have hlast : s.last = s.bottom := by simp [last, ho]
      have hpos : 0 < s.bottom := hlast ▸ h.started hok
      exact h.moveOn ho trivial trivial hpos
  | owner next hstep => exact h.ownerStep hstep
  | steal i hw => exact h.setThief i trivial
  | thief i next hstep => exact h.thiefStep hstep

theorem sized_of_new {initialSize : ℕ} (hsize : initialSize < 2 ^ 64)
    (hnew : nextPowerOf2 initialSize < 2 ^ 63) : Sized (nextPowerOf2 initialSize) := by
  by_cases hle : initialSize ≤ 2 ^ 62
  · exact .inr (isSize_nextPowerOf2 hle)
  · have hne : initialSize - 1 ≠ 0 := by omega
    have hlow : 62 ≤ (initialSize - 1).log2 := (Nat.le_log2 hne).mpr (by omega)
    have hhigh : (initialSize - 1).log2 < 64 := (Nat.log2_lt hne).mpr (by omega)
    have hlog : (initialSize - 1).log2 = 62 ∨ (initialSize - 1).log2 = 63 := by omega
    rw [nextPowerOf2_of_two_le (by omega) (by omega)] at hnew ⊢
    rcases hlog with hlog | hlog
    · rw [hlog] at hnew
      exact absurd hnew (by decide)
    · rw [hlog]
      exact .inl (by decide)

omit [DecidableEq ι] in
theorem inv_init {initialSize : ℕ} (hsize : initialSize < 2 ^ 64) {q : Queue T}
    (hnew : Queue.new initialSize = .ok q) : (init q : Shared ι T).Inv := by
  rw [Queue.new, CircularArray.new] at hnew
  split_ifs at hnew with hlt
  · cases hnew
    exact ⟨le_rfl, Nat.two_pow_pos 64, sized_of_new hsize hlt, Nat.zero_le _, trivial,
      fun _ => trivial, .refl _, fun hne => absurd rfl hne⟩
  · cases hnew

theorem Reaches.inv {initialSize : ℕ} (hsize : initialSize < 2 ^ 64) {q : Queue T}
    (hnew : Queue.new initialSize = .ok q) (hs : (machine ι q).Reaches Allowed s) : s.Inv :=
  hs.invariant (inv_init hsize hnew) fun _ _ _ h hok hstep => h.step hok (step_cases hstep)

/-- No operation is in progress. -/
def Quiet (s : Shared ι T) : Prop :=
  s.owner = .idle ∧ ∀ i, s.thief i = .idle

end

instance decidableAllowed (s : Shared ι T) : (a : Action ι T) → Decidable (s.Allowed a)
  | .push _ => inferInstanceAs (Decidable (s.bottom + 1 < 2 ^ 64))
  | .pop => decidable_of_iff (s.pushed.isEmpty = false) (by simp [Allowed])
  | .owner | .steal _ | .thief _ => isTrue trivial

/-- A thief loads the array, the owner replaces it by a larger one while it pushes a second item, and
the thief takes the first item from the old array. -/
def stealAcrossResize : List (Action Unit ℕ) :=
  .push 5 :: List.replicate 5 .owner ++ [.steal (), .thief (), .thief (), .thief ()] ++
    .push 6 :: List.replicate 8 .owner ++ [.thief (), .thief ()]

end CommonLib.LockFreeWorkQueue.Shared
