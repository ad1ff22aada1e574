import CommonLib.Verification.WorkStealing.Equations

/-! # The invariant of the work-stealing queue

The items are in the slots from `_top` up to `last`, with at most one in the hand of the owner. A
thief that has seen the current `_top` with an item below `_bottom` has the item of that slot, in
whichever array it looks: the owner writes only to slots that no index from `_top` on has. -/

namespace CommonLib.LockFreeWorkQueue

variable {ι T : Type*}

/-! ## Sizes, the overflowed one included -/

/-- The size of an array is zero when the initial size was rounded up past the largest number. -/
def Sized (n : ℕ) : Prop :=
  n = 0 ∨ IsSize n

namespace CircularArray

variable {array newArray : CircularArray T}

theorem threshold_lt_of_sized (h : Sized array.size) (hne : array.size ≠ 0) :
    array.threshold < array.size :=
  threshold_lt (h.resolve_left hne)

theorem threshold_of_zero (h : array.size = 0) : array.threshold = 0 := by
  rw [threshold, h, Nat.zero_mul, Nat.zero_mod, Nat.zero_div]

/-- The array that a full one is copied to. -/
structure Larger (array newArray : CircularArray T) : Prop where
  sized : Sized newArray.size
  le : array.threshold ≤ newArray.threshold
  lt : newArray.size ≠ 0 → array.threshold < newArray.threshold

theorem larger_of_doubled (h : Sized array.size) (hlt : array.doubled < 2 ^ 63)
    (hsize : newArray.size = array.doubled) : Larger array newArray := by
  rcases h with hzero | h
  · have hnew : newArray.size = 0 := by rw [hsize, doubled, hzero, Nat.zero_mul, Nat.zero_mod]
    exact ⟨.inl hnew, by rw [threshold_of_zero hzero]; exact Nat.zero_le _,
      fun hne => absurd hnew hne⟩
  · have hle := h.le
    have hdoubled : array.doubled = array.size * 2 := Nat.mod_eq_of_lt (by omega)
    rw [hdoubled] at hlt hsize
    have hnew : IsSize newArray.size := by
      rw [hsize]
      exact (h.double.resolve_right (by omega)).2
    have hthreshold := threshold_lt_doubled h hnew hsize
    exact ⟨.inr hnew, hthreshold.le, fun _ => hthreshold⟩

end CircularArray

open CircularArray

namespace Shared

/-! ## Where the items are -/

/-- The item at `_bottom` still counts while `pop` has not made sure of it. -/
def last (s : Shared ι T) : ℕ :=
  match s.owner with
  | .popTop bottom _ | .popExchange bottom _ | .popRestore bottom _ => bottom + 1
  | .popGet bottom _ top => if top < bottom then bottom else bottom + 1
  | _ => s.bottom

/-- What the owner has taken and not returned yet. -/
def hand (s : Shared ι T) : List (Option T) :=
  match s.owner with
  | .popGet bottom array top => if top < bottom then [(s.arrays array).slot bottom] else []
  | .popRestore _ result => result.toList
  | _ => []

/-- The owner is not behind the point where `pop` has lowered `_bottom`. -/
def OutsidePop : Owner T → Prop
  | .popTop .. | .popGet .. | .popExchange .. | .popRestore .. => False
  | _ => True

/-- What `push` knows from its loads of `_bottom` and `_top`. -/
structure Pushing (s : Shared ι T) (bottom top : ℕ) : Prop where
  eq_bottom : bottom = s.bottom
  fits : bottom + 1 < 2 ^ 64
  le_top : top ≤ s.top
  le : top ≤ bottom
  room : bottom - top ≤ s.current.threshold

def OwnerInv (s : Shared ι T) : Owner T → Prop
  | .idle | .crashed => True
  | .pushBottom _ => s.bottom + 1 < 2 ^ 64
  | .pushTop _ bottom => bottom = s.bottom ∧ bottom + 1 < 2 ^ 64
  | .pushArray _ bottom top => s.Pushing bottom top
  | .copying _ bottom top array newArray i =>
      s.Pushing bottom top ∧ array = s.array ∧ (top ≤ i ∧ i ≤ bottom) ∧
        Larger s.current newArray ∧ Copied s.current newArray top i
  | .storing _ bottom top newArray =>
      s.Pushing bottom top ∧ Larger s.current newArray ∧ Copied s.current newArray top bottom
  | .putting _ bottom top array =>
      s.Pushing bottom top ∧ array = s.array ∧
        (s.current.size ≠ 0 → bottom - top < s.current.threshold)
  | .publishing item bottom =>
      bottom = s.bottom ∧ bottom + 1 < 2 ^ 64 ∧ s.current.slot bottom = some item ∧
        bottom - s.top < s.current.threshold
  | .popBottom => 0 < s.bottom
  | .popArray bottom => s.bottom = bottom + 1
  | .popStore bottom array => s.bottom = bottom + 1 ∧ array = s.array
  | .popTop bottom array => s.bottom = bottom ∧ array = s.array
  | .popGet bottom array top =>
      s.bottom = bottom ∧ array = s.array ∧ top ≤ bottom ∧ top ≤ s.top ∧ s.current.size ≠ 0
  | .popExchange bottom result =>
      s.bottom = bottom ∧ result = s.current.slot bottom ∧ bottom ≤ s.top
  | .popRestore bottom _ => s.bottom = bottom ∧ s.top = bottom + 1

/-- What a thief knows is about the slot of `_top`, as long as `_top` has not moved. -/
def ThiefInv (s : Shared ι T) : Thief T → Prop
  | .idle | .loadTop | .crashed => True
  | .loadBottom top => top ≤ s.top
  | .loadArray top => top ≤ s.top ∧ (top = s.top → s.top < s.last)
  | .get top array =>
      top ≤ s.top ∧ array ≤ s.array ∧ (top = s.top →
        s.top < s.last ∧ (s.arrays array).slot s.top = s.current.slot s.top)
  | .exchange top result =>
      top ≤ s.top ∧ (top = s.top → s.top < s.last ∧ result = s.current.slot s.top)

structure Inv (s : Shared ι T) : Prop where
  le : s.top ≤ s.last
  bound : s.last < 2 ^ 64
  sized : Sized s.current.size
  room : s.last - s.top ≤ s.current.threshold
  owner : s.OwnerInv s.owner
  thief : ∀ i, s.ThiefInv (s.thief i)
  items : (s.returned ++ (slice s.current.slot s.top s.last ++ s.hand)).Perm (s.pushed.map some)
  started : s.pushed ≠ [] → 0 < s.last

variable {s s' : Shared ι T}

theorem last_of_outsidePop (ho : OutsidePop s.owner) : s.last = s.bottom := by
  rw [last]
  cases hpc : s.owner with
  | popTop | popGet | popExchange | popRestore =>
      rw [hpc] at ho
      cases ho
  | _ => rfl

theorem hand_of_outsidePop (ho : OutsidePop s.owner) : s.hand = [] := by
  rw [hand]
  cases hpc : s.owner with
  | popGet | popRestore =>
      rw [hpc] at ho
      cases ho
  | _ => rfl

theorem Inv.knows (h : s.Inv) {pc : Owner T} (ho : s.owner = pc) : s.OwnerInv pc :=
  ho ▸ h.owner

/-! ## What a step leaves to the others -/

/-- The owner leaves `_top` and the slot there alone, in every array. -/
structure Kept (s s' : Shared ι T) : Prop where
  top : s'.top = s.top
  array : s.array ≤ s'.array
  last : s.top < s.last → s.top < s'.last
  slot : s.top < s.last → s'.current.slot s.top = s.current.slot s.top
  slots : s.top < s.last → ∀ a ≤ s.array, (s'.arrays a).slot s.top = (s.arrays a).slot s.top

theorem ThiefInv.kept {w : Thief T} (h : s.ThiefInv w) (hkept : Kept s s') : s'.ThiefInv w := by
  cases w with
  | idle | loadTop | crashed => trivial
  | loadBottom top =>
      rw [ThiefInv, hkept.top]
      exact h
  | loadArray top =>
      rw [ThiefInv, hkept.top]
      exact ⟨h.1, fun htop => hkept.last (h.2 htop)⟩
  | get top array =>
      obtain ⟨hle, harray, hslot⟩ := h
      rw [ThiefInv, hkept.top]
      refine ⟨hle, harray.trans hkept.array, fun htop => ?_⟩
      obtain ⟨hlast, heq⟩ := hslot htop
      exact ⟨hkept.last hlast, by rw [hkept.slots hlast array harray, hkept.slot hlast, heq]⟩
  | exchange top result =>
      obtain ⟨hle, hslot⟩ := h
      rw [ThiefInv, hkept.top]
      refine ⟨hle, fun htop => ?_⟩
      obtain ⟨hlast, heq⟩ := hslot htop
      exact ⟨hkept.last hlast, by rw [hkept.slot hlast, heq]⟩

/-- Once `_top` has moved, what a thief has seen does not matter any more. -/
theorem ThiefInv.advance {w : Thief T} (h : s.ThiefInv w) (htop : s.top < s'.top)
    (harray : s'.array = s.array) : s'.ThiefInv w := by
  cases w with
  | idle | loadTop | crashed => trivial
  | loadBottom top => exact Nat.le_trans h htop.le
  | loadArray top =>
      have hlt : top < s'.top := Nat.lt_of_le_of_lt h.1 htop
      exact ⟨hlt.le, fun heq => absurd heq (Nat.ne_of_lt hlt)⟩
  | get top array =>
      have hlt : top < s'.top := Nat.lt_of_le_of_lt h.1 htop
      exact ⟨hlt.le, harray ▸ h.2.1, fun heq => absurd heq (Nat.ne_of_lt hlt)⟩
  | exchange top result =>
      have hlt : top < s'.top := Nat.lt_of_le_of_lt h.1 htop
      exact ⟨hlt.le, fun heq => absurd heq (Nat.ne_of_lt hlt)⟩

/-- What the owner knows stands while nobody but a thief moves `_top`. -/
theorem OwnerInv.of_same {pc : Owner T} (h : s.OwnerInv pc) (htop : s.top ≤ s'.top)
    (hrestore : ∀ bottom result, pc = .popRestore bottom result → s'.top = s.top)
    (hbottom : s'.bottom = s.bottom) (harray : s'.array = s.array)
    (harrays : s'.arrays = s.arrays) : s'.OwnerInv pc := by
  have hcurrent : s'.current = s.current := by rw [current, current, harray, harrays]
  have hpushing : ∀ bottom top, s.Pushing bottom top → s'.Pushing bottom top := fun bottom top hp =>
    ⟨hbottom ▸ hp.eq_bottom, hp.fits, hp.le_top.trans htop, hp.le, hcurrent ▸ hp.room⟩
  cases pc with
  | idle | crashed => trivial
  | pushBottom | pushTop | popBottom | popArray | popStore | popTop =>
      simpa only [OwnerInv, hbottom, harray] using h
  | pushArray item bottom top => exact hpushing bottom top h
  | copying item bottom top array newArray i =>
      rw [OwnerInv, hcurrent, harray]
      exact ⟨hpushing bottom top h.1, h.2⟩
  | storing item bottom top newArray =>
      rw [OwnerInv, hcurrent]
      exact ⟨hpushing bottom top h.1, h.2⟩
  | putting item bottom top array =>
      rw [OwnerInv, hcurrent, harray]
      exact ⟨hpushing bottom top h.1, h.2⟩
  | publishing item bottom =>
      obtain ⟨heq, hfits, hslot, hroom⟩ := h
      rw [OwnerInv, hcurrent, hbottom]
      exact ⟨heq, hfits, hslot, Nat.lt_of_le_of_lt (Nat.sub_le_sub_left htop bottom) hroom⟩
  | popGet bottom array top =>
      obtain ⟨heq, harray', hle, hle', hsize⟩ := h
      rw [OwnerInv, hcurrent, hbottom, harray]
      exact ⟨heq, harray', hle, hle'.trans htop, hsize⟩
  | popExchange bottom result =>
      obtain ⟨heq, hresult, hle⟩ := h
      rw [OwnerInv, hcurrent, hbottom]
      exact ⟨heq, hresult, hle.trans htop⟩
  | popRestore bottom result =>
      rw [OwnerInv, hbottom, hrestore bottom result rfl]
      exact h

end Shared

end CommonLib.LockFreeWorkQueue
