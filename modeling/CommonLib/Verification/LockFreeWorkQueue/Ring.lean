import CommonLib.Library.BitSmear
import CommonLib.Library.Slice
import CommonLib.Model.LockFreeWorkQueue

/-! # The ring of slots

The array under a queue has a power of two of slots, and its growth rule keeps one slot free. -/

namespace CommonLib.LockFreeWorkQueue

variable {T : Type*}

/-! ## Sizes -/

theorem nextPowerOf2_of_two_le {n : ℕ} (hn : 2 ≤ n) (hlt : n - 1 < 2 ^ 64) :
    nextPowerOf2 n = 2 ^ ((n - 1).log2 + 1) % 2 ^ 64 := by
  have hsmear : nextPowerOf2 n = (smear (n - 1) 6 + 1) % 2 ^ 64 := by
    rw [nextPowerOf2, if_neg (by omega)]
    rfl
  rw [hsmear, smear_add_one hn hlt]

/-- A power of two up to `2 ^ 62`. -/
def IsSize (n : ℕ) : Prop :=
  ∃ k ≤ 62, n = 2 ^ k

theorem isSize_nextPowerOf2 {n : ℕ} (hn : n ≤ 2 ^ 62) : IsSize (nextPowerOf2 n) := by
  by_cases hle : n ≤ 1
  · exact ⟨0, by omega, if_pos hle⟩
  · have hlog : (n - 1).log2 < 62 := (Nat.log2_lt (by omega)).mpr (by omega)
    refine ⟨(n - 1).log2 + 1, hlog, ?_⟩
    rw [nextPowerOf2_of_two_le (by omega) (by omega)]
    exact Nat.mod_eq_of_lt (Nat.pow_lt_pow_right Nat.one_lt_two (by omega))

namespace IsSize

variable {n : ℕ}

theorem pos (h : IsSize n) : 0 < n := by
  obtain ⟨k, -, rfl⟩ := h
  exact Nat.two_pow_pos k

theorem le (h : IsSize n) : n ≤ 2 ^ 62 := by
  obtain ⟨k, hk, rfl⟩ := h
  exact Nat.pow_le_pow_right Nat.two_pos hk

/-- Twice the size is a size again, or too large for an array. -/
theorem double (h : IsSize n) : n * 2 < 2 ^ 63 ∧ IsSize (n * 2) ∨ n = 2 ^ 62 := by
  obtain ⟨k, hk, rfl⟩ := h
  rcases Nat.lt_or_eq_of_le hk with hlt | rfl
  · refine .inl ⟨?_, k + 1, hlt, rfl⟩
    exact Nat.pow_lt_pow_right Nat.one_lt_two (Nat.succ_lt_succ hlt)
  · exact .inr rfl

end IsSize

namespace CircularArray

variable {array newArray : CircularArray T}

theorem threshold_eq (h : IsSize array.size) : array.threshold = array.size * 3 / 4 := by
  have hle := h.le
  rw [threshold, Nat.mod_eq_of_lt (by omega)]

theorem threshold_lt (h : IsSize array.size) : array.threshold < array.size := by
  have hpos := h.pos
  rw [threshold_eq h]
  omega

/-- The array of twice the size has room for at least one item more, down to the smallest size. -/
theorem threshold_lt_doubled (h : IsSize array.size) (hnew : IsSize newArray.size)
    (hsize : newArray.size = array.size * 2) : array.threshold < newArray.threshold := by
  have hpos := h.pos
  rw [threshold_eq h, threshold_eq hnew, hsize]
  omega

/-! ## Slots -/

/-- The slot for an index. -/
def slot (array : CircularArray T) (index : ℕ) : Option T :=
  array.buffer (index % array.size)

def write (array : CircularArray T) (index : ℕ) (item : Option T) : CircularArray T :=
  { array with buffer := Function.update array.buffer (index % array.size) item }

@[simp] theorem size_write (index : ℕ) (item : Option T) :
    (array.write index item).size = array.size := rfl

@[simp] theorem threshold_write (index : ℕ) (item : Option T) :
    (array.write index item).threshold = array.threshold := rfl

@[simp] theorem slot_write_self (index : ℕ) (item : Option T) :
    (array.write index item).slot index = item :=
  Function.update_self ..

/-- Writing at an index leaves the slots of the `size - 1` indices below it alone. -/
theorem slot_write_of_lt {index i : ℕ} (item : Option T) (hi : i < index)
    (hroom : index < i + array.size) : (array.write index item).slot i = array.slot i :=
  Function.update_of_ne (mod_ne_mod hi hroom) ..

theorem get_eq (h : array.size ≠ 0) (index : ℕ) : array.get index = .ok (array.slot index) :=
  if_neg h

theorem put_eq (h : array.size ≠ 0) (index : ℕ) (item : Option T) :
    array.put index item = .ok (array.write index item) :=
  if_neg h

/-! ## Growing -/

/-- The new array holds what the old one holds for `lo`, …, `hi - 1`. -/
def Copied (array newArray : CircularArray T) (lo hi : ℕ) : Prop :=
  ∀ i, lo ≤ i → i < hi → newArray.slot i = array.slot i

theorem copied_self (lo : ℕ) : Copied array newArray lo lo :=
  fun _ hlo hhi => absurd (Nat.lt_of_le_of_lt hlo hhi) (Nat.lt_irrefl lo)

/-- One turn of the loop. -/
theorem Copied.write {lo i : ℕ} (h : Copied array newArray lo i)
    (hroom : i < lo + newArray.size) :
    Copied array (newArray.write i (array.slot i)) lo (i + 1) := by
  intro j hlo hj
  rcases Nat.lt_succ_iff_lt_or_eq.mp hj with hlt | rfl
  · rw [slot_write_of_lt _ hlt (by omega)]
    exact h j hlo hlt
  · rw [slot_write_self]

theorem copy_spec {lo i : ℕ} (n : ℕ) (hsize : array.size ≠ 0) (hnew : newArray.size ≠ 0)
    (h : Copied array newArray lo i) (hroom : i + n ≤ lo + newArray.size) :
    ∃ result, copy array newArray i n = .ok result ∧ result.size = newArray.size ∧
      Copied array result lo (i + n) := by
  induction n generalizing newArray i with
  | zero => exact ⟨newArray, rfl, rfl, h⟩
  | succ n ih =>
      have hwrite := h.write (Nat.lt_of_lt_of_le (Nat.lt_add_of_pos_right n.succ_pos) hroom)
      have hnext : (newArray.write i (array.slot i)).size ≠ 0 := hnew
      obtain ⟨result, hcopy, hresult, hcopied⟩ := ih hnext hwrite (by simpa using by omega)
      refine ⟨result, ?_, hresult, ?_⟩
      · rw [copy, get_eq hsize]
        change (newArray.put i (array.slot i)).bind _ = _
        rw [put_eq hnew]
        exact hcopy
      · rwa [Nat.add_right_comm] at hcopied

/-- `resize` keeps every item, as long as there are not more of them than slots. -/
theorem resize_spec {bottom top : ℕ} (hsize : IsSize array.size) (hle : top ≤ bottom)
    (hroom : bottom ≤ top + array.size) :
    (∃ newArray, array.resize bottom top = .ok newArray ∧ IsSize newArray.size ∧
      newArray.size = array.size * 2 ∧ Copied array newArray top bottom) ∨
    array.resize bottom top = .error .badArrayNewLength ∧ array.size = 2 ^ 62 := by
  rcases hsize.double with ⟨hlt, hdouble⟩ | hmax
  · have hdoubled : array.doubled = array.size * 2 := Nat.mod_eq_of_lt (by omega)
    have hpos := hsize.pos
    have hempty : Copied array ⟨array.size * 2, fun _ => none⟩ top top := copied_self top
    obtain ⟨result, hcopy, hresult, hcopied⟩ := copy_spec (bottom - top) (by omega)
      (by simpa using by omega) hempty (by simpa using by omega)
    rw [Nat.add_sub_cancel' hle] at hcopied
    refine .inl ⟨result, ?_, ?_, hresult, hcopied⟩
    · rw [resize, hdoubled, new, if_pos hlt]
      exact hcopy
    · rw [hresult]
      exact hdouble
  · refine .inr ⟨?_, hmax⟩
    rw [resize, doubled, hmax]
    rfl

end CircularArray

end CommonLib.LockFreeWorkQueue
