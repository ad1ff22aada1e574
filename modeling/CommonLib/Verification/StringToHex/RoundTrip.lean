import CommonLib.Model.StringToHex
import Mathlib.Data.List.Basic
import Mathlib.Tactic.Common

/-! # Reading back what `string_to_hex` writes

The text has one reading at most, and `hexToString` is a reader that accepts nothing else. -/

namespace CommonLib.Utils

/-! ## Digits -/

def hexValue (ch : Char) : Option ℕ :=
  (List.range 16).find? fun n => hexDigit n = ch

theorem hexDigit_injOn : ∀ n < 16, ∀ k < 16, hexDigit n = hexDigit k → n = k := by
  decide

theorem hexValue_eq_some_iff {ch : Char} {n : ℕ} :
    hexValue ch = some n ↔ n < 16 ∧ hexDigit n = ch := by
  constructor
  · intro h
    have hdigit := List.find?_some h
    have hmem := List.mem_of_find?_eq_some h
    exact ⟨List.mem_range.mp hmem, by simpa using hdigit⟩
  · rintro ⟨hlt, rfl⟩
    cases hfound : hexValue (hexDigit n) with
    | none =>
        have hnone := List.find?_eq_none.mp hfound n (List.mem_range.mpr hlt)
        simp at hnone
    | some k =>
        have hdigit := List.find?_some hfound
        have hmem := List.mem_range.mp (List.mem_of_find?_eq_some hfound)
        rw [hexDigit_injOn k hmem n hlt (by simpa using hdigit)]

/-! ## Entries -/

/-- An entry without the blank. -/
def readEntry (zero x high low : Char) : Option UInt8 :=
  if zero = '0' ∧ x = 'x' then
    (hexValue high).bind fun h => (hexValue low).map fun l => UInt8.ofNat (16 * h + l)
  else none

theorem readEntry_eq_some_iff {zero x high low : Char} {c : UInt8} :
    readEntry zero x high low = some c ↔
      [zero, x, high, low, ' '] = hexEntry c := by
  have hlt := c.toNat_lt
  constructor
  · intro h
    unfold readEntry at h
    split at h
    · rename_i hprefix
      obtain ⟨rfl, rfl⟩ := hprefix
      obtain ⟨n, hhigh, hrest⟩ := Option.bind_eq_some_iff.mp h
      obtain ⟨k, hlow, rfl⟩ := Option.map_eq_some_iff.mp hrest
      obtain ⟨hn, rfl⟩ := hexValue_eq_some_iff.mp hhigh
      obtain ⟨hk, rfl⟩ := hexValue_eq_some_iff.mp hlow
      have hvalue : (UInt8.ofNat (16 * n + k)).toNat = 16 * n + k := by
        rw [UInt8.toNat_ofNat']
        omega
      have hdiv : (16 * n + k) / 16 = n := by omega
      have hmod : (16 * n + k) % 16 = k := by omega
      rw [hexEntry, hvalue, hdiv, hmod]
    · cases h
  · intro h
    simp only [hexEntry, List.cons.injEq, and_true] at h
    obtain ⟨rfl, rfl, rfl, rfl⟩ := h
    have hhigh : hexValue (hexDigit (c.toNat / 16)) = some (c.toNat / 16) :=
      hexValue_eq_some_iff.mpr ⟨by omega, rfl⟩
    have hlow : hexValue (hexDigit (c.toNat % 16)) = some (c.toNat % 16) :=
      hexValue_eq_some_iff.mpr ⟨by omega, rfl⟩
    rw [readEntry, if_pos ⟨rfl, rfl⟩, hhigh, hlow]
    have hsum : 16 * (c.toNat / 16) + c.toNat % 16 = c.toNat := by omega
    change some (UInt8.ofNat (16 * (c.toNat / 16) + c.toNat % 16)) = some c
    rw [hsum, UInt8.ofNat_toNat]

/-! ## The whole text -/

/-- Entries with blanks between them. -/
def hexToString : List Char → Option Bytes
  | [] => some []
  | [zero, x, high, low] => (readEntry zero x high low).map fun c => [c]
  | zero :: x :: high :: low :: blank :: next :: rest =>
      if blank = ' ' then
        (readEntry zero x high low).bind fun c => (hexToString (next :: rest)).map (c :: ·)
      else none
  | _ => none

theorem stringToHex_singleton (c : UInt8) : stringToHex [c] = (hexEntry c).dropLast := by
  simp [stringToHex, hexEntry]

theorem stringToHex_cons_cons (c d : UInt8) (str : Bytes) :
    stringToHex (c :: d :: str) = hexEntry c ++ stringToHex (d :: str) := by
  simp [stringToHex, hexEntry]

theorem stringToHex_ne_nil (c : UInt8) (str : Bytes) : stringToHex (c :: str) ≠ [] := by
  cases str with
  | nil => simp [stringToHex_singleton, hexEntry]
  | cons d str => simp [stringToHex_cons_cons, hexEntry]

theorem stringToHex_of_hexToString {text : List Char} {str : Bytes}
    (h : hexToString text = some str) : text = stringToHex str := by
  fun_induction hexToString text generalizing str with
  | case1 =>
      cases h
      rfl
  | case2 zero x high low =>
      obtain ⟨c, hentry, rfl⟩ := Option.map_eq_some_iff.mp h
      rw [stringToHex_singleton, ← readEntry_eq_some_iff.mp hentry]
      rfl
  | case3 zero x high low next rest ih =>
      obtain ⟨c, hentry, hrest⟩ := Option.bind_eq_some_iff.mp h
      obtain ⟨tail, htail, rfl⟩ := Option.map_eq_some_iff.mp hrest
      have htext := ih htail
      cases tail with
      | nil => cases htext
      | cons d tail =>
          rw [stringToHex_cons_cons, ← readEntry_eq_some_iff.mp hentry, ← htext]
          rfl
  | case4 => cases h
  | case5 => cases h

theorem hexToString_stringToHex (str : Bytes) : hexToString (stringToHex str) = some str := by
  induction str with
  | nil => rfl
  | cons c str ih =>
      have hentry := readEntry_eq_some_iff.mpr (rfl : _ = hexEntry c)
      cases str with
      | nil =>
          rw [stringToHex_singleton]
          change (readEntry _ _ _ _).map _ = _
          rw [hentry]
          rfl
      | cons d str =>
          obtain ⟨next, rest, hnext⟩ := List.exists_cons_of_ne_nil (stringToHex_ne_nil d str)
          rw [hnext] at ih
          rw [stringToHex_cons_cons, hnext]
          change ((readEntry _ _ _ _).bind fun c => (hexToString (next :: rest)).map (c :: ·)) = _
          rw [hentry, ih]
          rfl

/-- The reader gives a string for its own text, and for no other. -/
theorem hexToString_eq_some_iff (text : List Char) (str : Bytes) :
    hexToString text = some str ↔ text = stringToHex str := by
  refine ⟨stringToHex_of_hexToString, fun h => ?_⟩
  rw [h]
  exact hexToString_stringToHex str

end CommonLib.Utils
