import Mathlib.Tactic.Ring

/-! Fixed-width unsigned integers as byte strings, in either byte order. -/

namespace CommonLib

abbrev Bytes := List UInt8

/-- The low `width` bytes of a number, least significant byte first. -/
def littleBytes : ℕ → ℕ → Bytes
  | 0, _ => []
  | width + 1, n => UInt8.ofNat n :: littleBytes width (n / 256)

/-- The number that a little-endian byte string denotes. -/
def littleValue : Bytes → ℕ
  | [] => 0
  | b :: bs => b.toNat + 256 * littleValue bs

@[simp] theorem length_littleBytes (width n : ℕ) : (littleBytes width n).length = width := by
  induction width generalizing n with
  | zero => rfl
  | succ width ih => simp [littleBytes, ih]

/-- Reading what was written keeps exactly the part of the number that fits in the width. -/
theorem littleValue_littleBytes (width n : ℕ) :
    littleValue (littleBytes width n) = n % 256 ^ width := by
  induction width generalizing n with
  | zero => simp [littleBytes, littleValue, Nat.mod_one]
  | succ width ih =>
      have hbyte : (UInt8.ofNat n).toNat = n % 256 := by simp
      rw [littleBytes, littleValue, ih, hbyte, Nat.pow_succ, Nat.mul_comm (256 ^ width) 256,
        Nat.mod_mul]

theorem littleValue_lt (bytes : Bytes) : littleValue bytes < 256 ^ bytes.length := by
  induction bytes with
  | nil => simp [littleValue]
  | cons b bytes ih =>
      have hbyte := b.toNat_lt
      rw [littleValue, List.length_cons, Nat.pow_succ]
      omega

/-- Writing what was read gives the same bytes. -/
theorem littleBytes_littleValue (bytes : Bytes) :
    littleBytes bytes.length (littleValue bytes) = bytes := by
  induction bytes with
  | nil => rfl
  | cons b bytes ih =>
      have hbyte := b.toNat_lt
      have hlow : UInt8.ofNat (b.toNat + 256 * littleValue bytes) = b := by
        apply UInt8.toNat_inj.mp
        rw [UInt8.toNat_ofNat']
        omega
      have hhigh : (b.toNat + 256 * littleValue bytes) / 256 = littleValue bytes := by omega
      rw [littleValue, List.length_cons, littleBytes, hlow, hhigh, ih]

inductive ByteOrder
  | little
  | big
  deriving DecidableEq, Repr

namespace ByteOrder

def toBytes : ByteOrder → ℕ → ℕ → Bytes
  | little, width, n => littleBytes width n
  | big, width, n => (littleBytes width n).reverse

def ofBytes : ByteOrder → Bytes → ℕ
  | little, bs => littleValue bs
  | big, bs => littleValue bs.reverse

@[simp] theorem length_toBytes (e : ByteOrder) (width n : ℕ) :
    (e.toBytes width n).length = width := by
  cases e <;> simp [toBytes]

theorem ofBytes_toBytes (e : ByteOrder) (width n : ℕ) :
    e.ofBytes (e.toBytes width n) = n % 256 ^ width := by
  cases e <;> simp [toBytes, ofBytes, littleValue_littleBytes]

theorem ofBytes_lt (e : ByteOrder) (bytes : Bytes) : e.ofBytes bytes < 256 ^ bytes.length := by
  cases e with
  | little => exact littleValue_lt bytes
  | big =>
      have h := littleValue_lt bytes.reverse
      rw [List.length_reverse] at h
      exact h

theorem toBytes_ofBytes (e : ByteOrder) (bytes : Bytes) :
    e.toBytes bytes.length (e.ofBytes bytes) = bytes := by
  cases e with
  | little => exact littleBytes_littleValue bytes
  | big =>
      have h := congrArg List.reverse (littleBytes_littleValue bytes.reverse)
      rw [List.length_reverse, List.reverse_reverse] at h
      exact h

end ByteOrder

end CommonLib
