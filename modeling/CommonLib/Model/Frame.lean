import CommonLib.Library.ByteOrder

/-! The event frame of `EventFrame.hpp`: topic (two bytes, big endian), type byte, payload. -/

namespace CommonLib

/-- The type byte is an enum with a fixed underlying type, so every byte is a value of it. -/
structure Frame where
  topic : UInt16
  type : UInt8
  payload : Bytes
  deriving DecidableEq, Repr

namespace Frame

def REGIST : UInt8 := 0
def UNREGIST : UInt8 := 1
def DATA : UInt8 := 2
def ACK : UInt8 := 3

@[simp] theorem types_ne :
    REGIST ≠ UNREGIST ∧ REGIST ≠ DATA ∧ REGIST ≠ ACK ∧ UNREGIST ≠ REGIST ∧ UNREGIST ≠ DATA ∧
      UNREGIST ≠ ACK ∧ DATA ≠ REGIST ∧ DATA ≠ UNREGIST ∧ DATA ≠ ACK ∧ ACK ≠ REGIST ∧
      ACK ≠ UNREGIST ∧ ACK ≠ DATA := by
  decide

/-- `none` is the failed assertion `raw.size() >= 3`; a build without assertions reads past
the end of the buffer there. -/
def parse : Bytes → Option Frame
  | high :: low :: type :: payload =>
      some ⟨(high.toUInt16 <<< 8) ||| low.toUInt16, type, payload⟩
  | _ => none

def make (topic : UInt16) (type : UInt8) (payload : Bytes) : Bytes :=
  (topic >>> 8).toUInt8 :: (topic &&& 0xFF).toUInt8 :: type :: payload

/-- The assertion of `parse` fails exactly on buffers of fewer than three bytes. -/
theorem parse_eq_none_iff (raw : Bytes) : parse raw = none ↔ raw.length < 3 := by
  match raw with
  | [] | [_] | [_, _] => simp [parse]
  | _ :: _ :: _ :: _ => simp [parse]

theorem parse_isSome_iff (raw : Bytes) : (parse raw).isSome ↔ 3 ≤ raw.length := by
  rw [← Option.ne_none_iff_isSome, Ne, parse_eq_none_iff, Nat.not_lt]

theorem exists_parse {raw : Bytes} (h : 3 ≤ raw.length) : ∃ frame, parse raw = some frame :=
  Option.isSome_iff_exists.mp ((parse_isSome_iff raw).mpr h)

/-- The two topic bytes of `make` are put together again by the shift of `parse`. -/
theorem topic_bytes (topic : UInt16) :
    ((topic >>> 8).toUInt8.toUInt16 <<< 8) ||| (topic &&& 0xFF).toUInt8.toUInt16 = topic := by
  apply UInt16.toNat_inj.mp
  have hlt := topic.toNat_lt
  have hlow : topic.toNat % 256 &&& 255 = topic.toNat % 256 := by
    simpa using Nat.and_two_pow_sub_one_eq_mod (topic.toNat % 256) 8
  have hhigh : topic.toNat / 256 % 256 * 256 % 65536 = 2 ^ 8 * (topic.toNat / 256) := by omega
  have hbyte : topic.toNat % 256 < 2 ^ 8 := Nat.mod_lt _ (by decide)
  have hvalue : (((topic >>> 8).toUInt8.toUInt16 <<< 8) |||
      (topic &&& 0xFF).toUInt8.toUInt16).toNat =
      topic.toNat / 256 % 256 * 256 % 65536 ||| topic.toNat % 256 &&& 255 := by
    simp [Nat.shiftLeft_eq, Nat.shiftRight_eq_div_pow]
  rw [hvalue, hlow, hhigh, ← Nat.two_pow_add_eq_or_of_lt hbyte]
  omega

@[simp] theorem parse_make (topic : UInt16) (type : UInt8) (payload : Bytes) :
    parse (make topic type payload) = some ⟨topic, type, payload⟩ := by
  simp only [make, parse, topic_bytes]

end Frame

end CommonLib
