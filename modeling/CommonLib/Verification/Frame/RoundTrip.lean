import CommonLib.Model.Frame

/-! # The frame codec

`make` behind `parse` gives back the bytes, as `parse` behind `make` gives back the fields. -/

namespace CommonLib.Frame

/-- The topic that `parse` puts together is the number with these two bytes. -/
theorem toNat_topic (high low : UInt8) :
    ((high.toUInt16 <<< 8) ||| low.toUInt16).toNat = 256 * high.toNat + low.toNat := by
  have hhigh : high.toNat * 256 % 65536 = 2 ^ 8 * high.toNat := by
    have hlt := high.toNat_lt
    omega
  have hlow : low.toNat < 2 ^ 8 := low.toNat_lt
  calc ((high.toUInt16 <<< 8) ||| low.toUInt16).toNat
      = high.toNat * 256 % 65536 ||| low.toNat := by simp [Nat.shiftLeft_eq]
    _ = 2 ^ 8 * high.toNat + low.toNat := by rw [hhigh, Nat.two_pow_add_eq_or_of_lt hlow]
    _ = 256 * high.toNat + low.toNat := by norm_num

theorem topic_high (high low : UInt8) :
    (((high.toUInt16 <<< 8) ||| low.toUInt16) >>> 8).toUInt8 = high := by
  apply UInt8.toNat_inj.mp
  have hhigh := high.toNat_lt
  have hlow := low.toNat_lt
  rw [UInt16.toNat_toUInt8, UInt16.toNat_shiftRight, toNat_topic]
  simp [Nat.shiftRight_eq_div_pow]
  omega

theorem topic_low (high low : UInt8) :
    (((high.toUInt16 <<< 8) ||| low.toUInt16) &&& 0xFF).toUInt8 = low := by
  apply UInt8.toNat_inj.mp
  have hlow := low.toNat_lt
  have hmask : (256 * high.toNat + low.toNat) &&& 255 = low.toNat := by
    have hmod := Nat.and_two_pow_sub_one_eq_mod (256 * high.toNat + low.toNat) 8
    norm_num at hmod
    omega
  rw [UInt16.toNat_toUInt8, UInt16.toNat_and, toNat_topic]
  change ((256 * high.toNat + low.toNat) &&& 255) % 2 ^ 8 = low.toNat
  rw [hmask]
  omega

theorem make_parse {raw : Bytes} {frame : Frame} (h : parse raw = some frame) :
    make frame.topic frame.type frame.payload = raw := by
  match raw, h with
  | high :: low :: type :: payload, h =>
      cases h
      rw [make, topic_high, topic_low]

/-- Fields survive `make` and `parse`, and so does every buffer of at least three bytes the other
way round, whatever its type byte. -/
theorem round_trip :
    (∀ topic type payload, parse (make topic type payload) = some ⟨topic, type, payload⟩) ∧
      ∀ raw : Bytes, 3 ≤ raw.length →
        ∃ frame, parse raw = some frame ∧ make frame.topic frame.type frame.payload = raw := by
  refine ⟨parse_make, fun raw hraw => ?_⟩
  obtain ⟨frame, hframe⟩ := exists_parse hraw
  exact ⟨frame, hframe, make_parse hframe⟩

/-- A buffer whose type byte is no enumerator. -/
theorem round_trip_unknown_type :
    parse (make 258 77 [5]) = some ⟨258, 77, [5]⟩ ∧
      ∃ frame, parse [1, 2, 77, 5] = some frame ∧
        make frame.topic frame.type frame.payload = [1, 2, 77, 5] :=
  ⟨round_trip.1 258 77 [5], round_trip.2 [1, 2, 77, 5] (by decide)⟩

end CommonLib.Frame
