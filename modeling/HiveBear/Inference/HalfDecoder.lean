/-
# The Candle backend's half decoder

The engines take activations in half precision and compute in single precision. The decoder
takes the fields of a half apart by shifts and masks and puts the fields of the wider number
together again. `value_f16ToF32` says that it is exact: the number stays what it was, also
where it is subnormal, and an infinity stays one.

Floats are given by their bits.
-/

import HiveBear.Library.BinaryFormat

namespace HiveBear.Inference

open BinaryFormat

/-- IEEE 754 half precision to single precision. -/
def f16ToF32 (bits : UInt16) : UInt32 :=
  let sign := ((bits >>> 15) &&& 1).toUInt32
  let exp := ((bits >>> 10) &&& 0x1f).toUInt32
  let mant := (bits &&& 0x3ff).toUInt32
  if exp = 0 then
    if mant = 0 then sign <<< 31
    else
      let shifted := normalise 0x400 32 mant 0
      let m := (shifted.1 &&& 0x3ff) <<< 13
      let e := (127 - 15 - shifted.2 + 1) <<< 23
      (sign <<< 31) ||| e ||| m
  else if exp = 31 then (sign <<< 31) ||| ((0xff : UInt32) <<< 23) ||| (mant <<< 13)
  else
    let e := exp - 15 + 127
    (sign <<< 31) ||| (e <<< 23) ||| (mant <<< 13)

theorem toNat_f16ToF32 (bits : UInt16) : (f16ToF32 bits).toNat = widened 113 bits.toNat := by
  have hsign := toNat_sign bits
  have hexp := toNat_exponent bits
  have hmant := toNat_fraction bits
  have hs := half_sign_lt bits.toNat
  have he := half_exponent_lt bits.toNat
  have hf := half_fraction_lt bits.toNat
  rw [f16ToF32, widened]
  generalize ((bits >>> 15) &&& 1).toUInt32 = sign at *
  generalize ((bits >>> 10) &&& 0x1f).toUInt32 = exp at *
  generalize (bits &&& 0x3ff).toUInt32 = mant at *
  generalize half.sign bits.toNat = s at *
  generalize half.exponent bits.toNat = e at *
  generalize half.fraction bits.toNat = f at *
  have hzero : exp = 0 ↔ e = 0 := word_eq_iff hexp rfl
  have htop : exp = 31 ↔ e = 31 := word_eq_iff hexp rfl
  have hnone : mant = 0 ↔ f = 0 := word_eq_iff hmant rfl
  have hS : (sign <<< 31).toNat = s * 2 ^ 31 := toNat_shiftLeft hsign rfl (by decide) (by omega)
  have hM : (mant <<< 13).toNat = f * 2 ^ 13 := toNat_shiftLeft hmant rfl (by decide) (by omega)
  by_cases h0 : e = 0
  · by_cases hf0 : f = 0
    · rw [if_pos (hzero.mpr h0), if_pos (hnone.mpr hf0), if_pos h0, if_pos hf0, hS,
        single_pack_zero]
    · rw [if_pos (hzero.mpr h0), if_neg (mt hnone.mp hf0), if_pos h0, if_neg hf0]
      have hshift := shiftOf_le f
      have hcount := (normalise_fraction hmant UInt32.toNat_zero hf0 hf (Nat.zero_le 1)).2
      have hfield : (127 - 15 - (normalise 0x400 32 mant 0).2 + 1).toNat = 113 - shiftOf f := by
        generalize (normalise 0x400 32 mant 0).2 = count at *
        have hle : count ≤ 127 - 15 := by
          rw [UInt32.le_iff_toNat_le, hcount]
          show 0 + shiftOf f ≤ 112
          omega
        have hsub : (127 - 15 - count).toNat = 112 - count.toNat :=
          UInt32.toNat_sub_of_le _ _ hle
        rw [UInt32.toNat_add, hsub, hcount]
        show (112 - (0 + shiftOf f) + 1) % 2 ^ 32 = _
        omega
      exact toNat_single_normalised hS hmant UInt32.toNat_zero hf0 hf (Nat.zero_le 1) hfield
        (by omega)
  · by_cases h31 : e = 31
    · rw [if_neg (mt hzero.mp h0), if_pos (htop.mpr h31), if_neg h0, if_pos h31]
      exact toNat_single hS rfl hM (by decide) (by omega)
    · rw [if_neg (mt hzero.mp h0), if_neg (mt htop.mp h31), if_neg h0, if_neg h31]
      have hfield : (exp - 15 + 127).toNat = e + 112 := by
        rw [UInt32.toNat_add, UInt32.toNat_sub, hexp]
        show ((2 ^ 32 - 15 + e) % 2 ^ 32 + 127) % 2 ^ 32 = _
        omega
      exact toNat_single hS (toNat_shiftLeft hfield rfl (by decide) (by omega)) hM (by omega)
        (by omega)

/-- **The decoder is exact.** -/
theorem value_f16ToF32 {bits : UInt16} (hnan : ¬ half.IsNan bits.toNat) :
    single.value (f16ToF32 bits).toNat = half.value bits.toNat := by
  rw [toNat_f16ToF32]
  by_cases hsub : half.IsSubnormal bits.toNat
  · rw [value_widened_subnormal (by decide) (by decide) hsub, value_half_subnormal hsub]
    norm_num
  · exact value_widened hnan hsub

end HiveBear.Inference
