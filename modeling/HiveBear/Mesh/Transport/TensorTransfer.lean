/-
# Converting tensors for transfer

Activations are computed in single precision and may travel in half precision. The codec
widens and narrows buffers lane by lane, by its own arithmetic on the bits.

Widening counts the exponent of a subnormal half down from one below where it should: what
comes out is half the number that went in. Every other half is widened exactly and comes
back unchanged, so a buffer survives if and only if there is no subnormal lane in it. The
engines' own decoder has no such gap; see `Inference.value_f16ToF32`.
-/

import HiveBear.Inference.HalfDecoder
import HiveBear.Library.LittleEndian
import HiveBear.Mesh.Transport.Protocol

namespace HiveBear.Mesh

open BinaryFormat LittleEndian

/-- Convert a single float, given by its bits, to a half. -/
def f16FromF32 (bits : UInt32) : UInt16 :=
  let sign := (bits >>> 16) &&& 0x8000
  let exponent : ℤ := ((bits >>> 23) &&& 0xFF).toNat
  let mantissa := bits &&& 0x7FFFFF
  if exponent = 0xFF then
    if mantissa ≠ 0 then (sign ||| 0x7E00).toUInt16 else (sign ||| 0x7C00).toUInt16
  else
    let newExp := exponent - 127 + 15
    if newExp ≥ 31 then (sign ||| 0x7C00).toUInt16
    else if newExp ≤ 0 then
      if newExp < -10 then sign.toUInt16
      else
        let m := (mantissa ||| 0x800000) >>> UInt32.ofNat (1 - newExp).toNat
        (sign ||| (m >>> 13)).toUInt16
    else (sign ||| (UInt32.ofNat newExp.toNat <<< 10) ||| (mantissa >>> 13)).toUInt16

/-- Convert a single half to a float, given by its bits. -/
def f32FromF16 (h : UInt16) : UInt32 :=
  let sign := (h &&& 0x8000).toUInt32 <<< 16
  let exponent := ((h >>> 10) &&& 0x1F).toUInt32
  let mantissa := (h &&& 0x3FF).toUInt32
  if exponent = 0 then
    if mantissa = 0 then sign
    else
      let shifted := normalise 0x400 32 mantissa 1
      let exp := (127 - 15 + 1 - shifted.2) <<< 23
      let mant := (shifted.1 &&& 0x3FF) <<< 13
      sign ||| exp ||| mant
  else if exponent = 31 then
    if mantissa = 0 then sign ||| 0x7F800000 else sign ||| 0x7FC00000
  else
    let exp := (exponent + 127 - 15) <<< 23
    let mant := mantissa <<< 13
    sign ||| exp ||| mant

/-- Convert F32 bytes to F16 bytes (halves the size). -/
def f32ToF16 (data : List UInt8) : List UInt8 :=
  (words32 data).flatMap fun f => bytes16 (f16FromF32 f)

/-- Convert F16 bytes to F32 bytes (doubles the size). -/
def f16ToF32 (data : List UInt8) : List UInt8 :=
  (words16 data).flatMap fun h => bytes32 (f32FromF16 h)

/-- Convert tensor data between types for wire transfer. -/
def convertForTransfer (data : List UInt8) (srcDtype targetDtype : TensorDtype) : List UInt8 :=
  if srcDtype = targetDtype then data
  else
    match srcDtype, targetDtype with
    | .f32, .f16 => f32ToF16 data
    | .f16, .f32 => f16ToF32 data
    | _, _ => data

/-! ## Widening one half -/

/-- The word that a half which stands for a number is widened to. -/
theorem toNat_f32FromF16 {h : UInt16} (hnan : ¬ half.IsNan h.toNat) :
    (f32FromF16 h).toNat = widened 112 h.toNat := by
  have hsign : ((h &&& 0x8000).toUInt32 <<< 16).toNat = half.sign h.toNat * 2 ^ 15 * 2 ^ 16 :=
    toNat_shiftLeft (toNat_signBit h) rfl (by decide) (by have := half_sign_lt h.toNat; omega)
  have hexp := toNat_exponent h
  have hmant := toNat_fraction h
  have hs := half_sign_lt h.toNat
  have he := half_exponent_lt h.toNat
  have hf := half_fraction_lt h.toNat
  rw [Format.IsNan] at hnan
  rw [f32FromF16, widened]
  generalize (h &&& 0x8000).toUInt32 <<< 16 = sign at *
  generalize ((h >>> 10) &&& 0x1f).toUInt32 = exponent at *
  generalize (h &&& 0x3ff).toUInt32 = mantissa at *
  generalize half.sign h.toNat = s at *
  generalize half.exponent h.toNat = e at *
  generalize half.fraction h.toNat = f at *
  have hS : sign.toNat = s * 2 ^ 31 := by
    rw [hsign]
    omega
  have hzero : exponent = 0 ↔ e = 0 := word_eq_iff hexp rfl
  have htop : exponent = 31 ↔ e = 31 := word_eq_iff hexp rfl
  have hnone : mantissa = 0 ↔ f = 0 := word_eq_iff hmant rfl
  have hM : (mantissa <<< 13).toNat = f * 2 ^ 13 :=
    toNat_shiftLeft hmant rfl (by decide) (by omega)
  by_cases h0 : e = 0
  · by_cases hf0 : f = 0
    · rw [if_pos (hzero.mpr h0), if_pos (hnone.mpr hf0), if_pos h0, if_pos hf0, hS,
        single_pack_zero]
    · rw [if_pos (hzero.mpr h0), if_neg (mt hnone.mp hf0), if_pos h0, if_neg hf0]
      have hshift := shiftOf_le f
      -- the loop counts from one, which leaves the exponent one too low
      have hcount := (normalise_fraction hmant UInt32.toNat_one hf0 hf le_rfl).2
      have hfield : (127 - 15 + 1 - (normalise 0x400 32 mantissa 1).2).toNat = 112 - shiftOf f := by
        generalize (normalise 0x400 32 mantissa 1).2 = count at *
        have hle : count ≤ 127 - 15 + 1 := by
          rw [UInt32.le_iff_toNat_le, hcount]
          show 1 + shiftOf f ≤ 113
          omega
        rw [UInt32.toNat_sub_of_le _ _ hle, hcount]
        show 113 - (1 + shiftOf f) = _
        omega
      exact toNat_single_normalised hS hmant UInt32.toNat_one hf0 hf le_rfl hfield (by omega)
  · by_cases h31 : e = 31
    · have hf0 : f = 0 := by
        by_contra hne
        exact hnan ⟨h31, hne⟩
      rw [if_neg (mt hzero.mp h0), if_pos (htop.mpr h31), if_pos (hnone.mpr hf0), if_neg h0,
        if_pos h31, hf0, ← UInt32.or_zero (a := sign ||| 0x7F800000)]
      exact toNat_single hS rfl rfl (by decide) (by decide)
    · rw [if_neg (mt hzero.mp h0), if_neg (mt htop.mp h31), if_neg h0, if_neg h31]
      have hfield : (exponent + 127 - 15).toNat = e + 112 := by
        rw [UInt32.toNat_sub, UInt32.toNat_add, hexp]
        show (2 ^ 32 - 15 + (e + 127) % 2 ^ 32) % 2 ^ 32 = _
        omega
      exact toNat_single hS (toNat_shiftLeft hfield rfl (by decide) (by omega)) hM (by omega)
        (by omega)

/-- Widening a half that is not subnormal is exact. -/
theorem value_f32FromF16 {h : UInt16} (hnan : ¬ half.IsNan h.toNat)
    (hnormal : ¬ half.IsSubnormal h.toNat) :
    single.value (f32FromF16 h).toNat = half.value h.toNat := by
  rw [toNat_f32FromF16 hnan]
  exact value_widened hnan hnormal

/-- Widening a subnormal half halves it. -/
theorem value_f32FromF16_subnormal {h : UInt16} (hsub : half.IsSubnormal h.toNat) :
    single.value (f32FromF16 h).toNat =
      .finite (signed (half.sign h.toNat)
        (half.magnitude 0 (half.fraction h.toNat) / 2)) := by
  have hnan : ¬ half.IsNan h.toNat := by
    rintro ⟨htop, -⟩
    rw [hsub.1] at htop
    exact absurd htop (by decide)
  rw [toNat_f32FromF16 hnan, value_widened_subnormal (by decide) (by decide) hsub]
  norm_num [div_eq_mul_inv]

/-! ## Narrowing one float -/

/-- The word that a float of these fields is narrowed to. Bits that do not fit are cut off. -/
def narrowed (s e f : ℕ) : ℕ :=
  if e = 255 then if f ≠ 0 then half.pack s 31 512 else half.pack s 31 0
  else if 143 ≤ e then half.pack s 31 0
  else if e ≤ 112 then
    if e < 102 then half.pack s 0 0 else half.pack s 0 ((f + 2 ^ 23) / 2 ^ (113 - e) / 2 ^ 13)
  else half.pack s (e - 112) (f / 2 ^ 13)

/-- The fraction of a float that is too small for a leading one. -/
theorem toNat_denormalized {mantissa : UInt32} {f k : ℕ} (hmant : mantissa.toNat = f)
    (hf : f < 2 ^ 23) (hk : k < 32) :
    ((mantissa ||| 0x800000) >>> UInt32.ofNat k >>> 13).toNat = (f + 2 ^ 23) / 2 ^ k / 2 ^ 13 := by
  have hleading : (mantissa ||| 0x800000).toNat = f + 2 ^ 23 := by
    rw [UInt32.toNat_or, hmant, Nat.or_comm]
    have hadd : 2 ^ 23 * 1 + f = 2 ^ 23 * 1 ||| f := Nat.two_pow_add_eq_or_of_lt hf 1
    rw [Nat.mul_one] at hadd
    exact hadd.symm.trans (Nat.add_comm _ _)
  have hcount : (UInt32.ofNat k).toNat % 32 = k := by
    rw [UInt32.toNat_ofNat']
    omega
  rw [UInt32.toNat_shiftRight, UInt32.toNat_shiftRight, hleading, hcount,
    Nat.shiftRight_eq_div_pow, Nat.shiftRight_eq_div_pow]
  rfl

theorem denormalized_lt {f k : ℕ} (hf : f < 2 ^ 23) (hk : 1 ≤ k) :
    (f + 2 ^ 23) / 2 ^ k / 2 ^ 13 < 2 ^ 10 := by
  have hhalf : (f + 2 ^ 23) / 2 ^ k ≤ (f + 2 ^ 23) / 2 :=
    Nat.div_le_div_left (Nat.le_self_pow (by omega) 2) Nat.two_pos
  omega

theorem toNat_f16FromF32 (bits : UInt32) : (f16FromF32 bits).toNat =
    narrowed (single.sign bits.toNat) (single.exponent bits.toNat) (single.fraction bits.toNat) := by
  have hsign := toNat_signBit_single bits
  have hexp := toNat_exponent_single bits
  have hmant := toNat_fraction_single bits
  have hs : single.sign bits.toNat < 2 := Nat.mod_lt _ Nat.two_pos
  have he : single.exponent bits.toNat < 2 ^ 8 := Nat.mod_lt _ (Nat.two_pow_pos 8)
  have hf : single.fraction bits.toNat < 2 ^ 23 := Nat.mod_lt _ (Nat.two_pow_pos 23)
  rw [f16FromF32, narrowed, hexp]
  generalize (bits >>> 16) &&& 0x8000 = sign at *
  generalize bits &&& 0x7FFFFF = mantissa at *
  generalize single.sign bits.toNat = s at *
  generalize single.exponent bits.toNat = e at *
  generalize single.fraction bits.toNat = f at *
  have hnone : mantissa = 0 ↔ f = 0 := word_eq_iff hmant rfl
  have hzero : (0 : UInt32).toNat = 0 * 2 ^ 10 := rfl
  by_cases htop : e = 255
  · have htop' : (e : ℤ) = 0xFF := by omega
    rw [if_pos htop', if_pos htop]
    by_cases hf0 : f = 0
    · rw [if_neg (not_not.mpr (hnone.mpr hf0)), if_neg (not_not.mpr hf0),
        ← UInt32.or_zero (a := sign ||| 0x7C00)]
      exact toNat_half hsign rfl rfl hs (by decide) (by decide)
    · have hsplit : sign ||| 0x7E00 = sign ||| 0x7C00 ||| 0x200 := by
        rw [UInt32.or_assoc]
        rfl
      rw [if_pos (mt hnone.mp hf0), if_pos hf0, hsplit]
      exact toNat_half hsign rfl rfl hs (by decide) (by decide)
  · have htop' : ¬ (e : ℤ) = 0xFF := by omega
    rw [if_neg htop', if_neg htop]
    by_cases hover : 143 ≤ e
    · have hover' : (e : ℤ) - 127 + 15 ≥ 31 := by omega
      dsimp only
      rw [if_pos hover', if_pos hover, ← UInt32.or_zero (a := sign ||| 0x7C00)]
      exact toNat_half hsign rfl rfl hs (by decide) (by decide)
    · have hover' : ¬ (e : ℤ) - 127 + 15 ≥ 31 := by omega
      dsimp only
      rw [if_neg hover', if_neg hover]
      by_cases hunder : e ≤ 112
      · have hunder' : (e : ℤ) - 127 + 15 ≤ 0 := by omega
        rw [if_pos hunder', if_pos hunder]
        by_cases htiny : e < 102
        · have htiny' : (e : ℤ) - 127 + 15 < -10 := by omega
          have hsplit : sign = sign ||| 0 ||| 0 := by rw [UInt32.or_zero, UInt32.or_zero]
          rw [if_pos htiny', if_pos htiny, hsplit]
          exact toNat_half hsign hzero rfl hs (by decide) (by decide)
        · have htiny' : ¬ (e : ℤ) - 127 + 15 < -10 := by omega
          have hshift : (1 - ((e : ℤ) - 127 + 15)).toNat = 113 - e := by omega
          rw [if_neg htiny', if_neg htiny, hshift, ← UInt32.or_zero (a := sign)]
          exact toNat_half hsign hzero (toNat_denormalized hmant hf (by omega)) hs (by decide)
            (denormalized_lt hf (by omega))
      · have hunder' : ¬ (e : ℤ) - 127 + 15 ≤ 0 := by omega
        have hfield : (UInt32.ofNat ((e : ℤ) - 127 + 15).toNat).toNat = e - 112 := by
          have hexponent : ((e : ℤ) - 127 + 15).toNat = e - 112 := by omega
          rw [hexponent]
          exact UInt32.toNat_ofNat_of_lt' (by show e - 112 < 2 ^ 32; omega)
        have hcut : (mantissa >>> 13).toNat = f / 2 ^ 13 := by
          rw [UInt32.toNat_shiftRight, hmant]
          exact Nat.shiftRight_eq_div_pow f 13
        rw [if_neg hunder', if_neg hunder]
        exact toNat_half hsign (toNat_shiftLeft hfield rfl (by decide) (by omega)) hcut hs
          (by omega) (by omega)

/-- Narrowing a float that is packed from its fields. -/
theorem toNat_f16FromF32_of_pack {bits : UInt32} {s e f : ℕ} (h : bits.toNat = single.pack s e f)
    (hs : s < 2) (he : e < 2 ^ 8) (hf : f < 2 ^ 23) :
    (f16FromF32 bits).toNat = narrowed s e f := by
  rw [toNat_f16FromF32, h, @Format.sign_pack single s e f hs he hf,
    @Format.exponent_pack single s e f he hf, @Format.fraction_pack single s e f hf]

/-- A half that is not subnormal comes back from single precision. -/
theorem f16FromF32_f32FromF16 {h : UInt16} (hnan : ¬ half.IsNan h.toNat)
    (hnormal : ¬ half.IsSubnormal h.toNat) : f16FromF32 (f32FromF16 h) = h := by
  have hwide := toNat_f32FromF16 hnan
  have hword : half.pack (half.sign h.toNat) (half.exponent h.toNat) (half.fraction h.toNat) =
      h.toNat := Format.pack_fields h.toNat_lt
  have hs := half_sign_lt h.toNat
  have he := half_exponent_lt h.toNat
  have hf := half_fraction_lt h.toNat
  rw [Format.IsNan] at hnan
  rw [Format.IsSubnormal] at hnormal
  rw [widened] at hwide
  rw [← UInt16.toNat_inj, ← hword]
  generalize f32FromF16 h = wide at *
  generalize half.sign h.toNat = s at *
  generalize half.exponent h.toNat = e at *
  generalize half.fraction h.toNat = f at *
  by_cases h0 : e = 0
  · have hf0 : f = 0 := by
      by_contra hne
      exact hnormal ⟨h0, hne⟩
    subst h0 hf0
    rw [if_pos rfl, if_pos rfl] at hwide
    rw [toNat_f16FromF32_of_pack hwide hs (by decide) (by decide)]
    rfl
  · by_cases h31 : e = 31
    · have hf0 : f = 0 := by
        by_contra hne
        exact hnan ⟨h31, hne⟩
      subst h31 hf0
      rw [if_neg h0, if_pos rfl] at hwide
      rw [toNat_f16FromF32_of_pack hwide hs (by decide) (by decide)]
      rfl
    · rw [if_neg h0, if_neg h31] at hwide
      have htop : ¬ e + 112 = 255 := by omega
      have hover : ¬ 143 ≤ e + 112 := by omega
      have hunder : ¬ e + 112 ≤ 112 := by omega
      rw [toNat_f16FromF32_of_pack hwide hs (by omega) (by omega), narrowed, if_neg htop,
        if_neg hover, if_neg hunder, Nat.add_sub_cancel, Nat.mul_div_cancel _ (by decide)]

/-! ## Buffers -/

/-- What a buffer of halves stands for. -/
def halfValues (data : List UInt8) : List Value :=
  (words16 data).map fun h => half.value h.toNat

/-- What a buffer of floats stands for. -/
def singleValues (data : List UInt8) : List Value :=
  (words32 data).map fun f => single.value f.toNat

/-- A subnormal half does not keep its value. -/
theorem value_f32FromF16_ne {h : UInt16} (hsub : half.IsSubnormal h.toNat) :
    single.value (f32FromF16 h).toNat ≠ half.value h.toNat := by
  rw [value_f32FromF16_subnormal hsub, value_half_subnormal hsub]
  have hpos : half.magnitude 0 (half.fraction h.toNat) ≠ 0 := by
    rw [Format.magnitude, if_pos rfl]
    exact mul_ne_zero (Nat.cast_ne_zero.mpr hsub.2) (zpow_ne_zero _ two_ne_zero)
  intro hsame
  injection hsame with hmagnitude
  apply hpos
  rw [signed, signed] at hmagnitude
  split at hmagnitude <;> linarith

theorem words32_f16ToF32 (data : List UInt8) :
    words32 (f16ToF32 data) = (words16 data).map f32FromF16 := by
  rw [f16ToF32, ← words32_flatMap ((words16 data).map f32FromF16), List.flatMap_map]

/-- **Half-precision transfer is exact if and only if no lane is subnormal.** Widening a
buffer of halves keeps the values, agrees with the engines' decoder, and is undone by
narrowing. -/
theorem half_transfer_exact_iff {halves : List UInt16}
    (hnumbers : ∀ h ∈ halves, ¬ half.IsNan h.toNat) :
    let data := halves.flatMap bytes16
    let wide := convertForTransfer data .f16 .f32
    (singleValues wide = halfValues data ∧
      singleValues wide = (words16 data).map (fun h => single.value (Inference.f16ToF32 h).toNat) ∧
      convertForTransfer wide .f32 .f16 = data) ↔
    ∀ h ∈ halves, ¬ half.IsSubnormal h.toNat := by
  intro data wide
  have hwide : words32 wide = halves.map f32FromF16 :=
    (words32_f16ToF32 data).trans (congrArg (List.map f32FromF16) (words16_flatMap halves))
  have hdata : words16 data = halves := words16_flatMap halves
  have hback : convertForTransfer wide .f32 .f16 =
      (words32 wide).flatMap fun f => bytes16 (f16FromF32 f) := rfl
  rw [singleValues, halfValues, hback, hwide, hdata, List.map_map, List.flatMap_map]
  constructor
  · rintro ⟨hvalues, -⟩ h hmem hsub
    exact value_f32FromF16_ne hsub (List.map_inj_left.mp hvalues h hmem)
  · intro hnormal
    have hexact : ∀ h ∈ halves, single.value (f32FromF16 h).toNat = half.value h.toNat :=
      fun h hmem => value_f32FromF16 (hnumbers h hmem) (hnormal h hmem)
    refine ⟨List.map_inj_left.mpr hexact, List.map_inj_left.mpr fun h hmem => ?_, ?_⟩
    · exact (hexact h hmem).trans (Inference.value_f16ToF32 (hnumbers h hmem)).symm
    · apply List.flatMap_congr
      intro h hmem
      rw [f16FromF32_f32FromF16 (hnumbers h hmem) (hnormal h hmem)]

/-- Zero, one, the largest half, and minus infinity. -/
theorem half_transfer_exact_iff_normal :
    (∀ h ∈ [0x0000, 0x3C00, 0x7BFF, 0xFC00], ¬ half.IsNan (h : UInt16).toNat) ∧
      let data := ([0x0000, 0x3C00, 0x7BFF, 0xFC00] : List UInt16).flatMap bytes16
      let wide := convertForTransfer data .f16 .f32
      singleValues wide = halfValues data ∧ convertForTransfer wide .f32 .f16 = data := by
  have hnumbers : ∀ h ∈ [0x0000, 0x3C00, 0x7BFF, 0xFC00], ¬ half.IsNan (h : UInt16).toNat := by
    simp only [List.mem_cons, List.not_mem_nil, or_false, forall_eq_or_imp, forall_eq]
    decide
  have hnormal : ∀ h ∈ [0x0000, 0x3C00, 0x7BFF, 0xFC00], ¬ half.IsSubnormal (h : UInt16).toNat := by
    simp only [List.mem_cons, List.not_mem_nil, or_false, forall_eq_or_imp, forall_eq]
    decide
  obtain ⟨hvalues, -, hback⟩ := (half_transfer_exact_iff hnumbers).mpr hnormal
  exact ⟨hnumbers, hvalues, hback⟩

/-- The largest subnormal half is widened to half of it, which the engines' decoder is not
mistaken about, and does not come back. -/
theorem largest_subnormal_is_halved :
    let data := bytes16 0x03FF
    let wide := convertForTransfer data .f16 .f32
    ¬ half.IsNan (0x03FF : UInt16).toNat ∧
      halfValues data = [.finite (1023 / 2 ^ 24)] ∧
      singleValues wide = [.finite (1023 / 2 ^ 25)] ∧
      single.value (Inference.f16ToF32 0x03FF).toNat = .finite (1023 / 2 ^ 24) ∧
      convertForTransfer wide .f32 .f16 = bytes16 0x01FF := by
  have hsub : half.IsSubnormal (0x03FF : UInt16).toNat := by decide
  have hnan : ¬ half.IsNan (0x03FF : UInt16).toNat := by decide
  have hmagnitude : half.magnitude 0 (half.fraction (0x03FF : UInt16).toNat) = 1023 / 2 ^ 24 := by
    rw [Format.magnitude, if_pos rfl, half_leastExponent]
    have hfraction : half.fraction (0x03FF : UInt16).toNat = 1023 := by decide
    rw [hfraction]
    norm_num
  have hvalue : half.value (0x03FF : UInt16).toNat = .finite (1023 / 2 ^ 24) := by
    rw [value_half_subnormal hsub, hmagnitude]
    rfl
  refine ⟨hnan, congrArg ([·]) hvalue, ?_, (Inference.value_f16ToF32 hnan).trans hvalue, by decide⟩
  have hwide : single.value (f32FromF16 0x03FF).toNat = .finite (1023 / 2 ^ 25) := by
    rw [value_f32FromF16_subnormal hsub, hmagnitude]
    norm_num [signed]
    decide
  exact congrArg ([·]) hwide

end HiveBear.Mesh
