/-
# Binary interchange formats

A number in a binary interchange format is a word of a sign bit, an exponent field and a
fraction field. `Format.value` is what it stands for: an exact rational number, an infinity,
or no number at all. Widening a number to a larger format is exact if the value stays the same,
which `value_widen` says of the usual move: rebias the exponent, append zeros to the fraction.

A subnormal number has no leading one to drop, so a program that widens it first shifts the
fraction until there is one. `normalise` is this loop.
-/

import Mathlib.Algebra.Field.Rat
import Mathlib.Algebra.Order.Floor.Semiring
import Mathlib.Algebra.Order.Group.Unbundled.Abs
import Mathlib.Algebra.Order.Ring.Unbundled.Rat
import Mathlib.Data.Nat.Bitwise
import Mathlib.Data.Rat.Floor
import Mathlib.Data.UInt
import Mathlib.Tactic.FieldSimp
import Mathlib.Tactic.Linarith
import Mathlib.Tactic.NormNum
import Mathlib.Tactic.Ring

namespace BinaryFormat

/-- The widths of the exponent and the fraction field. -/
structure Format where
  exponentBits : ℕ
  fractionBits : ℕ

/-- What a word stands for. -/
inductive Value
  | finite (q : ℚ)
  | infinite (negative : Bool)
  | nan
  deriving DecidableEq

/-- A magnitude with a sign bit. -/
def signed (sign : ℕ) (q : ℚ) : ℚ := if sign = 0 then q else -q

namespace Format

variable (format : Format)

/-- What is subtracted from an exponent field. -/
def bias : ℕ := 2 ^ (format.exponentBits - 1) - 1

/-- The word of these fields. -/
def pack (sign exponent fraction : ℕ) : ℕ :=
  sign * 2 ^ (format.exponentBits + format.fractionBits) + exponent * 2 ^ format.fractionBits +
    fraction

/-- The sign bit of a word. -/
def sign (word : ℕ) : ℕ := word / 2 ^ (format.exponentBits + format.fractionBits) % 2

/-- The exponent field of a word. -/
def exponent (word : ℕ) : ℕ := word / 2 ^ format.fractionBits % 2 ^ format.exponentBits

/-- The fraction field of a word. -/
def fraction (word : ℕ) : ℕ := word % 2 ^ format.fractionBits

/-- The smallest positive number is two to this power. -/
def leastExponent : ℤ := 1 - (format.bias : ℤ) - format.fractionBits

/-- The magnitude of a finite number of these fields. -/
def magnitude (exponent fraction : ℕ) : ℚ :=
  if exponent = 0 then fraction * 2 ^ format.leastExponent
  else ((2 ^ format.fractionBits + fraction : ℕ) : ℚ) *
    2 ^ ((exponent : ℤ) - 1 + format.leastExponent)

/-- What a word of these fields stands for. -/
def valueOfFields (sign exponent fraction : ℕ) : Value :=
  if exponent = 2 ^ format.exponentBits - 1 then
    if fraction = 0 then .infinite (sign ≠ 0) else .nan
  else .finite (signed sign (format.magnitude exponent fraction))

/-- What a word stands for. -/
def value (word : ℕ) : Value :=
  format.valueOfFields (format.sign word) (format.exponent word) (format.fraction word)

/-- The word stands for no number. -/
def IsNan (word : ℕ) : Prop :=
  format.exponent word = 2 ^ format.exponentBits - 1 ∧ format.fraction word ≠ 0

/-- The word stands for a number other than zero that is too small for a leading one. -/
def IsSubnormal (word : ℕ) : Prop := format.exponent word = 0 ∧ format.fraction word ≠ 0

instance (word : ℕ) : Decidable (format.IsNan word) := inferInstanceAs (Decidable (_ ∧ _))

instance (word : ℕ) : Decidable (format.IsSubnormal word) := inferInstanceAs (Decidable (_ ∧ _))

/-! ## Fields of a packed word -/

variable {format} {s e f word : ℕ}

theorem valueOfFields_finite (h : e ≠ 2 ^ format.exponentBits - 1) :
    format.valueOfFields s e f = .finite (signed s (format.magnitude e f)) := by
  rw [valueOfFields, if_neg h]

theorem fraction_pack (hf : f < 2 ^ format.fractionBits) :
    format.fraction (format.pack s e f) = f := by
  have hsplit : format.pack s e f =
      f + 2 ^ format.fractionBits * (s * 2 ^ format.exponentBits + e) := by
    rw [pack, pow_add]
    ring
  rw [fraction, hsplit, Nat.add_mul_mod_self_left, Nat.mod_eq_of_lt hf]

theorem exponent_pack (he : e < 2 ^ format.exponentBits) (hf : f < 2 ^ format.fractionBits) :
    format.exponent (format.pack s e f) = e := by
  have hsplit : format.pack s e f =
      f + 2 ^ format.fractionBits * (e + 2 ^ format.exponentBits * s) := by
    rw [pack, pow_add]
    ring
  rw [exponent, hsplit, Nat.add_mul_div_left _ _ (Nat.two_pow_pos _), Nat.div_eq_of_lt hf,
    Nat.zero_add, Nat.add_mul_mod_self_left, Nat.mod_eq_of_lt he]

theorem sign_pack (hs : s < 2) (he : e < 2 ^ format.exponentBits)
    (hf : f < 2 ^ format.fractionBits) : format.sign (format.pack s e f) = s := by
  have hsplit : format.pack s e f = (f + 2 ^ format.fractionBits * e) +
      2 ^ (format.exponentBits + format.fractionBits) * s := by
    rw [pack]
    ring
  have hlow : f + 2 ^ format.fractionBits * e < 2 ^ (format.exponentBits + format.fractionBits) := by
    have hstep : 2 ^ format.fractionBits * (e + 1) ≤
        2 ^ format.fractionBits * 2 ^ format.exponentBits := Nat.mul_le_mul_left _ he
    rw [Nat.mul_add, Nat.mul_one] at hstep
    rw [pow_add, Nat.mul_comm (2 ^ format.exponentBits)]
    omega
  rw [sign, hsplit, Nat.add_mul_div_left _ _ (Nat.two_pow_pos _), Nat.div_eq_of_lt hlow,
    Nat.zero_add, Nat.mod_eq_of_lt hs]

/-- The value of a packed word. -/
theorem value_pack (hs : s < 2) (he : e < 2 ^ format.exponentBits)
    (hf : f < 2 ^ format.fractionBits) :
    format.value (format.pack s e f) = format.valueOfFields s e f := by
  rw [value, sign_pack hs he hf, exponent_pack he hf, fraction_pack hf]

/-- A word is packed from its fields. -/
theorem pack_fields (hword : word < 2 ^ (1 + format.exponentBits + format.fractionBits)) :
    format.pack (format.sign word) (format.exponent word) (format.fraction word) = word := by
  have hsign : word / 2 ^ (format.exponentBits + format.fractionBits) < 2 := by
    apply Nat.div_lt_of_lt_mul
    rw [Nat.add_assoc, pow_add, pow_one] at hword
    rwa [Nat.mul_comm]
  have hhigh : word / 2 ^ (format.exponentBits + format.fractionBits) =
      word / 2 ^ format.fractionBits / 2 ^ format.exponentBits := by
    rw [Nat.div_div_eq_div_mul, Nat.add_comm, pow_add]
  have hfraction := Nat.mod_add_div word (2 ^ format.fractionBits)
  have hexponent := Nat.mod_add_div (word / 2 ^ format.fractionBits) (2 ^ format.exponentBits)
  rw [pack, sign, exponent, fraction, Nat.mod_eq_of_lt hsign, hhigh, pow_add]
  generalize word / 2 ^ format.fractionBits / 2 ^ format.exponentBits = high at *
  calc _ = word % 2 ^ format.fractionBits + 2 ^ format.fractionBits *
          (word / 2 ^ format.fractionBits % 2 ^ format.exponentBits +
            2 ^ format.exponentBits * high) := by ring
    _ = word := by rw [hexponent, hfraction]

/-- Fields that are shifted into place and combined bit by bit. -/
theorem or_eq_pack (he : e < 2 ^ format.exponentBits) (hf : f < 2 ^ format.fractionBits) :
    s * 2 ^ (format.exponentBits + format.fractionBits) ||| e * 2 ^ format.fractionBits ||| f =
      format.pack s e f := by
  have hlow : e * 2 ^ format.fractionBits < 2 ^ (format.exponentBits + format.fractionBits) := by
    rw [pow_add]
    exact Nat.mul_lt_mul_of_pos_right he (Nat.two_pow_pos _)
  have hupper : s * 2 ^ (format.exponentBits + format.fractionBits) ||| e * 2 ^ format.fractionBits =
      2 ^ format.fractionBits * (s * 2 ^ format.exponentBits + e) := by
    rw [Nat.mul_comm s, ← Nat.two_pow_add_eq_or_of_lt hlow, pow_add]
    ring
  rw [hupper, ← Nat.two_pow_add_eq_or_of_lt hf, pack, pow_add]
  ring

end Format

/-- A number whose leading one has been shifted into place, in a wider format. -/
theorem Format.magnitude_of_leading {narrow wide : Format} {k n e m r : ℕ}
    (hwide : wide.fractionBits = narrow.fractionBits + k) (he : e ≠ 0)
    (hleading : m * 2 ^ n = 2 ^ narrow.fractionBits + r) :
    wide.magnitude e (r * 2 ^ k) = m * 2 ^ ((n : ℤ) + k + e - 1 + wide.leastExponent) := by
  have hfraction : 2 ^ wide.fractionBits + r * 2 ^ k = m * 2 ^ n * 2 ^ k := by
    rw [hleading, hwide, pow_add]
    ring
  have hsplit : (2 : ℚ) ^ ((n : ℤ) + k + e - 1 + wide.leastExponent) =
      2 ^ n * 2 ^ k * 2 ^ ((e : ℤ) - 1 + wide.leastExponent) := by
    rw [← pow_add, ← zpow_natCast, ← zpow_add₀ two_ne_zero]
    congr 1
    push_cast
    ring
  rw [magnitude, if_neg he, hfraction, hsplit]
  push_cast
  ring

/-! ## Half and single precision -/

/-- Half precision. -/
def half : Format := ⟨5, 10⟩

/-- Single precision. -/
def single : Format := ⟨8, 23⟩

theorem half_leastExponent : half.leastExponent = -24 := rfl

theorem single_leastExponent : single.leastExponent = -149 := rfl

/-- Widening a normal half: rebias the exponent, append zeros to the fraction. -/
theorem magnitude_half_normal {e f : ℕ} (he : e ≠ 0) :
    single.magnitude (e + 112) (f * 2 ^ 13) = half.magnitude e f := by
  have hleading : (1024 + f) * 2 ^ 0 = 2 ^ half.fractionBits + f := by
    rw [pow_zero, Nat.mul_one]
    rfl
  have hexponent : ((0 : ℕ) : ℤ) + (13 : ℕ) + (e + 112 : ℕ) - 1 + single.leastExponent =
      (e : ℤ) - 1 + half.leastExponent := by
    rw [half_leastExponent, single_leastExponent]
    push_cast
    ring
  rw [Format.magnitude_of_leading rfl (by omega) hleading, Format.magnitude, if_neg he,
    hexponent]
  rfl

/-- A subnormal half whose fraction has been shifted until its leading one is in place. -/
theorem magnitude_half_subnormal {e f n r : ℕ} (he : e ≠ 0) (hleading : f * 2 ^ n = 1024 + r) :
    single.magnitude e (r * 2 ^ 13) =
      half.magnitude 0 f * 2 ^ ((n : ℤ) + e - 113) := by
  have hexponent : (n : ℤ) + (13 : ℕ) + e - 1 + single.leastExponent =
      half.leastExponent + ((n : ℤ) + e - 113) := by
    rw [half_leastExponent, single_leastExponent]
    push_cast
    ring
  have hin : f * 2 ^ n = 2 ^ half.fractionBits + r := hleading
  rw [Format.magnitude_of_leading rfl he hin, Format.magnitude, if_pos rfl, hexponent,
    zpow_add₀ two_ne_zero, mul_assoc]

/-! ## Shifting a fraction into place -/

/-- The loop that shifts a fraction left until the leading bit is set and counts the shifts,
for at most this many rounds. -/
def normalise (leading : UInt32) : ℕ → UInt32 → UInt32 → UInt32 × UInt32
  | 0, m, e => (m, e)
  | fuel + 1, m, e =>
      if m &&& leading = 0 then normalise leading fuel (m <<< 1) (e + 1) else (m, e)

/-- The bit of half precision's leading one. -/
theorem and_leading_eq_zero {m : UInt32} (hm : m.toNat < 2048) :
    m &&& 0x400 = 0 ↔ m.toNat < 1024 := by
  have hbit : (m &&& 0x400).toNat = (m.toNat.testBit 10).toNat * 2 ^ 10 := by
    rw [UInt32.toNat_and]
    exact Nat.and_two_pow m.toNat 10
  rw [← UInt32.toNat_inj, hbit, Nat.testBit_eq_decide_div_mod_eq]
  by_cases hsmall : m.toNat < 1024
  · have hzero : m.toNat / 1024 = 0 := Nat.div_eq_of_lt hsmall
    simp [hzero, hsmall]
  · have hone : m.toNat / 1024 = 1 := by omega
    simp [hone, hsmall]

/-- **The loop ends with the leading bit set.** A fraction of half precision that is not zero
is shifted as often as it takes, and each shift is counted. -/
theorem normalise_spec {m e : UInt32} {n fuel : ℕ} (hfuel : n ≤ fuel) (he : e.toNat + n < 2 ^ 32)
    (hlow : 1024 ≤ m.toNat * 2 ^ n) (hhigh : m.toNat * 2 ^ n < 2048) :
    (normalise 0x400 fuel m e).1.toNat = m.toNat * 2 ^ n ∧
      (normalise 0x400 fuel m e).2.toNat = e.toNat + n := by
  induction n generalizing m e fuel with
  | zero =>
      rw [pow_zero, Nat.mul_one] at hlow hhigh ⊢
      cases fuel with
      | zero => exact ⟨rfl, rfl⟩
      | succ fuel =>
          have hset : ¬ m &&& 0x400 = 0 := fun hzero =>
            absurd ((and_leading_eq_zero hhigh).mp hzero) (by omega)
          rw [normalise, if_neg hset]
          exact ⟨rfl, rfl⟩
  | succ n ih =>
      cases fuel with
      | zero => exact absurd hfuel (Nat.not_succ_le_zero n)
      | succ fuel =>
          have hsmall : m.toNat < 1024 := by
            have hdouble : m.toNat * 2 ≤ m.toNat * 2 ^ (n + 1) :=
              Nat.mul_le_mul_left _ (Nat.le_self_pow n.succ_ne_zero 2)
            omega
          have hclear : m &&& 0x400 = 0 := (and_leading_eq_zero (by omega)).mpr hsmall
          have hshift : (m <<< 1).toNat = m.toNat * 2 := by
            rw [UInt32.toNat_shiftLeft]
            show m.toNat <<< 1 % 2 ^ 32 = _
            rw [Nat.shiftLeft_eq]
            omega
          have hcount : (e + 1).toNat = e.toNat + 1 := by
            rw [UInt32.toNat_add]
            show (e.toNat + 1) % 2 ^ 32 = _
            omega
          have hdouble : (m <<< 1).toNat * 2 ^ n = m.toNat * 2 ^ (n + 1) := by
            rw [hshift, pow_succ]
            ring
          obtain ⟨hm, hn⟩ : (normalise 0x400 fuel (m <<< 1) (e + 1)).1.toNat =
                (m <<< 1).toNat * 2 ^ n ∧
              (normalise 0x400 fuel (m <<< 1) (e + 1)).2.toNat = (e + 1).toNat + n :=
            ih (Nat.le_of_succ_le_succ hfuel) (by omega) (by omega) (by omega)
          rw [normalise, if_pos hclear, hm, hn, hdouble, hcount]
          exact ⟨rfl, by omega⟩

/-- How far a fraction of half precision is shifted until its leading one is in place. -/
def shiftOf (f : ℕ) : ℕ := 10 - f.log2

theorem shiftOf_le (f : ℕ) : shiftOf f ≤ 10 := Nat.sub_le 10 _

/-- A fraction that is not zero ends up between one and two. -/
theorem shiftOf_spec {f : ℕ} (hpos : f ≠ 0) (hf : f < 2 ^ 10) :
    1024 ≤ f * 2 ^ shiftOf f ∧ f * 2 ^ shiftOf f < 2048 := by
  have hlow : 2 ^ f.log2 ≤ f := Nat.log2_self_le hpos
  have hhigh : f < 2 ^ (f.log2 + 1) := Nat.lt_log2_self
  have hlog : f.log2 < 10 := (Nat.log2_lt hpos).mpr hf
  have hsum : f.log2 + shiftOf f = 10 := by
    rw [shiftOf]
    omega
  constructor
  · calc 1024 = 2 ^ (f.log2 + shiftOf f) := (congrArg (2 ^ ·) hsum).symm
      _ = 2 ^ f.log2 * 2 ^ shiftOf f := pow_add _ _ _
      _ ≤ f * 2 ^ shiftOf f := Nat.mul_le_mul_right _ hlow
  · calc f * 2 ^ shiftOf f < 2 ^ (f.log2 + 1) * 2 ^ shiftOf f :=
          Nat.mul_lt_mul_of_pos_right hhigh (Nat.two_pow_pos _)
      _ = 2 ^ (f.log2 + shiftOf f) * 2 := by ring
      _ = 2048 := congrArg (2 ^ · * 2) hsum

/-- The loop on a fraction of half precision that is not zero. -/
theorem normalise_fraction {m e : UInt32} {f k : ℕ} (hm : m.toNat = f) (he : e.toNat = k)
    (hpos : f ≠ 0) (hf : f < 2 ^ 10) (hk : k ≤ 1) :
    (normalise 0x400 32 m e).1.toNat = f * 2 ^ shiftOf f ∧
      (normalise 0x400 32 m e).2.toNat = k + shiftOf f := by
  obtain ⟨hlow, hhigh⟩ := shiftOf_spec hpos hf
  have hshift := shiftOf_le f
  rw [← hm] at hlow hhigh hshift ⊢
  rw [← he] at hk ⊢
  exact normalise_spec (by omega) (by omega) hlow hhigh

/-! ## Half precision widened to single precision -/

/-- A half in single precision. The exponent of a subnormal one is counted down from
`subnormal`, once for each shift. -/
def widened (subnormal word : ℕ) : ℕ :=
  let s := half.sign word
  let e := half.exponent word
  let f := half.fraction word
  if e = 0 then
    if f = 0 then single.pack s 0 0
    else single.pack s (subnormal - shiftOf f) ((f * 2 ^ shiftOf f - 1024) * 2 ^ 13)
  else if e = 31 then single.pack s 255 (f * 2 ^ 13)
  else single.pack s (e + 112) (f * 2 ^ 13)

theorem single_pack_zero (s : ℕ) : single.pack s 0 0 = s * 2 ^ 31 := by
  rw [Format.pack, Nat.zero_mul, Nat.add_zero]
  rfl

theorem half_exponent_lt (word : ℕ) : half.exponent word < 2 ^ 5 := Nat.mod_lt _ (Nat.two_pow_pos 5)

theorem half_fraction_lt (word : ℕ) : half.fraction word < 2 ^ 10 :=
  Nat.mod_lt _ (Nat.two_pow_pos 10)

theorem half_sign_lt (word : ℕ) : half.sign word < 2 := Nat.mod_lt _ Nat.two_pos

/-- **Widening is exact** for a half that is neither subnormal nor no number. -/
theorem value_widened {subnormal word : ℕ} (hnan : ¬ half.IsNan word)
    (hnormal : ¬ half.IsSubnormal word) :
    single.value (widened subnormal word) = half.value word := by
  have hs := half_sign_lt word
  have he := half_exponent_lt word
  have hf := half_fraction_lt word
  rw [Format.IsNan] at hnan
  rw [Format.IsSubnormal] at hnormal
  show _ = half.valueOfFields (half.sign word) (half.exponent word) (half.fraction word)
  rw [widened]
  generalize half.sign word = s at *
  generalize half.exponent word = e at *
  generalize half.fraction word = f at *
  have hbound : f * 2 ^ 13 < 2 ^ single.fractionBits := by
    show f * 2 ^ 13 < 2 ^ 23
    omega
  by_cases hzero : e = 0
  · have hfzero : f = 0 := by
      by_contra hne
      exact hnormal ⟨hzero, hne⟩
    subst hzero hfzero
    rw [if_pos rfl, if_pos rfl, Format.value_pack hs (by decide) (by decide),
      Format.valueOfFields_finite (by decide), Format.valueOfFields_finite (by decide),
      Format.magnitude, Format.magnitude, if_pos rfl, if_pos rfl, Nat.cast_zero, zero_mul, zero_mul]
  · by_cases htop : e = 31
    · have hfzero : f = 0 := by
        by_contra hne
        exact hnan ⟨htop, hne⟩
      subst htop hfzero
      rw [if_neg hzero, if_pos rfl, Format.value_pack hs (by decide) hbound]
      rfl
    · have hfield : e + 112 < 2 ^ single.exponentBits := by
        show e + 112 < 2 ^ 8
        omega
      have hsingle : e + 112 ≠ 2 ^ single.exponentBits - 1 := by
        show e + 112 ≠ 2 ^ 8 - 1
        omega
      rw [if_neg hzero, if_neg htop, Format.value_pack hs hfield hbound,
        Format.valueOfFields_finite hsingle, Format.valueOfFields_finite htop,
        magnitude_half_normal hzero]

/-- A subnormal half, widened: its magnitude is off by the power of two by which the exponent
is. -/
theorem value_widened_subnormal {subnormal word : ℕ} (hlow : 11 ≤ subnormal)
    (hhigh : subnormal < 255) (h : half.IsSubnormal word) :
    single.value (widened subnormal word) =
      .finite (signed (half.sign word)
        (half.magnitude 0 (half.fraction word) * 2 ^ ((subnormal : ℤ) - 113))) := by
  have hs := half_sign_lt word
  have hf := half_fraction_lt word
  obtain ⟨hzero, hpos⟩ := h
  rw [widened]
  generalize half.sign word = s at *
  generalize half.fraction word = f at *
  obtain ⟨hlead, hlt⟩ := shiftOf_spec hpos hf
  have hshift := shiftOf_le f
  have hfield : subnormal - shiftOf f < 2 ^ single.exponentBits := by
    show subnormal - shiftOf f < 2 ^ 8
    omega
  have hfinite : subnormal - shiftOf f ≠ 2 ^ single.exponentBits - 1 := by
    show subnormal - shiftOf f ≠ 2 ^ 8 - 1
    omega
  have hbound : (f * 2 ^ shiftOf f - 1024) * 2 ^ 13 < 2 ^ single.fractionBits := by
    show (f * 2 ^ shiftOf f - 1024) * 2 ^ 13 < 2 ^ 23
    omega
  have hleading : f * 2 ^ shiftOf f = 1024 + (f * 2 ^ shiftOf f - 1024) := by omega
  have hexponent : (shiftOf f : ℤ) + (subnormal - shiftOf f : ℕ) - 113 = (subnormal : ℤ) - 113 := by
    omega
  rw [if_pos hzero, if_neg hpos, Format.value_pack hs hfield hbound,
    Format.valueOfFields_finite hfinite, magnitude_half_subnormal (by omega) hleading, hexponent]

/-- The value of a subnormal half. -/
theorem value_half_subnormal {word : ℕ} (h : half.IsSubnormal word) :
    half.value word =
      .finite (signed (half.sign word) (half.magnitude 0 (half.fraction word))) := by
  have hfinite : half.exponent word ≠ 2 ^ half.exponentBits - 1 := by
    rw [h.1]
    decide
  rw [Format.value, Format.valueOfFields_finite hfinite, h.1]

/-! ## Fields by shifts and masks -/

/-- The mask of a half's fraction. -/
theorem toNat_fraction (h : UInt16) : (h &&& 0x3ff).toUInt32.toNat = half.fraction h.toNat := by
  rw [UInt16.toNat_toUInt32, UInt16.toNat_and]
  exact Nat.and_two_pow_sub_one_eq_mod h.toNat 10

/-- Shift and mask of a half's exponent. -/
theorem toNat_exponent (h : UInt16) :
    ((h >>> 10) &&& 0x1f).toUInt32.toNat = half.exponent h.toNat := by
  rw [UInt16.toNat_toUInt32, UInt16.toNat_and, UInt16.toNat_shiftRight]
  show h.toNat >>> 10 &&& 31 = _
  rw [Nat.shiftRight_eq_div_pow]
  exact Nat.and_two_pow_sub_one_eq_mod _ 5

/-- Shift and mask of a half's sign. -/
theorem toNat_sign (h : UInt16) : ((h >>> 15) &&& 1).toUInt32.toNat = half.sign h.toNat := by
  rw [UInt16.toNat_toUInt32, UInt16.toNat_and, UInt16.toNat_shiftRight]
  show h.toNat >>> 15 &&& 1 = _
  rw [Nat.shiftRight_eq_div_pow]
  exact Nat.and_two_pow_sub_one_eq_mod _ 1

/-- The mask of a single bit. -/
theorem and_bit (n k : ℕ) : n &&& 2 ^ k = n / 2 ^ k % 2 * 2 ^ k := by
  rw [Nat.and_two_pow, Nat.testBit_eq_decide_div_mod_eq]
  rcases Nat.mod_two_eq_zero_or_one (n / 2 ^ k) with hbit | hbit <;> simp [hbit]

/-- The mask of a half's sign, left in place. -/
theorem toNat_signBit (h : UInt16) :
    (h &&& 0x8000).toUInt32.toNat = half.sign h.toNat * 2 ^ 15 := by
  rw [UInt16.toNat_toUInt32, UInt16.toNat_and]
  exact and_bit h.toNat 15

/-- The sign of a word of single precision, moved to where a half has it. -/
theorem toNat_signBit_single (w : UInt32) :
    ((w >>> 16) &&& 0x8000).toNat = single.sign w.toNat * 2 ^ 15 := by
  rw [UInt32.toNat_and, UInt32.toNat_shiftRight]
  show w.toNat >>> 16 &&& 2 ^ 15 = w.toNat / 2 ^ (8 + 23) % 2 * 2 ^ 15
  rw [and_bit, Nat.shiftRight_eq_div_pow, Nat.div_div_eq_div_mul, ← pow_add]

/-- Shift and mask of the exponent in single precision. -/
theorem toNat_exponent_single (w : UInt32) :
    ((w >>> 23) &&& 0xFF).toNat = single.exponent w.toNat := by
  rw [UInt32.toNat_and, UInt32.toNat_shiftRight]
  show w.toNat >>> 23 &&& 255 = _
  rw [Nat.shiftRight_eq_div_pow]
  exact Nat.and_two_pow_sub_one_eq_mod _ 8

/-- The mask of the fraction in single precision. -/
theorem toNat_fraction_single (w : UInt32) : (w &&& 0x7FFFFF).toNat = single.fraction w.toNat := by
  rw [UInt32.toNat_and]
  exact Nat.and_two_pow_sub_one_eq_mod w.toNat 23

/-- A left shift that loses no bits. -/
theorem toNat_shiftLeft {x by32 : UInt32} {n k : ℕ} (hx : x.toNat = n) (hk : by32.toNat = k)
    (hword : k < 32) (hfits : n * 2 ^ k < 2 ^ 32) : (x <<< by32).toNat = n * 2 ^ k := by
  rw [UInt32.toNat_shiftLeft, hk, Nat.mod_eq_of_lt hword, Nat.shiftLeft_eq, hx,
    Nat.mod_eq_of_lt hfits]

/-- The word of single precision with these fields in place. -/
theorem toNat_single {S E M : UInt32} {s e m : ℕ} (hS : S.toNat = s * 2 ^ 31)
    (hE : E.toNat = e * 2 ^ 23) (hM : M.toNat = m) (he : e < 2 ^ 8) (hm : m < 2 ^ 23) :
    (S ||| E ||| M).toNat = single.pack s e m := by
  rw [UInt32.toNat_or, UInt32.toNat_or, hS, hE, hM]
  exact @Format.or_eq_pack single s e m he hm

/-- The word of half precision with these fields in place. -/
theorem toNat_half {S E M : UInt32} {s e m : ℕ} (hS : S.toNat = s * 2 ^ 15)
    (hE : E.toNat = e * 2 ^ 10) (hM : M.toNat = m) (hs : s < 2) (he : e < 2 ^ 5)
    (hm : m < 2 ^ 10) : (S ||| E ||| M).toUInt16.toNat = half.pack s e m := by
  have hor : (S ||| E ||| M).toNat = half.pack s e m := by
    rw [UInt32.toNat_or, UInt32.toNat_or, hS, hE, hM]
    exact @Format.or_eq_pack half s e m he hm
  have hfits : half.pack s e m < 2 ^ 16 := by
    show s * 2 ^ 15 + e * 2 ^ 10 + m < 2 ^ 16
    omega
  rw [UInt32.toNat_toUInt16, hor, Nat.mod_eq_of_lt hfits]

/-- The mask that drops a leading one. -/
theorem toNat_dropLeading {x : UInt32} {n : ℕ} (hx : x.toNat = n) (hlow : 1024 ≤ n)
    (hhigh : n < 2048) : (x &&& 0x3ff).toNat = n - 1024 := by
  have hmask : (x &&& 0x3ff).toNat = n % 2 ^ 10 := by
    rw [UInt32.toNat_and, hx]
    exact Nat.and_two_pow_sub_one_eq_mod n 10
  omega

/-- The word of single precision whose fraction is a normalised one without its leading bit. -/
theorem toNat_single_normalised {S m n E : UInt32} {s f start e : ℕ} (hS : S.toNat = s * 2 ^ 31)
    (hm : m.toNat = f) (hn : n.toNat = start) (hpos : f ≠ 0) (hf : f < 2 ^ 10) (hstart : start ≤ 1)
    (hE : E.toNat = e) (he : e < 2 ^ 8) :
    (S ||| E <<< 23 ||| ((normalise 0x400 32 m n).1 &&& 0x3ff) <<< 13).toNat =
      single.pack s e ((f * 2 ^ shiftOf f - 1024) * 2 ^ 13) := by
  obtain ⟨hlow, hhigh⟩ := shiftOf_spec hpos hf
  have hfraction := toNat_dropLeading (normalise_fraction hm hn hpos hf hstart).1 hlow hhigh
  exact toNat_single hS (toNat_shiftLeft hE rfl (by decide) (by omega))
    (toNat_shiftLeft hfraction rfl (by decide) (by omega)) he (by omega)

theorem word_eq_iff {x y : UInt32} {n k : ℕ} (hx : x.toNat = n) (hy : y.toNat = k) :
    x = y ↔ n = k := by
  rw [← UInt32.toNat_inj, hx, hy]

/-! ## The numbers of a format in their order

The finite numbers of a format are multiples of its smallest one. The number behind one of them is as
far away as the exponent says, so a number that is below the next one is not above this one.
-/

/-- One value is at most another. -/
def Value.Le : Value → Value → Prop
  | .nan, _ | _, .nan => False
  | .finite p, .finite q => p ≤ q
  | .infinite negative, .finite _ => negative = true
  | .finite _, .infinite negative => negative = false
  | .infinite negative, .infinite negative' => negative = true ∨ negative' = false

theorem abs_signed (s : ℕ) {q : ℚ} (h : 0 ≤ q) : |signed s q| = q := by
  rw [signed]
  split_ifs
  · exact abs_of_nonneg h
  · rw [abs_neg, abs_of_nonneg h]

namespace Format

variable {format : Format} {e f e' f' : ℕ}

/-- A finite number as a multiple of the smallest one. -/
def units (format : Format) (exponent fraction : ℕ) : ℕ :=
  if exponent = 0 then fraction else (2 ^ format.fractionBits + fraction) * 2 ^ (exponent - 1)

theorem magnitude_eq_units (format : Format) (e f : ℕ) :
    format.magnitude e f = format.units e f * 2 ^ format.leastExponent := by
  rw [magnitude, units]
  split_ifs with hzero
  · rfl
  · have hexponent :
        (e : ℤ) - 1 + format.leastExponent = ((e - 1 : ℕ) : ℤ) + format.leastExponent := by
      omega
    rw [hexponent, zpow_add₀ two_ne_zero, zpow_natCast, ← mul_assoc]
    push_cast
    rfl

theorem magnitude_nonneg (format : Format) (e f : ℕ) : 0 ≤ format.magnitude e f := by
  rw [magnitude_eq_units]
  exact mul_nonneg (Nat.cast_nonneg _) (zpow_pos two_pos _).le

/-- Numbers of a smaller exponent are smaller. -/
theorem units_lt (hf' : f' < 2 ^ format.fractionBits) (hlt : e' < e) :
    format.units e' f' < 2 ^ format.fractionBits * 2 ^ (e - 1) := by
  rw [units]
  split_ifs with hzero
  · exact lt_of_lt_of_le hf' (Nat.le_mul_of_pos_right _ (Nat.two_pow_pos _))
  · have hpower : 2 * 2 ^ (e' - 1) ≤ 2 ^ (e - 1) := by
      rw [← Nat.pow_succ']
      exact Nat.pow_le_pow_right Nat.two_pos (by omega)
    calc (2 ^ format.fractionBits + f') * 2 ^ (e' - 1)
        < (2 ^ format.fractionBits + 2 ^ format.fractionBits) * 2 ^ (e' - 1) :=
          Nat.mul_lt_mul_of_pos_right (by omega) (Nat.two_pow_pos _)
      _ = 2 ^ format.fractionBits * (2 * 2 ^ (e' - 1)) := by ring
      _ ≤ 2 ^ format.fractionBits * 2 ^ (e - 1) := Nat.mul_le_mul_left _ hpower

/-- **The next number is a step of the exponent away.** -/
theorem units_le_of_lt_next (hf : f < 2 ^ format.fractionBits) (hf' : f' < 2 ^ format.fractionBits)
    (hnext : format.units e' f' < format.units e f + 2 ^ (e - 1)) :
    format.units e' f' ≤ format.units e f := by
  by_cases hzero : e = 0
  · subst hzero
    exact Nat.le_of_lt_succ hnext
  · have hunits : format.units e f = (2 ^ format.fractionBits + f) * 2 ^ (e - 1) := if_neg hzero
    rcases lt_trichotomy e' e with hlt | rfl | hgt
    · rw [hunits]
      exact (units_lt hf' hlt).le.trans (Nat.mul_le_mul_right _ (Nat.le_add_right _ _))
    · have hunits' : format.units e' f' = (2 ^ format.fractionBits + f') * 2 ^ (e' - 1) :=
        if_neg hzero
      rw [hunits, hunits', ← Nat.succ_mul] at hnext
      rw [hunits, hunits']
      have hfraction := Nat.lt_of_mul_lt_mul_right hnext
      exact Nat.mul_le_mul_right _ (by omega)
    · have hunits' : format.units e' f' = (2 ^ format.fractionBits + f') * 2 ^ (e' - 1) :=
        if_neg (by omega)
      have hpower : 2 * 2 ^ (e - 1) ≤ 2 ^ (e' - 1) := by
        rw [← Nat.pow_succ']
        exact Nat.pow_le_pow_right Nat.two_pos (by omega)
      have habove : format.units e f + 2 ^ (e - 1) ≤ format.units e' f' := by
        calc format.units e f + 2 ^ (e - 1)
            = (2 ^ format.fractionBits + f + 1) * 2 ^ (e - 1) := by rw [hunits, ← Nat.succ_mul]
          _ ≤ (2 ^ format.fractionBits + 2 ^ format.fractionBits) * 2 ^ (e - 1) :=
            Nat.mul_le_mul_right _ (by omega)
          _ = 2 ^ format.fractionBits * (2 * 2 ^ (e - 1)) := by ring
          _ ≤ 2 ^ format.fractionBits * 2 ^ (e' - 1) := Nat.mul_le_mul_left _ hpower
          _ ≤ format.units e' f' := by
            rw [hunits']
            exact Nat.mul_le_mul_right _ (Nat.le_add_right _ _)
      exact absurd hnext (not_lt.mpr habove)

end Format

/-! ## Floats to integers

Converting a float to an unsigned integer cuts off its fraction and takes the closest integer
there is. That has nothing to do with the bits of the float: in single precision the only word
that is the integer its float converts to is zero. Where an integer is expected and a float is
read from its bits, nothing else survives.
-/

/-- The integer up to a greatest one that a number is converted to. -/
def Value.saturate (greatest : ℕ) : Value → ℕ
  | .finite q => min ⌊q⌋₊ greatest
  | .infinite negative => if negative then 0 else greatest
  | .nan => 0

theorem Value.saturate_le (greatest : ℕ) (v : Value) : v.saturate greatest ≤ greatest := by
  cases v with
  | finite q => exact Nat.min_le_right _ _
  | infinite negative =>
      rw [saturate]
      split_ifs
      · exact Nat.zero_le greatest
      · exact le_rfl
  | nan => exact Nat.zero_le greatest

variable {e f k : ℕ}

/-- The magnitude of a normal number in single precision. -/
theorem magnitude_single (he : e ≠ 0) :
    single.magnitude e f = ((2 ^ 23 + f : ℕ) : ℚ) * 2 ^ ((e : ℤ) - 150) := by
  rw [Format.magnitude, if_neg he, single_leastExponent]
  congr 2
  ring

/-- A normal number is below the power of two that its exponent field gives. -/
theorem magnitude_single_lt (he : e ≠ 0) (hf : f < 2 ^ 23) (hk : e ≤ k + 126) :
    single.magnitude e f < 2 ^ k := by
  have hfraction : ((2 ^ 23 + f : ℕ) : ℚ) < 2 ^ (24 : ℤ) := by
    have hlt : 2 ^ 23 + f < 2 ^ 24 := by omega
    exact_mod_cast hlt
  have hpos : (0 : ℚ) < 2 ^ ((e : ℤ) - 150) := zpow_pos two_pos _
  calc single.magnitude e f = ((2 ^ 23 + f : ℕ) : ℚ) * 2 ^ ((e : ℤ) - 150) := magnitude_single he
    _ < 2 ^ (24 : ℤ) * 2 ^ ((e : ℤ) - 150) := mul_lt_mul_of_pos_right hfraction hpos
    _ = 2 ^ ((e : ℤ) - 126) := by
        rw [← zpow_add₀ two_ne_zero]
        congr 1
        ring
    _ ≤ 2 ^ (k : ℤ) := zpow_le_zpow_right₀ one_le_two (by omega)
    _ = 2 ^ k := zpow_natCast 2 k

/-- A normal number is at least the power of two below it. -/
theorem le_magnitude_single (he : k + 127 ≤ e) : 2 ^ k ≤ single.magnitude e f := by
  have hfraction : (2 : ℚ) ^ (23 : ℤ) ≤ ((2 ^ 23 + f : ℕ) : ℚ) := by
    have hle : 2 ^ 23 ≤ 2 ^ 23 + f := by omega
    exact_mod_cast hle
  have hpos : (0 : ℚ) ≤ 2 ^ ((e : ℤ) - 150) := (zpow_pos two_pos _).le
  calc (2 : ℚ) ^ k = 2 ^ (k : ℤ) := (zpow_natCast 2 k).symm
    _ ≤ 2 ^ ((e : ℤ) - 127) := zpow_le_zpow_right₀ one_le_two (by omega)
    _ = 2 ^ (23 : ℤ) * 2 ^ ((e : ℤ) - 150) := by
        rw [← zpow_add₀ two_ne_zero]
        congr 1
        ring
    _ ≤ ((2 ^ 23 + f : ℕ) : ℚ) * 2 ^ ((e : ℤ) - 150) := mul_le_mul_of_nonneg_right hfraction hpos
    _ = single.magnitude e f := (magnitude_single (by omega)).symm

/-- Subnormal numbers are below one. -/
theorem magnitude_single_zero_lt (hf : f < 2 ^ 23) : single.magnitude 0 f < 1 := by
  have hfraction : (f : ℚ) < 2 ^ (23 : ℤ) := by exact_mod_cast hf
  have hpos : (0 : ℚ) < 2 ^ (-149 : ℤ) := zpow_pos two_pos _
  calc single.magnitude 0 f = f * 2 ^ (-149 : ℤ) := by
        rw [Format.magnitude, if_pos rfl, single_leastExponent]
    _ < 2 ^ (23 : ℤ) * 2 ^ (-149 : ℤ) := mul_lt_mul_of_pos_right hfraction hpos
    _ = 2 ^ (-126 : ℤ) := by rw [← zpow_add₀ two_ne_zero]; norm_num
    _ ≤ 2 ^ (0 : ℤ) := zpow_le_zpow_right₀ one_le_two (by norm_num)
    _ = 1 := zpow_zero 2

theorem magnitude_single_nonneg (e f : ℕ) : 0 ≤ single.magnitude e f := by
  rw [Format.magnitude]
  split_ifs
  · exact mul_nonneg (Nat.cast_nonneg f) (zpow_pos two_pos _).le
  · exact mul_nonneg (Nat.cast_nonneg _) (zpow_pos two_pos _).le

theorem floor_lt_of_lt_two_pow {q : ℚ} (h : q < 2 ^ k) : ⌊q⌋₊ < 2 ^ k := by
  rw [Nat.floor_lt' (Nat.two_pow_pos k).ne']
  exact_mod_cast h

theorem le_floor_of_two_pow_le {q : ℚ} (h : 2 ^ k ≤ q) : 2 ^ k ≤ ⌊q⌋₊ := by
  apply Nat.le_floor
  exact_mod_cast h

/-- The integers that magnitudes convert to, by their exponent fields: none is the word. -/
theorem floor_magnitude_single (hf : f < 2 ^ 23) (he : e < 255)
    (h : min ⌊single.magnitude e f⌋₊ 4294967295 = e * 2 ^ 23 + f) : e = 0 ∧ f = 0 := by
  rcases Nat.eq_zero_or_pos e with rfl | hpos
  · have hsmall := floor_lt_of_lt_two_pow (k := 0) (by simpa using magnitude_single_zero_lt hf)
    omega
  have hne : e ≠ 0 := hpos.ne'
  rcases Nat.lt_or_ge e 150 with hlow | hhigh
  · have hsmall := floor_lt_of_lt_two_pow (magnitude_single_lt (k := 23) hne hf (by omega))
    omega
  rcases Nat.lt_or_ge e 157 with hlow | hhigh
  · have hsmall := floor_lt_of_lt_two_pow (magnitude_single_lt (k := 30) hne hf (by omega))
    omega
  rcases Nat.eq_or_lt_of_le hhigh with rfl | hhigh
  · -- 2 ^ 30 + 128 f = 157 * 2 ^ 23 + f has no solution
    have hexact : single.magnitude 157 f = (((2 ^ 23 + f) * 128 : ℕ) : ℚ) := by
      rw [magnitude_single (by decide)]
      push_cast
      norm_num
    rw [hexact, Nat.floor_natCast] at h
    omega
  · have hlarge := le_floor_of_two_pow_le (le_magnitude_single (k := 31) (f := f) hhigh)
    omega

/-- **The only word that is the integer its float converts to is zero.** -/
theorem saturate_single_eq_self_iff {word : ℕ} (hword : word < 2 ^ 32) :
    (single.value word).saturate 4294967295 = word ↔ word = 0 := by
  have hfields : word = single.sign word * 2 ^ 31 + single.exponent word * 2 ^ 23 +
      single.fraction word := (single.pack_fields hword).symm
  have he : single.exponent word < 2 ^ 8 := Nat.mod_lt _ (Nat.two_pow_pos 8)
  have hf : single.fraction word < 2 ^ 23 := Nat.mod_lt _ (Nat.two_pow_pos 23)
  constructor
  · intro h
    rw [Format.value] at h
    by_cases hspecial : single.exponent word = 2 ^ single.exponentBits - 1
    · have hgreatest : single.exponent word = 255 := hspecial
      rw [Format.valueOfFields, if_pos hspecial] at h
      split_ifs at h with hfraction
      · by_cases hsign : single.sign word = 0
        · simp only [Value.saturate, hsign, ne_eq, not_true_eq_false, decide_false] at h
          norm_num at h
          omega
        · simpa [Value.saturate, hsign] using h.symm
      · exact h.symm
    · rw [Format.valueOfFields_finite hspecial, signed] at h
      split_ifs at h with hsign
      · rw [hsign, Nat.zero_mul, Nat.zero_add] at hfields
        have hbelow : single.exponent word < 255 := Nat.lt_of_le_of_ne (Nat.le_of_lt_succ he) hspecial
        have hzero := floor_magnitude_single hf hbelow (h.trans hfields)
        omega
      · have hnonpos := neg_nonpos.mpr
          (magnitude_single_nonneg (single.exponent word) (single.fraction word))
        rw [Value.saturate, Nat.floor_of_nonpos hnonpos] at h
        exact h.symm
  · rintro rfl
    have hvalue : single.value 0 = .finite 0 := by
      simp [Format.value, Format.valueOfFields, Format.magnitude, Format.sign, Format.exponent,
        Format.fraction, signed, single]
    rw [hvalue, Value.saturate, Nat.floor_zero]
    rfl

end BinaryFormat
