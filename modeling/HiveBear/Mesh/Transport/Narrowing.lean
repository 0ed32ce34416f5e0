/-
# Narrowing truncates

The codec of the transport narrows a float to a half by cutting off the bits that do not fit. It
does so in three ways, for numbers with a leading one in half precision, for numbers without one,
and for those that are too small for any. In all of them the half is the largest that is not larger
than the float, up to the sign, and what is beyond the halves becomes infinite.

So narrowing keeps the order of numbers.
-/

import HiveBear.Library.BinaryFormat
import HiveBear.Mesh.Transport.TensorTransfer
import Mathlib.Order.Bounds.Basic

namespace HiveBear.Mesh

open BinaryFormat

/-! ## The fields of a narrowed float -/

/-- What is too large for a half becomes infinite. -/
theorem narrowed_infinite (s : ℕ) {e f : ℕ} (hlarge : 143 ≤ e) (hnumber : ¬ (e = 255 ∧ f ≠ 0)) :
    narrowed s e f = half.pack s 31 0 := by
  rw [narrowed]
  split_ifs with htop hf
  · exact absurd ⟨htop, hf⟩ hnumber
  · rfl
  · rfl

/-- The half of fields is the last one that is not above the float of fields. -/
structure LastBelow (e f e' f' : ℕ) : Prop where
  exponent : e' < 31
  fraction : f' < 2 ^ half.fractionBits
  below : half.units e' f' * 2 ^ 125 ≤ single.units e f
  above : single.units e f < (half.units e' f' + 2 ^ (e' - 1)) * 2 ^ 125

/-- A float with a leading one in half precision. -/
theorem lastBelow_normal {k f : ℕ} (hk : k < 30) (hf : f < 2 ^ 23) :
    LastBelow (k + 113) f (k + 1) (f / 2 ^ 13) := by
  have hsingle : single.units (k + 113) f = (2 ^ 23 + f) * (2 ^ k * 2 ^ 112) := by
    rw [Format.units, if_neg (by omega), ← Nat.pow_add]
    rfl
  have hhalf : half.units (k + 1) (f / 2 ^ 13) = (2 ^ 10 + f / 2 ^ 13) * 2 ^ k :=
    if_neg (by omega)
  have hsplit : (2 : ℕ) ^ 125 = 2 ^ 13 * 2 ^ 112 := by rw [← Nat.pow_add]
  have hpower : 0 < 2 ^ k * 2 ^ 112 := Nat.mul_pos (Nat.two_pow_pos _) (Nat.two_pow_pos _)
  refine ⟨by omega, by show f / 2 ^ 13 < 2 ^ 10; omega, ?_, ?_⟩
  · calc half.units (k + 1) (f / 2 ^ 13) * 2 ^ 125
        = (2 ^ 10 + f / 2 ^ 13) * 2 ^ 13 * (2 ^ k * 2 ^ 112) := by rw [hhalf, hsplit]; ring
      _ ≤ (2 ^ 23 + f) * (2 ^ k * 2 ^ 112) := Nat.mul_le_mul_right _ (by omega)
      _ = single.units (k + 113) f := hsingle.symm
  · calc single.units (k + 113) f
        = (2 ^ 23 + f) * (2 ^ k * 2 ^ 112) := hsingle
      _ < (2 ^ 10 + f / 2 ^ 13 + 1) * 2 ^ 13 * (2 ^ k * 2 ^ 112) :=
        Nat.mul_lt_mul_of_pos_right (by omega) hpower
      _ = (half.units (k + 1) (f / 2 ^ 13) + 2 ^ (k + 1 - 1)) * 2 ^ 125 := by
        rw [hhalf, hsplit, Nat.add_sub_cancel]
        ring

/-- A float without a leading one in half precision. -/
theorem lastBelow_subnormal {k f : ℕ} (hk : k ≤ 10) (hf : f < 2 ^ 23) :
    LastBelow (k + 102) f 0 ((f + 2 ^ 23) / 2 ^ (11 - k) / 2 ^ 13) := by
  have hsingle : single.units (k + 102) f = (f + 2 ^ 23) * 2 ^ (k + 101) := by
    rw [Format.units, if_neg (by omega), Nat.add_comm f]
    rfl
  have hdiv : (f + 2 ^ 23) / 2 ^ (11 - k) / 2 ^ 13 = (f + 2 ^ 23) / 2 ^ (24 - k) := by
    have hexponent : 11 - k + 13 = 24 - k := by omega
    rw [Nat.div_div_eq_div_mul, ← Nat.pow_add, hexponent]
  have hhalf (fraction : ℕ) : half.units 0 fraction = fraction := if_pos rfl
  have hsplit : (2 : ℕ) ^ 125 = 2 ^ (24 - k) * 2 ^ (k + 101) := by
    have hexponent : 24 - k + (k + 101) = 125 := by omega
    rw [← Nat.pow_add, hexponent]
  have hlow := Nat.div_mul_le_self (f + 2 ^ 23) (2 ^ (24 - k))
  have hhigh := Nat.lt_div_mul_add (a := f + 2 ^ 23) (Nat.two_pow_pos (24 - k))
  refine ⟨by decide, denormalized_lt hf (by omega), ?_, ?_⟩
  · rw [hhalf, hdiv, hsingle, hsplit, ← Nat.mul_assoc]
    exact Nat.mul_le_mul_right _ hlow
  · rw [hhalf, hdiv, hsingle, hsplit, ← Nat.mul_assoc, Nat.add_mul _ _ (2 ^ (24 - k))]
    exact Nat.mul_lt_mul_of_pos_right (by omega) (Nat.two_pow_pos _)

/-- A float below all halves but zero. -/
theorem lastBelow_tiny {e f : ℕ} (he : e < 102) (hf : f < 2 ^ 23) : LastBelow e f 0 0 := by
  refine ⟨by decide, Nat.two_pow_pos _, by show 0 * _ ≤ _; omega, ?_⟩
  have hlt : single.units e f < 2 ^ 23 * 2 ^ (102 - 1) := Format.units_lt hf he
  exact hlt.trans (by decide)

/-- **A float is narrowed to the last half below it.** -/
theorem narrowed_finite (s : ℕ) {e f : ℕ} (hsmall : e < 143) (hf : f < 2 ^ 23) :
    ∃ e' f', narrowed s e f = half.pack s e' f' ∧ LastBelow e f e' f' := by
  rw [narrowed, if_neg (by omega), if_neg (by omega)]
  split_ifs with hunder htiny
  · exact ⟨0, 0, rfl, lastBelow_tiny htiny hf⟩
  · obtain ⟨k, rfl⟩ := Nat.exists_eq_add_of_le' (not_lt.mp htiny)
    have hshift : 113 - (k + 102) = 11 - k := by omega
    rw [hshift]
    exact ⟨0, _, rfl, lastBelow_subnormal (by omega) hf⟩
  · obtain ⟨k, rfl⟩ := Nat.exists_eq_add_of_le' (not_le.mp hunder : 113 ≤ e)
    have hexponent : k + 113 - 112 = k + 1 := by omega
    rw [hexponent]
    exact ⟨k + 1, _, rfl, lastBelow_normal (by omega) hf⟩

/-! ## What is narrowed -/

/-- The magnitudes of halves. -/
def halfMagnitudes : Set ℚ := {m | ∃ h : UInt16, ∃ p, half.value h.toNat = .finite p ∧ m = |p|}

/-- A float is cut off to a half: the largest one that is not larger, up to the sign, or infinite if
the float is beyond the halves. -/
structure Truncates (bits : UInt32) : Prop where
  sign : half.sign (f16FromF32 bits).toNat = single.sign bits.toNat
  finite : ∀ v, single.value bits.toNat = .finite v → |v| < 65536 →
    ∃ q, half.value (f16FromF32 bits).toNat = .finite q ∧
      IsGreatest {m ∈ halfMagnitudes | m ≤ |v|} |q|
  infinite : (∀ v, single.value bits.toNat = .finite v → 65536 ≤ |v|) →
    half.value (f16FromF32 bits).toNat = .infinite (single.sign bits.toNat ≠ 0)

theorem half_magnitude_le_iff {e f e' f' : ℕ} :
    half.magnitude e' f' ≤ single.magnitude e f ↔
      half.units e' f' * 2 ^ 125 ≤ single.units e f := by
  have hscale : (2 : ℚ) ^ half.leastExponent = 2 ^ 125 * 2 ^ single.leastExponent := by
    rw [half_leastExponent, single_leastExponent]
    norm_num
  have hpos : (0 : ℚ) < 2 ^ single.leastExponent := zpow_pos two_pos _
  rw [Format.magnitude_eq_units, Format.magnitude_eq_units, hscale, ← mul_assoc,
    mul_le_mul_iff_of_pos_right hpos, ← Nat.cast_le (α := ℚ)]
  push_cast
  rfl

/-- The floats that are not beyond the halves. -/
theorem single_magnitude_lt_iff {e f : ℕ} (hf : f < 2 ^ 23) :
    single.magnitude e f < 65536 ↔ e < 143 := by
  have hscale : (65536 : ℚ) = (2 ^ 165 : ℕ) * 2 ^ single.leastExponent := by
    rw [single_leastExponent]
    norm_num
  have hpos : (0 : ℚ) < 2 ^ single.leastExponent := zpow_pos two_pos _
  have hunits : single.magnitude e f < 65536 ↔ single.units e f < 2 ^ 165 := by
    rw [Format.magnitude_eq_units, hscale, mul_lt_mul_iff_of_pos_right hpos, Nat.cast_lt]
  have hsplit : (2 : ℕ) ^ 165 = 2 ^ 23 * 2 ^ (143 - 1) := by rw [← Nat.pow_add]
  rw [hunits, hsplit]
  constructor
  · intro hlt
    by_contra hlarge
    have habove : 2 ^ 23 * 2 ^ (143 - 1) ≤ single.units e f := by
      rw [Format.units, if_neg (by omega)]
      exact Nat.mul_le_mul (Nat.le_add_right _ _) (Nat.pow_le_pow_right Nat.two_pos (by omega))
    exact absurd hlt (not_lt.mpr habove)
  · exact Format.units_lt hf

/-- The half of a packed word. -/
theorem value_half_pack {s e f : ℕ} (hs : s < 2) (he : e < 31) (hf : f < 2 ^ half.fractionBits) :
    half.value (half.pack s e f) = .finite (signed s (half.magnitude e f)) := by
  have he' : e < 2 ^ half.exponentBits := by
    show e < 2 ^ 5
    omega
  rw [Format.value_pack hs he' hf]
  exact Format.valueOfFields_finite (by show e ≠ 31; omega)

/-- A finite half has these fields. -/
theorem magnitude_of_value {h : UInt16} {p : ℚ} (hvalue : half.value h.toNat = .finite p) :
    |p| = half.magnitude (half.exponent h.toNat) (half.fraction h.toNat) := by
  rw [Format.value, Format.valueOfFields] at hvalue
  split_ifs at hvalue
  cases hvalue
  exact abs_signed _ (Format.magnitude_nonneg _ _ _)

theorem magnitude_of_single {bits : UInt32} {v : ℚ}
    (hvalue : single.value bits.toNat = .finite v) :
    v = signed (single.sign bits.toNat)
        (single.magnitude (single.exponent bits.toNat) (single.fraction bits.toNat)) ∧
      single.exponent bits.toNat ≠ 255 := by
  rw [Format.value, Format.valueOfFields] at hvalue
  split_ifs at hvalue with htop
  cases hvalue
  exact ⟨rfl, htop⟩

/-- **A float that is a number is cut off to a half.** -/
theorem truncates_of_number {bits : UInt32} (hnan : ¬ single.IsNan bits.toNat) :
    Truncates bits := by
  have hword := toNat_f16FromF32 bits
  have hs : single.sign bits.toNat < 2 := Nat.mod_lt _ Nat.two_pos
  have hf : single.fraction bits.toNat < 2 ^ 23 := Nat.mod_lt _ (Nat.two_pow_pos 23)
  have hlarge (h : 143 ≤ single.exponent bits.toNat) :
      (f16FromF32 bits).toNat = half.pack (single.sign bits.toNat) 31 0 := by
    rw [hword]
    exact narrowed_infinite _ h hnan
  constructor
  · by_cases hsmall : single.exponent bits.toNat < 143
    · obtain ⟨e', f', hfields, hlast⟩ := narrowed_finite (single.sign bits.toNat) hsmall hf
      have he' : e' < 2 ^ half.exponentBits := hlast.exponent.trans (by decide)
      rw [hword, hfields, Format.sign_pack hs he' hlast.fraction]
    · rw [hlarge (not_lt.mp hsmall), Format.sign_pack hs (by decide) (by decide)]
  · intro v hv hlt
    obtain ⟨rfl, -⟩ := magnitude_of_single hv
    rw [abs_signed _ (Format.magnitude_nonneg _ _ _)] at hlt ⊢
    obtain ⟨e', f', hfields, hlast⟩ := narrowed_finite (single.sign bits.toNat)
      ((single_magnitude_lt_iff hf).mp hlt) hf
    have hvalue : half.value (f16FromF32 bits).toNat =
        .finite (signed (single.sign bits.toNat) (half.magnitude e' f')) := by
      rw [hword, hfields]
      exact value_half_pack hs hlast.exponent hlast.fraction
    refine ⟨_, hvalue, ⟨⟨_, _, hvalue, rfl⟩, ?_⟩, ?_⟩
    · rw [abs_signed _ (Format.magnitude_nonneg _ _ _)]
      exact half_magnitude_le_iff.mpr hlast.below
    · rintro m ⟨⟨other, p, hother, rfl⟩, hle⟩
      rw [magnitude_of_value hother] at hle ⊢
      rw [abs_signed _ (Format.magnitude_nonneg _ _ _)]
      -- a half above the last one is above the float
      have hbelow := (half_magnitude_le_iff.mp hle).trans_lt hlast.above
      have hnext := Nat.lt_of_mul_lt_mul_right hbelow
      have hunits := Format.units_le_of_lt_next hlast.fraction (half_fraction_lt _) hnext
      rw [Format.magnitude_eq_units, Format.magnitude_eq_units]
      exact mul_le_mul_of_nonneg_right (Nat.cast_le.mpr hunits) (zpow_pos two_pos _).le
  · intro hbeyond
    have hexponent : 143 ≤ single.exponent bits.toNat := by
      by_contra hsmall
      have hfinite : single.value bits.toNat = .finite (signed (single.sign bits.toNat)
          (single.magnitude (single.exponent bits.toNat) (single.fraction bits.toNat))) :=
        Format.valueOfFields_finite (by show single.exponent bits.toNat ≠ 255; omega)
      have hle := hbeyond _ hfinite
      rw [abs_signed _ (Format.magnitude_nonneg _ _ _)] at hle
      exact absurd ((single_magnitude_lt_iff hf).mpr (not_le.mp hsmall)) (not_lt.mpr hle)
    rw [hlarge hexponent, Format.value_pack hs (by decide) (by decide)]
    rfl

/-! ## Order -/

/-- What stands for a size with a sign. Nothing stands for infinity. -/
def withSign (sign : ℕ) (size : Option ℚ) : Value :=
  match size with
  | none => .infinite (sign ≠ 0)
  | some m => .finite (signed sign m)

/-- The size that a float of a size is cut off to. -/
def CutTo (v : ℚ) (size : Option ℚ) : Prop :=
  (65536 ≤ |v| ∧ size = none) ∨
    ∃ m, |v| < 65536 ∧ size = some m ∧ 0 ≤ m ∧ IsGreatest {m ∈ halfMagnitudes | m ≤ |v|} m

theorem exists_size {bits : UInt32} {v : ℚ} (hv : single.value bits.toNat = .finite v) :
    ∃ size, CutTo v size ∧
      half.value (f16FromF32 bits).toNat = withSign (single.sign bits.toNat) size := by
  have hnan : ¬ single.IsNan bits.toNat := fun h => (magnitude_of_single hv).2 h.1
  have htruncates := truncates_of_number hnan
  by_cases hsmall : |v| < 65536
  · obtain ⟨q, hq, hgreatest⟩ := htruncates.finite v hv hsmall
    refine ⟨some |q|, Or.inr ⟨|q|, hsmall, rfl, abs_nonneg q, hgreatest⟩, ?_⟩
    have hsize := magnitude_of_value hq
    rw [hq, withSign, hsize, ← htruncates.sign]
    rw [Format.value, Format.valueOfFields] at hq
    split_ifs at hq
    exact hq.symm
  · have hbeyond : ∀ w, single.value bits.toNat = .finite w → 65536 ≤ |w| := by
      intro w hw
      rw [hv] at hw
      cases hw
      exact not_lt.mp hsmall
    exact ⟨none, Or.inl ⟨not_lt.mp hsmall, rfl⟩, htruncates.infinite hbeyond⟩

/-- What is cut off of a larger number is not smaller. -/
theorem withSign_le {v w : ℚ} {size size' : Option ℚ} (hv : CutTo v size) (hw : CutTo w size')
    (hle : |v| ≤ |w|) :
    (withSign 0 size).Le (withSign 0 size') ∧ (withSign 1 size').Le (withSign 1 size) := by
  obtain ⟨hlarge, rfl⟩ | ⟨n, hsmall, rfl, -, hn⟩ := hw
  · rcases size with _ | m
    · exact ⟨Or.inr rfl, Or.inl rfl⟩
    · exact ⟨rfl, rfl⟩
  · obtain ⟨hlarge, rfl⟩ | ⟨m, -, rfl, -, hm⟩ := hv
    · exact absurd (hlarge.trans hle) (not_le.mpr hsmall)
    · have hmn : m ≤ n := hn.2 ⟨hm.1.1, hm.1.2.trans hle⟩
      exact ⟨hmn, neg_le_neg hmn⟩

/-- A negative number is below a positive one. -/
theorem withSign_neg_le {v w : ℚ} {size size' : Option ℚ} (hv : CutTo v size)
    (hw : CutTo w size') : (withSign 1 size).Le (withSign 0 size') := by
  obtain ⟨-, rfl⟩ | ⟨m, -, rfl, hm, -⟩ := hv
  · rcases size' with _ | n
    · exact Or.inl rfl
    · exact rfl
  · obtain ⟨-, rfl⟩ | ⟨n, -, rfl, hn, -⟩ := hw
    · exact rfl
    · exact (neg_nonpos.mpr hm).trans hn

/-- Zero is cut off to zero, whatever its sign. -/
theorem withSign_zero {size : Option ℚ} (h : CutTo 0 size) (s : ℕ) :
    withSign s size = .finite 0 := by
  obtain ⟨hlarge, -⟩ | ⟨m, -, rfl, hm, hgreatest⟩ := h
  · rw [abs_zero] at hlarge
    exact absurd hlarge (by norm_num)
  · have hzero : m = 0 := le_antisymm (hgreatest.1.2.trans abs_zero.le) hm
    rw [hzero, withSign, signed, neg_zero, ite_self]

/-- Narrowing keeps the order of numbers. -/
theorem narrowing_monotone {x y : UInt32} {v w : ℚ} (hv : single.value x.toNat = .finite v)
    (hw : single.value y.toNat = .finite w) (hle : v ≤ w) :
    (half.value (f16FromF32 x).toNat).Le (half.value (f16FromF32 y).toNat) := by
  obtain ⟨size, hsize, hx⟩ := exists_size hv
  obtain ⟨size', hsize', hy⟩ := exists_size hw
  obtain ⟨hvs, -⟩ := magnitude_of_single hv
  obtain ⟨hws, -⟩ := magnitude_of_single hw
  have hvpos := Format.magnitude_nonneg single (single.exponent x.toNat) (single.fraction x.toNat)
  have hwpos := Format.magnitude_nonneg single (single.exponent y.toNat) (single.fraction y.toNat)
  rw [hx, hy]
  have hs : single.sign x.toNat = 0 ∨ single.sign x.toNat = 1 := by
    have hlt : single.sign x.toNat < 2 := Nat.mod_lt _ Nat.two_pos
    omega
  have ht : single.sign y.toNat = 0 ∨ single.sign y.toNat = 1 := by
    have hlt : single.sign y.toNat < 2 := Nat.mod_lt _ Nat.two_pos
    omega
  rcases hs with hs | hs <;> rcases ht with ht | ht <;> rw [hs] at hvs ⊢ <;> rw [ht] at hws ⊢ <;>
    simp only [signed, if_pos, if_neg one_ne_zero] at hvs hws
  · exact (withSign_le hsize hsize' (by rw [abs_of_nonneg, abs_of_nonneg] <;> linarith)).1
  · have hv0 : v = 0 := by linarith
    have hw0 : w = 0 := by linarith
    subst hv0 hw0
    rw [withSign_zero hsize, withSign_zero hsize']
    exact le_refl (0 : ℚ)
  · exact withSign_neg_le hsize hsize'
  · exact (withSign_le hsize' hsize (by rw [abs_of_nonpos, abs_of_nonpos] <;> linarith)).2

/-- **Narrowing truncates**, and so keeps the order of numbers. -/
theorem narrowing_truncates :
    (∀ bits : UInt32, ¬ single.IsNan bits.toNat → Truncates bits) ∧
      ∀ (x y : UInt32) (v w : ℚ), single.value x.toNat = .finite v →
        single.value y.toNat = .finite w → v ≤ w →
          (half.value (f16FromF32 x).toNat).Le (half.value (f16FromF32 y).toNat) :=
  ⟨fun _ hnan => truncates_of_number hnan, fun _ _ _ _ hv hw hle => narrowing_monotone hv hw hle⟩

end HiveBear.Mesh
