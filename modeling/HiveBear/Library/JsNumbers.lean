/-
# Integers in JavaScript

JavaScript holds a number as a double, which has room for 53 binary digits. A longer integer is
rounded to the nearest double, and to the even one if two are as near. Written out, a double has
the fewest digits that are read as the same double again, and zeros behind them.

So an integer that passes through JavaScript may come back as another one. Below `2 ^ 53` it comes
back as it was. From `2 ^ 63` on, where doubles are 2048 apart, it comes back as a multiple
of 1000.
-/

import Mathlib.Data.Nat.Log
import Mathlib.Tactic.NormNum
import Mathlib.Tactic.SplitIfs

namespace JsNumbers

/-- How far the doubles are apart at an integer. -/
def spacing (n : ℕ) : ℕ := 2 ^ (n.log2 - 52)

/-- The double that an integer is read as. -/
def toNumber (n : ℕ) : ℕ :=
  let quotient := n / spacing n
  let rest := 2 * (n % spacing n)
  if rest < spacing n ∨ rest = spacing n ∧ quotient % 2 = 0 then quotient * spacing n
  else (quotient + 1) * spacing n

/-- The nearest integer that ends with some zeros and is read as a double. -/
def roundedTo (x zeros : ℕ) : Option ℕ :=
  let digits := x / 10 ^ zeros
  let below := digits * 10 ^ zeros
  let above := (digits + 1) * 10 ^ zeros
  if toNumber below = x then
    if toNumber above = x ∧
        (above - x < x - below ∨ above - x = x - below ∧ (digits + 1) % 2 = 0) then some above
    else some below
  else if toNumber above = x then some above
  else none

/-- The integer that is written for a double, with so many zeros at most. -/
def shortest (x : ℕ) : ℕ → ℕ
  | 0 => x
  | zeros + 1 => (roundedTo x (zeros + 1)).getD (shortest x zeros)

/-- The integer that is written for a double below `10 ^ 21`. Larger ones have an exponent. -/
def toText (x : ℕ) : ℕ := shortest x 21

/-- What an integer comes back as from JavaScript. -/
def through (n : ℕ) : ℕ := toText (toNumber n)

/-- An integer that is written for a double, other than the double itself, is read as it. -/
theorem toNumber_of_roundedTo {x zeros n : ℕ} (h : roundedTo x zeros = some n) :
    toNumber n = x ∧ 10 ^ zeros ∣ n := by
  rw [roundedTo] at h
  split_ifs at h with hbelow habove honly
  · cases h
    exact ⟨habove.1, Nat.dvd_mul_left _ _⟩
  · cases h
    exact ⟨hbelow, Nat.dvd_mul_left _ _⟩
  · cases h
    exact ⟨honly, Nat.dvd_mul_left _ _⟩

/-! ## Integers that come back -/

theorem toNumber_of_lt {n : ℕ} (h : n < 2 ^ 53) : toNumber n = n := by
  have hspacing : spacing n = 1 := by
    rw [spacing]
    by_cases hzero : n = 0
    · subst hzero
      rfl
    · have hlog : n.log2 < 53 := (Nat.log2_lt hzero).mpr h
      rw [Nat.sub_eq_zero_of_le (by omega), Nat.pow_zero]
  rw [toNumber]
  rw [hspacing, Nat.mod_one, if_pos (Or.inl (by decide)), Nat.div_one, Nat.mul_one]

/-- Rounding does not cross a power of two. -/
theorem le_toNumber {n : ℕ} (h : 2 ^ 53 ≤ n) : 2 ^ 53 ≤ toNumber n := by
  have hzero : n ≠ 0 := by omega
  have hlog : 53 ≤ n.log2 := (Nat.le_log2 hzero).mpr h
  have hpow : 2 ^ 53 ≤ 2 ^ n.log2 := Nat.pow_le_pow_right (by decide) hlog
  have hself : 2 ^ 52 * spacing n = 2 ^ n.log2 := by
    rw [spacing, ← Nat.pow_add, Nat.add_sub_cancel' (by omega)]
  have hdiv : 2 ^ 52 ≤ n / spacing n := by
    rw [Nat.le_div_iff_mul_le (by rw [spacing]; exact Nat.two_pow_pos _), hself]
    exact Nat.log2_self_le hzero
  have hround : 2 ^ 52 * spacing n ≤ toNumber n := by
    rw [toNumber]
    split_ifs
    · exact Nat.mul_le_mul_right _ hdiv
    · exact Nat.mul_le_mul_right _ (Nat.le_succ_of_le hdiv)
  omega

/-- Only a small integer itself is read as it. -/
theorem eq_of_toNumber_eq {n m : ℕ} (hn : n < 2 ^ 53) (h : toNumber m = n) : m = n := by
  have hm : m < 2 ^ 53 := by
    by_contra hlarge
    have hle := le_toNumber (Nat.le_of_not_lt hlarge)
    omega
  rwa [toNumber_of_lt hm] at h

/-- **Small integers come back as they were.** -/
theorem through_of_lt {n : ℕ} (h : n < 2 ^ 53) : through n = n := by
  have hshortest (zeros : ℕ) : shortest n zeros = n := by
    induction zeros with
    | zero => rfl
    | succ zeros ih =>
        rw [shortest, ih]
        cases hround : roundedTo n (zeros + 1) with
        | none => rfl
        | some m => exact eq_of_toNumber_eq h (toNumber_of_roundedTo hround).1
  rw [through, toNumber_of_lt h, toText, hshortest]

/-! ## Integers that do not -/

section

variable {n x : ℕ}

theorem spacing_of_large (hn : 2 ^ 63 ≤ n) (hlt : n < 2 ^ 64) : spacing n = 2048 := by
  have hzero : n ≠ 0 := by omega
  have hlow : 63 ≤ n.log2 := (Nat.le_log2 hzero).mpr hn
  have hhigh : n.log2 < 64 := (Nat.log2_lt hzero).mpr hlt
  have hlog : n.log2 = 63 := by omega
  rw [spacing, hlog]
  rfl

theorem spacing_below (hn : 2 ^ 62 ≤ n) (hlt : n < 2 ^ 63) : spacing n = 1024 := by
  have hzero : n ≠ 0 := by omega
  have hlow : 62 ≤ n.log2 := (Nat.le_log2 hzero).mpr hn
  have hhigh : n.log2 < 63 := (Nat.log2_lt hzero).mpr hlt
  have hlog : n.log2 = 62 := by omega
  rw [spacing, hlog]
  rfl

/-- A large integer is read as a multiple of 2048 that is near it. -/
theorem toNumber_of_large (hn : 2 ^ 63 ≤ n) (hlt : n < 2 ^ 64 - 2048) :
    2048 ∣ toNumber n ∧ 2 ^ 63 ≤ toNumber n ∧ toNumber n < 2 ^ 64 := by
  rw [toNumber]
  rw [spacing_of_large hn (by omega)]
  refine ⟨?_, ?_, ?_⟩
  · split_ifs <;> exact Nat.dvd_mul_left _ _
  · split_ifs <;> omega
  · split_ifs <;> omega

/-- Integers near a large double are read as it. -/
theorem toNumber_near (hx : 2048 ∣ x) (hle : 2 ^ 63 ≤ x) (hlt : x < 2 ^ 64) (hn : n ≤ x + 500)
    (hxn : x ≤ n + 500) : toNumber n = x := by
  rw [toNumber]
  by_cases hlarge : 2 ^ 63 ≤ n
  · rw [spacing_of_large hlarge (by omega)]
    split_ifs <;> omega
  · rw [spacing_below (by omega) (by omega)]
    split_ifs <;> omega

/-- **Large integers come back as multiples of 1000.** -/
theorem dvd_through (hn : 2 ^ 63 ≤ n) (hlt : n < 2 ^ 64 - 2048) : 1000 ∣ through n := by
  obtain ⟨hdvd, hle, hbound⟩ := toNumber_of_large hn hlt
  rw [through]
  generalize toNumber n = x at hdvd hle hbound
  -- one of the two multiples of 1000 around the double is at most 500 away
  have hround : (roundedTo x 3).isSome := by
    rw [roundedTo]
    by_cases hnear : x % 1000 ≤ 500
    · rw [if_pos (toNumber_near hdvd hle hbound (by omega) (by omega))]
      split_ifs <;> rfl
    · have habove : toNumber ((x / 10 ^ 3 + 1) * 10 ^ 3) = x :=
        toNumber_near hdvd hle hbound (by omega) (by omega)
      rw [if_pos habove]
      split_ifs <;> rfl
  have hmultiple (zeros : ℕ) : 1000 ∣ shortest x (3 + zeros) := by
    induction zeros with
    | zero =>
        obtain ⟨m, hm⟩ := Option.isSome_iff_exists.mp hround
        have hshortest : shortest x 3 = m := by
          rw [shortest, hm]
          rfl
        rw [Nat.add_zero, hshortest]
        exact (toNumber_of_roundedTo hm).2
    | succ zeros ih =>
        rw [← Nat.add_assoc, shortest]
        cases hm : roundedTo x (3 + zeros + 1) with
        | none => exact ih
        | some m =>
            have hpow : 10 ^ 3 ∣ 10 ^ (3 + zeros + 1) := Nat.pow_dvd_pow 10 (by omega)
            exact hpow.trans (toNumber_of_roundedTo hm).2
  exact hmultiple 18

end

/-- The first large integer is written with three zeros. -/
example : through (2 ^ 63) = 9223372036854776000 := by decide +kernel

end JsNumbers
