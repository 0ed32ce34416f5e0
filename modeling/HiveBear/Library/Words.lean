/-
# Fixed-width arithmetic that does not overflow

Machine addition and multiplication agree with the exact operations as long as
the exact result is in range. Sums are the case that needs an induction: the
bound on the whole exact sum bounds every partial sum.

The checked operations have no result where the machine's would overflow.
-/

import Mathlib.Algebra.BigOperators.Group.List.Basic
import Mathlib.Data.UInt

namespace MachineWord

/-- A sum of 64-bit words is exact when the exact sum is in range. -/
theorem toNat_sum_of_lt {ws : List UInt64}
    (h : (ws.map UInt64.toNat).sum < 2 ^ 64) :
    ws.sum.toNat = (ws.map UInt64.toNat).sum := by
  induction ws with
  | nil => rfl
  | cons w ws ih =>
      simp only [List.map_cons, List.sum_cons] at h ⊢
      rw [UInt64.toNat_add, ih (by omega), Nat.mod_eq_of_lt h]

/-- An addition that fails where it would overflow. -/
def checkedAdd (a b : UInt64) : Option UInt64 :=
  if a.toNat + b.toNat < 2 ^ 64 then some (a + b) else none

/-- Words added up from the left, with every addition checked. -/
def checkedSumFrom (start : UInt64) (ws : List UInt64) : Option UInt64 := ws.foldlM checkedAdd start

/-- A checked sum. -/
def checkedSum (ws : List UInt64) : Option UInt64 := checkedSumFrom 0 ws

/-- A checked sum has a result just if the exact sum is in range. -/
theorem checkedSumFrom_eq (start : UInt64) (ws : List UInt64) :
    checkedSumFrom start ws =
      if start.toNat + (ws.map UInt64.toNat).sum < 2 ^ 64 then some (start + ws.sum) else none := by
  induction ws generalizing start with
  | nil =>
      rw [List.map_nil, List.sum_nil, List.sum_nil, Nat.add_zero, if_pos start.toNat_lt,
        UInt64.add_zero]
      rfl
  | cons w ws ih =>
      rw [checkedSumFrom, List.foldlM_cons, checkedAdd, List.map_cons, List.sum_cons, List.sum_cons]
      by_cases hfits : start.toNat + w.toNat < 2 ^ 64
      · have hexact : (start + w).toNat = start.toNat + w.toNat := by
          rw [UInt64.toNat_add, Nat.mod_eq_of_lt hfits]
        rw [if_pos hfits]
        change checkedSumFrom (start + w) ws = _
        rw [ih, hexact, Nat.add_assoc, UInt64.add_assoc]
      · rw [if_neg hfits, if_neg (by omega)]
        rfl

theorem checkedSum_eq (ws : List UInt64) :
    checkedSum ws = if (ws.map UInt64.toNat).sum < 2 ^ 64 then some ws.sum else none := by
  rw [checkedSum, checkedSumFrom_eq, UInt64.zero_add]
  simp

/-- Multiplication of 32-bit words. -/
def mulU32 (a b : ℕ) : ℕ := a * b % 2 ^ 32

end MachineWord
