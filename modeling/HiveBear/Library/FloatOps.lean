/-
# The float operations a program performs

A program that computes with floats is modelled over an arbitrary carrier that
offers the operations the program performs, with no law assumed about them. A
theorem proved over `FloatOps` therefore holds for every rounding, for NaN and
for infinities alike: nothing in its proof could have depended on the result of
a float operation. The casts to fixed-width integers are the exception, since
they saturate and so are always in range.

Exact rational arithmetic is the instance used to evaluate a model on concrete
inputs. It agrees with binary floats wherever every intermediate result is
representable.
-/

import Mathlib.Data.Rat.Floor

/-- The float operations a program performs. Addition, multiplication and
division are written with the usual operators. -/
class FloatOps (F : Type*) extends Add F, Mul F, Div F where
  /-- An unsigned integer converted to a float. -/
  ofNat : ℕ → F
  /-- A decimal literal of the program text. -/
  literal : ℚ → F
  /-- The larger of two floats. -/
  max : F → F → F
  /-- The comparison `a <= b`, false when either side is NaN. -/
  le : F → F → Bool
  /-- The comparison `a < b`, false when either side is NaN. -/
  lt : F → F → Bool
  /-- The partial comparison, `none` when either side is NaN. -/
  partialCmp : F → F → Option Ordering
  /-- Round to the nearest integer and cast to an unsigned 32-bit integer. -/
  roundU32 : F → ℕ
  /-- Truncate and cast to an unsigned 64-bit integer. -/
  truncU64 : F → ℕ
  roundU32_lt : ∀ x, roundU32 x < 2 ^ 32
  truncU64_lt : ∀ x, truncU64 x < 2 ^ 64

namespace FloatOps

/-- Exact arithmetic: rounding is half away from zero, casts saturate, and a
negative number casts to zero. -/
instance : FloatOps ℚ where
  ofNat n := n
  literal q := q
  max a b := if a ≤ b then b else a
  le a b := decide (a ≤ b)
  lt a b := decide (a < b)
  partialCmp a b := some (if a < b then .lt else if b < a then .gt else .eq)
  roundU32 x := min ⌊x + 1 / 2⌋.toNat (2 ^ 32 - 1)
  truncU64 x := min ⌊x⌋.toNat (2 ^ 64 - 1)
  roundU32_lt x := by omega
  truncU64_lt x := by omega

end FloatOps
