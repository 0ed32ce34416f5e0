/-
# Softmax over masked scores

A masked score is −∞ and has weight zero, so a row of scores with a masked tail weighs the
values exactly as the row without the tail does. This is what makes an attention with a
causal mask read only the positions up to its own.
-/

import Mathlib.Algebra.Field.Basic
import Mathlib.Algebra.Module.Defs
import Mathlib.Algebra.BigOperators.Group.List.Basic
import Mathlib.Order.WithBot

namespace MaskedSoftmax

variable {K V : Type*}

/-! ## Masks -/

/-- A score is replaced by −∞ where the mask is set. -/
def fill (mask : List Bool) (scores : List (WithBot K)) : List (WithBot K) :=
  List.zipWith (fun masked score => if masked then ⊥ else score) mask scores

/-- A causal mask at position `i` leaves the scores up to `i` and masks the others. -/
theorem fill_causal (i : ℕ) (scores : List (WithBot K)) :
    fill ((List.range scores.length).map fun j => decide (j > i)) scores =
      scores.take (i + 1) ++ List.replicate (scores.length - (i + 1)) ⊥ := by
  apply List.ext_getElem
  · rw [fill, List.length_zipWith, List.length_map, List.length_range, List.length_append,
      List.length_take, List.length_replicate]
    omega
  · intro j hj _
    simp only [fill, List.getElem_zipWith, List.getElem_map, List.getElem_range,
      List.getElem_append, List.length_take, List.getElem_take, List.getElem_replicate]
    rw [fill, List.length_zipWith, List.length_map, List.length_range, min_self] at hj
    by_cases hji : j > i
    · rw [if_pos (decide_eq_true hji), dif_neg (by omega)]
    · rw [if_neg (by simpa using hji), dif_pos (by omega)]

/-! ## Weights -/

variable [Field K] (exp : K → K)

/-- The exponential of a score. -/
def weight : WithBot K → K
  | ⊥ => 0
  | (score : K) => exp score

@[simp]
theorem weight_bot : weight exp ⊥ = 0 :=
  rfl

/-- The weights of a row of scores, normalised. -/
def softmax (scores : List (WithBot K)) : List K :=
  let weights := scores.map (weight exp)
  weights.map fun w => w / weights.sum

/-- Sum of the values by their weights. -/
def combine [AddCommMonoid V] [Module K V] (weights : List K) (values : List V) : V :=
  (List.zipWith (fun w value => w • value) weights values).sum

@[simp]
theorem length_softmax (scores : List (WithBot K)) :
    (softmax exp scores).length = scores.length := by
  rw [softmax, List.length_map, List.length_map]

/-- A masked tail has no weight and does not change the other weights. -/
theorem softmax_append_bot (scores : List (WithBot K)) (n : ℕ) :
    softmax exp (scores ++ List.replicate n ⊥) = softmax exp scores ++ List.replicate n 0 := by
  have hsum : (((scores ++ List.replicate n ⊥).map (weight exp))).sum =
      (scores.map (weight exp)).sum := by
    rw [List.map_append, List.sum_append, List.map_replicate, weight_bot, List.sum_replicate,
      smul_zero, add_zero]
  rw [softmax, hsum, List.map_append, List.map_append, List.map_replicate, List.map_replicate,
    weight_bot, zero_div]
  rfl

variable [AddCommMonoid V] [Module K V]

@[simp]
theorem combine_cons (w : K) (weights : List K) (value : V) (values : List V) :
    combine (w :: weights) (value :: values) = w • value + combine weights values := by
  rw [combine, List.zipWith_cons_cons, List.sum_cons, combine]

@[simp]
theorem combine_zero (n : ℕ) (values : List V) : combine (List.replicate n (0 : K)) values = 0 := by
  induction n generalizing values with
  | zero => rfl
  | succ n ih =>
      cases values with
      | nil => rfl
      | cons value values => rw [List.replicate_succ, combine_cons, ih, zero_smul, add_zero]

/-- Values without weight do not count. -/
theorem combine_append_zero {weights : List K} {values : List V}
    (hlength : weights.length = values.length) (n : ℕ) (rest : List V) :
    combine (weights ++ List.replicate n 0) (values ++ rest) = combine weights values := by
  have hrest : combine (List.replicate n (0 : K)) rest = 0 := combine_zero n rest
  rw [combine] at hrest
  rw [combine, List.zipWith_append hlength, List.sum_append, hrest, add_zero, combine]

/-- Behind a causal mask a position reads exactly the values up to it. -/
theorem combine_softmax_fill_causal {i : ℕ} {scores : List (WithBot K)} {values : List V}
    (hlength : scores.length = values.length) :
    combine (softmax exp (fill ((List.range scores.length).map fun j => decide (j > i)) scores))
        values =
      combine (softmax exp (scores.take (i + 1))) (values.take (i + 1)) := by
  have htake : (softmax exp (scores.take (i + 1))).length = (values.take (i + 1)).length := by
    rw [length_softmax, List.length_take, List.length_take, hlength]
  rw [fill_causal, softmax_append_bot]
  calc
    _ = combine (softmax exp (scores.take (i + 1)) ++
          List.replicate (scores.length - (i + 1)) 0)
        (values.take (i + 1) ++ values.drop (i + 1)) := by rw [List.take_append_drop]
    _ = _ := combine_append_zero htake _ _

end MaskedSoftmax
