/-
# Mixtures of experts, row by row

What `MlpOrMoe::forward` returns for a batch: the rows are collected for each expert, run together
and added back, but every row depends on the row that was given in its place alone. It is the sum
of what the experts that are ranked highest for it compute, by their share of the routing weights.

Which experts these are is said without the sort: an expert ranks above another one if its weight
is larger, or if it is equal and the expert comes first. An expert is used if fewer experts than
are used rank above it.
-/

import HiveBear.Inference.CandlePipeline.FeedForward
import Mathlib.Data.List.GetD
import Mathlib.Logic.Equiv.Fin.Basic

namespace HiveBear.Inference

open StableSort

variable {K : Type*} [Field K] [LinearOrder K] {n nExpert nExpertUsed bSize seqLen : ℕ}

/-! ## Batches -/

/-- The rows of a batch, one sequence behind the other. -/
def reshapeRows (xs : Fin bSize → Fin seqLen → Fin n → K) : List (Fin n → K) :=
  List.ofFn fun i => xs (finProdFinEquiv.symm i).1 (finProdFinEquiv.symm i).2

/-- Rows, as a batch again. -/
def reshapeBatch (ys : List (Fin n → K)) : Fin bSize → Fin seqLen → Fin n → K :=
  fun b s => ys.getD (finProdFinEquiv (b, s)) 0

/-- `MlpOrMoe::forward` of a batch. A mixture reshapes it; a single network works on the last
dimension, which comes to the same. -/
def MlpOrMoe.forwardBatch [ElementaryFunctions K] (network : MlpOrMoe K n)
    (xs : Fin bSize → Fin seqLen → Fin n → K) : Fin bSize → Fin seqLen → Fin n → K :=
  reshapeBatch (network.forward (reshapeRows xs))

omit [LinearOrder K] in
theorem reshapeBatch_map (f : (Fin n → K) → Fin n → K) (xs : Fin bSize → Fin seqLen → Fin n → K)
    (b : Fin bSize) (s : Fin seqLen) :
    reshapeBatch ((reshapeRows xs).map f) b s = f (xs b s) := by
  have hindex : (finProdFinEquiv (b, s) : ℕ) < ((reshapeRows xs).map f).length := by
    rw [List.length_map, reshapeRows, List.length_ofFn]
    exact (finProdFinEquiv (b, s)).isLt
  rw [reshapeBatch, List.getD_eq_getElem _ _ hindex, List.getElem_map]
  simp only [reshapeRows, List.getElem_ofFn, Fin.eta, Equiv.symm_apply_apply]

/-! ## The experts of a row -/

/-- An expert ranks above another one. -/
def RanksAbove (rw : Fin nExpert → K) (e f : Fin nExpert) : Prop :=
  rw f < rw e ∨ rw e = rw f ∧ e < f

instance (rw : Fin nExpert → K) : DecidableRel (RanksAbove rw) :=
  fun e f => inferInstanceAs (Decidable (rw f < rw e ∨ rw e = rw f ∧ e < f))

/-- The experts that fewer experts than are used rank above. -/
def topExperts (nExpertUsed : ℕ) (rw : Fin nExpert → K) : Finset (Fin nExpert) :=
  Finset.univ.filter fun e => (Finset.univ.filter fun f => RanksAbove rw f e).card < nExpertUsed

section Ranking

variable {rw : Fin nExpert → K} {e f : Fin nExpert}

omit [Field K] in
theorem not_ranksAbove_of_ranksAbove (h : RanksAbove rw e f) : ¬ RanksAbove rw f e := by
  rcases h with hlt | ⟨heq, hlt⟩
  · rintro (hlt' | ⟨heq, -⟩)
    · exact lt_asymm hlt hlt'
    · exact hlt.ne heq
  · rintro (hlt' | ⟨-, hlt'⟩)
    · exact hlt'.ne heq
    · exact lt_asymm hlt hlt'

omit [Field K] in
/-- The comparison of the sort ranks the experts. -/
theorem ranks_routing (rw : Fin nExpert → K) : Ranks fun i j => compare (rw j) (rw i) where
  trans _ _ _ hab hbc :=
    compare_le_iff_le.mpr ((compare_le_iff_le.mp hbc).trans (compare_le_iff_le.mp hab))
  swap _ _ h := compare_lt_iff_lt.mpr (compare_gt_iff_gt.mp h)

omit [Field K] in
/-- The sorted experts are ranked. -/
theorem ranked_sortBy (rw : Fin nExpert → K) :
    (sortBy (fun i j => compare (rw j) (rw i)) (List.finRange nExpert)).Pairwise
      (RanksAbove rw) := by
  refine (stable_sortBy (ranks_routing rw) (List.pairwise_lt_finRange nExpert)).imp ?_
  rintro e f (hlt | ⟨heq, hfirst⟩)
  · exact Or.inl (compare_lt_iff_lt.mp hlt)
  · exact Or.inr ⟨(compare_eq_iff_eq.mp heq).symm, hfirst⟩

omit [Field K] in
/-- The experts that the sort selects are the ones that are ranked highest. -/
theorem mem_selectExperts_iff :
    e ∈ selectExperts nExpertUsed rw ↔ e ∈ topExperts nExpertUsed rw := by
  have hperm := perm_sortBy (fun i j => compare (rw j) (rw i)) (List.finRange nExpert)
  have hmem := hperm.mem_iff.mpr (List.mem_finRange e)
  have hcount : (List.finRange nExpert).countP (RanksAbove rw · e) =
      (Finset.univ.filter fun f => RanksAbove rw f e).card := by
    rw [List.countP_eq_length_filter]
    rfl
  rw [selectExperts, mem_take_iff_countP_lt (ranked_sortBy rw)
    (fun _ _ => not_ranksAbove_of_ranksAbove) hmem, hperm.countP_eq, hcount, topExperts,
    Finset.mem_filter_univ]

omit [Field K] in
theorem toFinset_selectExperts :
    (selectExperts nExpertUsed rw).toFinset = topExperts nExpertUsed rw := by
  ext e
  rw [List.mem_toFinset, mem_selectExperts_iff]

omit [Field K] in
/-- So many experts are used, or all if there are not enough. -/
theorem card_topExperts : (topExperts nExpertUsed rw).card = min nExpertUsed nExpert := by
  rw [← toFinset_selectExperts, List.toFinset_card_of_nodup (nodup_selectExperts _ _),
    selectExperts, List.length_take, length_sortBy, List.length_finRange]

theorem sumRoutingWeights_eq_sum :
    sumRoutingWeights nExpertUsed rw = ∑ e ∈ topExperts nExpertUsed rw, rw e := by
  have hfold (l : List (Fin nExpert)) (start : K) :
      l.foldl (fun sum e => sum + rw e) start = start + (l.map rw).sum := by
    induction l generalizing start with
    | nil => exact (add_zero start).symm
    | cons e l ih => rw [List.foldl_cons, ih, List.map_cons, List.sum_cons, add_assoc]
  rw [sumRoutingWeights, hfold, zero_add, ← toFinset_selectExperts,
    List.sum_toFinset _ (nodup_selectExperts _ _)]

end Ranking

/-! ## The rows of a batch -/

namespace MlpOrMoe

variable [ElementaryFunctions K] {gate : QMatMul K n nExpert} {experts : Fin nExpert → Mlp K n}

/-- What a mixture computes for a row is the sum over the experts that are used. -/
theorem forwardRow_moe (x : Fin n → K) :
    (moe nExpert nExpertUsed gate experts).forwardRow x =
      ∑ e ∈ topExperts nExpertUsed (routing gate x),
        share nExpertUsed e (routing gate x) • (experts e).forwardRow x := by
  have hfold (p : Fin nExpert → Prop) [DecidablePred p] (g : Fin nExpert → Fin n → K)
      (l : List (Fin nExpert)) (start : Fin n → K) :
      l.foldl (fun y e => if p e then y + g e else y) start =
        start + (l.map fun e => if p e then g e else 0).sum := by
    induction l generalizing start with
    | nil => exact (add_zero start).symm
    | cons e l ih =>
        rw [List.foldl_cons, ih, List.map_cons, List.sum_cons]
        split_ifs
        · rw [add_assoc]
        · rw [zero_add]
  rw [forwardRow, hfold, zero_add, ← Fin.sum_univ_def, ← Finset.sum_filter]
  refine Finset.sum_congr ?_ fun _ _ => rfl
  ext e
  rw [Finset.mem_filter_univ, mem_selectExperts_iff]
  rfl

/-- **A mixture of experts works row by row.** A row of the result is the sum over the experts that
are ranked highest for the row in its place, of what they compute for it, by their share of the
routing weights. -/
theorem forwardBatch_moe (nExpertUsed : ℕ) (gate : QMatMul K n nExpert)
    (experts : Fin nExpert → Mlp K n) (xs : Fin bSize → Fin seqLen → Fin n → K) (b : Fin bSize)
    (s : Fin seqLen) :
    let rw := softmaxLastDim (gate.forwardRow (xs b s))
    (moe nExpert nExpertUsed gate experts).forwardBatch xs b s =
        ∑ e ∈ topExperts nExpertUsed rw,
          (rw e / ∑ f ∈ topExperts nExpertUsed rw, rw f) • (experts e).forwardRow (xs b s) ∧
      (topExperts nExpertUsed rw).card = min nExpertUsed nExpert := by
  refine ⟨?_, card_topExperts⟩
  rw [forwardBatch, forward_eq_map, reshapeBatch_map, forwardRow_moe]
  refine Finset.sum_congr rfl fun e _ => ?_
  rw [share, sumRoutingWeights_eq_sum]
  rfl

end MlpOrMoe

end HiveBear.Inference
