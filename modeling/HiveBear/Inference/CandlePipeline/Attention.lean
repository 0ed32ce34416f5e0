/-
# What a block computes for one position

The rotary embedding of a row depends on its absolute position, a head reads the cached
head of its group, and a causal mask hides exactly the later positions. So a row of a
masked prompt and a single token without a mask attend in the same way: to the keys and
values of the positions up to their own.
-/

import HiveBear.Inference.CandlePipeline.Forward

namespace HiveBear.Inference

open ElementaryFunctions MaskedSoftmax

variable {K : Type*} {config : LlamaConfig} [Field K]

/-! ## Positions -/

theorem narrow_eq_ok {α : Type*} {len start count : ℕ} (table : Fin len → α)
    (hfits : start + count ≤ len) :
    narrow table start count =
      .ok (List.ofFn fun i : Fin count => table ⟨start + i, narrow_lt hfits i⟩) :=
  dif_pos hfits

namespace LayerWeights

variable (layer : LayerWeights K config)

/-- Rotate the heads of a position. Behind the tables there is no rotation. -/
def rope {n : ℕ} (position : ℕ) (row : Heads K config n) : Heads K config n :=
  if hposition : position < maxSeqLen then
    fun head =>
      ropeHead (layer.cos ⟨position, hposition⟩) (layer.sin ⟨position, hposition⟩) (row head)
  else
    row

/-- The rotary embedding of a row is determined by its absolute position. -/
theorem applyRotaryEmb_eq {n : ℕ} (x : List (Heads K config n)) {indexPos : ℕ}
    (hfits : indexPos + x.length ≤ maxSeqLen) :
    layer.applyRotaryEmb x indexPos =
      .ok (x.mapIdx fun i row => layer.rope (indexPos + i) row) := by
  rw [applyRotaryEmb, narrow_eq_ok layer.cos hfits, narrow_eq_ok layer.sin hfits]
  have hrows : ropeI x
      (List.ofFn fun i : Fin x.length => layer.cos ⟨indexPos + i, narrow_lt hfits i⟩)
      (List.ofFn fun i : Fin x.length => layer.sin ⟨indexPos + i, narrow_lt hfits i⟩) =
      x.mapIdx fun i row => layer.rope (indexPos + i) row := by
    apply List.ext_getElem
    · simp [ropeI]
    · intro i _ hi
      rw [List.length_mapIdx] at hi
      have hposition : indexPos + i < maxSeqLen := by omega
      simp [ropeI, rope, hposition]
  rw [← hrows]
  rfl

theorem applyRotaryEmb_map {α : Type*} {n indexPos : ℕ} (xs : List α) (f : α → Heads K config n)
    (hfits : indexPos + xs.length ≤ maxSeqLen) :
    layer.applyRotaryEmb (xs.map f) indexPos =
      .ok (xs.mapIdx fun i a => layer.rope (indexPos + i) (f a)) := by
  have hlength : indexPos + (xs.map f).length ≤ maxSeqLen := by rwa [List.length_map]
  rw [layer.applyRotaryEmb_eq _ hlength]
  apply congrArg Except.ok
  apply List.ext_getElem
  · rw [List.length_mapIdx, List.length_map, List.length_mapIdx]
  · intro i _ _
    rw [List.getElem_mapIdx, List.getElem_mapIdx, List.getElem_map]

end LayerWeights

/-! ## Groups of heads -/

/-- Copies of a list behind each other repeat it. -/
theorem getElem?_flatten_replicate {α : Type*} (xs : List α) {n copy pos : ℕ} (hcopy : copy < n)
    (hpos : pos < xs.length) :
    (List.replicate n xs).flatten[pos + xs.length * copy]? = xs[pos]? := by
  induction n generalizing copy with
  | zero => exact absurd hcopy (Nat.not_lt_zero copy)
  | succ n ih =>
      rw [List.replicate_succ, List.flatten_cons]
      cases copy with
      | zero => rw [Nat.mul_zero, Nat.add_zero, List.getElem?_append_left hpos]
      | succ copy =>
          have hshift : pos + xs.length * (copy + 1) - xs.length = pos + xs.length * copy := by
            rw [Nat.mul_succ]
            omega
          have hright : xs.length ≤ pos + xs.length * (copy + 1) := by
            rw [Nat.mul_succ]
            omega
          rw [List.getElem?_append_right hright, hshift]
          exact ih (Nat.lt_of_succ_lt_succ hcopy)

/-- Each cached head is repeated for the heads of its group. -/
theorem repeatKv_eq_map {n d : ℕ} (xs : List (Fin n → Fin d → K)) (nRep : ℕ) :
    repeatKv xs nRep = xs.map fun row (head : Fin (n * nRep)) =>
      row ⟨head / nRep, Nat.div_lt_of_lt_mul (head.isLt.trans_eq (Nat.mul_comm n nRep))⟩ := by
  by_cases hone : nRep = 1
  · subst hone
    rw [repeatKv, dif_pos rfl]
    apply List.map_congr_left
    intro row _
    funext head
    congr 1
    apply Fin.ext
    exact (Nat.div_one _).symm
  · rw [repeatKv, dif_neg hone]
    apply List.ext_getElem
    · rw [List.length_ofFn, List.length_map]
    · intro pos _ hpos
      rw [List.length_map] at hpos
      rw [List.getElem_ofFn, List.getElem_map]
      funext head
      have hcopy : head % nRep < nRep := by
        apply Nat.mod_lt
        exact Nat.pos_of_lt_mul_left head.isLt
      have hgroup : (head * xs.length + pos) / (nRep * xs.length) = head / nRep := by
        rw [Nat.mul_comm nRep, ← Nat.div_div_eq_div_mul, Nat.mul_comm head.val,
          Nat.mul_add_div (by omega), Nat.div_eq_of_lt hpos, Nat.add_zero]
      have hrow : (head * xs.length + pos) % (nRep * xs.length) =
          pos + xs.length * (head % nRep) := by
        rw [Nat.mul_comm nRep, Nat.mod_mul, Nat.mul_comm head.val, Nat.mul_add_mod,
          Nat.mod_eq_of_lt hpos, Nat.mul_add_div (by omega), Nat.div_eq_of_lt hpos, Nat.add_zero]
      have hget : (List.replicate nRep xs).flatten.getD
          ((head * xs.length + pos) % (nRep * xs.length)) 0 = xs[pos] := by
        rw [List.getD_eq_getElem?_getD, hrow, getElem?_flatten_replicate xs hcopy hpos,
          List.getElem?_eq_getElem hpos, Option.getD_some]
      exact (congrFun hget _).trans (congrArg xs[pos] (Fin.ext hgroup))

/-! ## Masks -/

@[simp]
theorem length_causalMask (t : ℕ) : (causalMask t).length = t := by
  rw [causalMask, List.length_map, List.length_range]

theorem getElem_causalMask {t i : ℕ} (hi : i < (causalMask t).length) :
    (causalMask t)[i] = (List.range t).map fun j => decide (j > i) := by
  simp only [causalMask, List.getElem_map, List.getElem_range]

/-- A mask taken from those computed so far is the causal mask. -/
theorem Masks.fst_mask (masks : Masks) (t : ℕ) : (masks.mask t).1 = causalMask t := by
  rw [mask]
  split
  · rename_i found hlookup
    obtain ⟨before, after, hentries, -⟩ := List.lookup_eq_some_iff.mp hlookup
    apply masks.valid (t, found)
    rw [hentries]
    exact List.mem_append_right before List.mem_cons_self
  · rfl

/-! ## One position -/

variable [ElementaryFunctions K]

/-- Score of a key for a query. -/
def score (query : Heads K config config.headCount) (key : Heads K config config.headCountKv)
    (head : Fin config.headCount) : K :=
  (∑ i, query head i * key (config.kvHead head) i) / sqrt (config.headDim : K)

/-- Scores of keys for a query, none of them masked. -/
def scores (query : Heads K config config.headCount)
    (keys : List (Heads K config config.headCountKv)) (head : Fin config.headCount) :
    List (WithBot K) :=
  keys.map fun key => ((score query key head : K) : WithBot K)

@[simp]
theorem length_scores (query : Heads K config config.headCount)
    (keys : List (Heads K config config.headCountKv)) (head : Fin config.headCount) :
    (scores query keys head).length = keys.length :=
  List.length_map _

theorem take_scores (query : Heads K config config.headCount)
    (keys : List (Heads K config config.headCountKv)) (head : Fin config.headCount) (n : ℕ) :
    (scores query keys head).take n = scores query (keys.take n) head :=
  List.map_take.symm

/-- What a position reads from the keys and values it attends to. -/
def attendTo (query : Heads K config config.headCount)
    (keys values : List (Heads K config config.headCountKv)) : Heads K config config.headCount :=
  fun head =>
    combine (softmax exp (scores query keys head))
      (values.map fun value => value (config.kvHead head))

/-- The fused operation is attention without a mask. -/
theorem sdpa_eq (q : List (Heads K config config.headCount))
    (k v : List (Heads K config config.headCountKv)) :
    sdpa q k v (1 / sqrt (config.headDim : K)) = q.map fun query => attendTo query k v := by
  apply List.map_congr_left
  intro query _
  funext head
  have hscores : (k.map fun key => ((1 / sqrt (config.headDim : K) *
      ∑ i, query head i * key (config.kvHead head) i : K) : WithBot K)) = scores query k head := by
    apply List.map_congr_left
    intro key _
    rw [one_div_mul_eq_div, score]
  rw [attendTo, ← hscores]

/-- Attention with repeated heads, with or without a mask. -/
theorem attend_of_not_fused {device : Device} {q : List (Heads K config config.headCount)}
    (hfused : ¬ (device = .metal ∧ q.length = 1))
    (k v : List (Heads K config config.headCountKv)) (mask : Option Mask) :
    attend device q k v mask =
      maskedFill (q.map fun query => scores query k) mask k.length >>= fun att =>
        pure (att.map fun row head => combine (softmax exp (row head))
          (v.map fun value => value (config.kvHead head))) := by
  rw [attend, if_neg hfused, repeatKv_eq_map, repeatKv_eq_map]
  simp only [List.map_map, List.length_map]
  rfl

/-- A single token attends to all keys, fused or not. -/
theorem attend_single (device : Device) (query : Heads K config config.headCount)
    (k v : List (Heads K config config.headCountKv)) :
    attend device [query] k v none = .ok [attendTo query k v] := by
  by_cases hfused : device = .metal ∧ [query].length = 1
  · rw [attend, if_pos hfused, sdpa_eq]
    rfl
  · rw [attend_of_not_fused hfused]
    rfl

/-- Behind the causal mask, a position of a prompt attends to the positions up to its own. -/
theorem attend_causal (device : Device) {q : List (Heads K config config.headCount)}
    {k v : List (Heads K config config.headCountKv)} (hq : q.length ≠ 1)
    (hk : k.length = q.length) (hv : v.length = q.length) :
    attend device q k v (some (causalMask q.length)) =
      .ok (q.mapIdx fun i query => attendTo query (k.take (i + 1)) (v.take (i + 1))) := by
  have hmask : (causalMask q.length).length = (q.map fun query => scores query k).length := by
    rw [length_causalMask, List.length_map]
  rw [attend_of_not_fused fun hfused => hq hfused.2, maskedFill,
    if_pos ⟨hmask, by rw [hmask, List.length_map, hk]⟩]
  apply congrArg Except.ok
  rw [List.map_zipWith]
  apply List.ext_getElem
  · rw [List.length_zipWith, hmask, min_self, List.length_map, List.length_mapIdx]
  · intro i _ hi
    rw [List.length_mapIdx] at hi
    rw [List.getElem_zipWith, List.getElem_map, List.getElem_mapIdx, getElem_causalMask]
    funext head
    have hlength : (scores q[i] k head).length =
        (v.map fun value => value (config.kvHead head)).length := by
      rw [length_scores, List.length_map, hk, hv]
    have hread := combine_softmax_fill_causal exp (i := i) hlength
    rw [length_scores, hk, take_scores, ← List.map_take] at hread
    exact hread

end HiveBear.Inference
