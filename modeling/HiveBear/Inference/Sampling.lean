/-
# Sampling a token

With a positive temperature, Candle's `sample_token` turns the logits of a vocabulary into
probabilities, sorts them, keeps the most probable tokens up to a bound on their mass, and draws one
of these with a random number. This is nucleus sampling: a token of the nucleus is drawn on an
interval of random numbers whose length is its probability, divided by the mass of the nucleus, and
the fallback behind the loop is not needed.

Arithmetic is exact. The exponential function is a parameter, and all that is used of it is that
the weights are positive.
-/

import HiveBear.Library.StableSort
import HiveBear.Library.WeightedDraw
import Mathlib.Algebra.BigOperators.Ring.List
import Mathlib.Algebra.Order.Field.Basic
import Mathlib.Analysis.Complex.Exponential
import Mathlib.Order.Interval.Set.Basic

namespace HiveBear.Inference

open StableSort WeightedDraw

variable {K : Type*} [Field K] [LinearOrder K]

/-! ## The function -/

section

variable (exp : K → K) (argmax : List K → UInt32) (logits : List K) (temperature topP : K)

/-- Softmax of the logits, scaled by the temperature. -/
def probabilities : List K :=
  let exps := logits.map fun logit => exp (logit / temperature)
  exps.map (· / exps.sum)

/-- The tokens with their probabilities. -/
def indexed (probs : List K) : List (ℕ × K) := probs.zipIdx.map Prod.swap

/-- The tokens with the most probable first. -/
def sortedTokens (probs : List K) : List (ℕ × K) :=
  sortBy (fun a b => compare b.2 a.2) (indexed probs)

/-- The most probable tokens, up to the one that reaches `topP`. -/
def candidates : List (ℕ × K) :=
  upTo topP 0 (sortedTokens (probabilities exp logits temperature))

/-- The candidate that the loop returns, if it does not run to its end. -/
def drawn (random : K) : Option (ℕ × K) :=
  let candidates := candidates exp logits temperature topP
  draw (random * mass candidates) candidates

/-- Candle's `sample_token`. There is no first candidate to fall back to if there are no logits. -/
def sampleToken (random : K) : Option UInt32 :=
  if 0 < temperature then
    match drawn exp logits temperature topP random with
    | some (idx, _) => some (UInt32.ofNat idx)
    | none =>
        (candidates exp logits temperature topP).head?.map fun candidate =>
          UInt32.ofNat candidate.1
  else some (argmax logits)

end

example : sampleToken (fun x : ℚ => x) (fun _ => 0) [1, 6, 3] 1 (8 / 10) (2 / 3) = some 1 ∧
    sampleToken (fun x : ℚ => x) (fun _ => 0) [1, 6, 3] 1 (8 / 10) (3 / 4) = some 2 := by
  decide +kernel

/-! ## What is claimed -/

/-- The shortest beginning of the tokens, sorted by their probability, whose mass reaches `topP`. -/
structure IsNucleus (probs : List K) (topP : K) (nucleus : List (ℕ × K)) : Prop where
  sorted : ∃ rest, (nucleus ++ rest).Perm (indexed probs) ∧
    (nucleus ++ rest).Pairwise fun a b => b.2 ≤ a.2
  reaches : topP ≤ mass nucleus
  shortest : ∀ shorter, shorter <+: nucleus → shorter ≠ nucleus → mass shorter < topP

/-- An interval of this length, with its ends or without. -/
def IsIntervalOfLength (s : Set K) (length : K) : Prop :=
  ∃ a b, b - a = length ∧ Set.Ioo a b ⊆ s ∧ s ⊆ Set.Icc a b

/-! ## Probabilities -/

variable {exp : K → K} {argmax : List K → UInt32} {logits probs : List K} {temperature topP : K}

omit [LinearOrder K] in
theorem mass_indexed (probs : List K) : mass (indexed probs) = probs.sum := by
  rw [mass, indexed, List.map_map]
  exact congrArg List.sum (List.zipIdx_map_fst 0 probs)

omit [Field K] [LinearOrder K] in
theorem mem_indexed {c : ℕ × K} : c ∈ indexed probs ↔ probs[c.1]? = some c.2 := by
  rw [indexed, List.mem_map]
  constructor
  · rintro ⟨x, hx, rfl⟩
    exact List.mem_zipIdx_iff_getElem?.mp hx
  · intro h
    exact ⟨c.swap, List.mem_zipIdx_iff_getElem?.mpr h, Prod.swap_swap c⟩

omit [Field K] [LinearOrder K] in
theorem nodup_indexed (probs : List K) : (indexed probs).Nodup := by
  refine List.Nodup.map Prod.swap_injective ?_
  refine List.Nodup.of_map Prod.snd ?_
  rw [List.zipIdx_map_snd]
  exact List.nodup_range'

omit [Field K] in
theorem perm_sortedTokens (probs : List K) : (sortedTokens probs).Perm (indexed probs) :=
  perm_sortBy _ _

omit [Field K] in
/-- The most probable tokens come first. -/
theorem pairwise_sortedTokens (probs : List K) :
    (sortedTokens probs).Pairwise fun a b => b.2 ≤ a.2 := by
  refine pairwise_sortBy ?_ ?_ ?_ _
  · exact fun a b c hab hbc => hbc.trans hab
  · exact fun a b h => compare_le_iff_le.mp h
  · exact fun a b h => (compare_gt_iff_gt.mp h).le

theorem exps_pos (hexp : ∀ logit ∈ logits, 0 < exp (logit / temperature)) :
    ∀ x ∈ logits.map fun logit => exp (logit / temperature), 0 < x := by
  intro x hx
  obtain ⟨logit, hlogit, rfl⟩ := List.mem_map.mp hx
  exact hexp logit hlogit

section Softmax

variable [IsStrictOrderedRing K]

/-- Probabilities are positive. -/
theorem probabilities_pos (hexp : ∀ logit ∈ logits, 0 < exp (logit / temperature)) :
    ∀ p ∈ probabilities exp logits temperature, 0 < p := by
  intro p hp
  obtain ⟨x, hx, rfl⟩ := List.mem_map.mp hp
  exact div_pos (exps_pos hexp x hx)
    (List.sum_pos _ (exps_pos hexp) (List.ne_nil_of_mem hx))

/-- Probabilities add up to one. -/
theorem sum_probabilities (hexp : ∀ logit ∈ logits, 0 < exp (logit / temperature))
    (hne : logits ≠ []) : (probabilities exp logits temperature).sum = 1 := by
  have hpos := List.sum_pos _ (exps_pos hexp) (List.map_eq_nil_iff.not.mpr hne)
  have hmul (l : List K) (total : K) : (l.map (· / total)).sum = l.sum / total := by
    simp only [div_eq_mul_inv, List.sum_map_mul_right, List.map_id']
  rw [probabilities, hmul]
  exact div_self hpos.ne'

end Softmax

/-! ## The nucleus -/

theorem candidates_isPrefix :
    candidates exp logits temperature topP <+: sortedTokens (probabilities exp logits temperature) :=
  upTo_isPrefix

theorem nodup_candidates : (candidates exp logits temperature topP).Nodup :=
  ((perm_sortedTokens _).nodup_iff.mpr (nodup_indexed _)).sublist candidates_isPrefix.sublist

theorem mem_indexed_of_candidate {c : ℕ × K} (hc : c ∈ candidates exp logits temperature topP) :
    c ∈ indexed (probabilities exp logits temperature) :=
  (perm_sortedTokens _).mem_iff.mp (candidates_isPrefix.subset hc)

/-- Where the tokens fit 32 bits, different candidates are different tokens. -/
theorem candidate_eq_of_ofNat_eq (hlength : logits.length ≤ 2 ^ 32) {c d : ℕ × K}
    (hc : c ∈ candidates exp logits temperature topP)
    (hd : d ∈ candidates exp logits temperature topP)
    (h : UInt32.ofNat c.1 = UInt32.ofNat d.1) : c = d := by
  have hget := mem_indexed.mp (mem_indexed_of_candidate hc)
  have hget' := mem_indexed.mp (mem_indexed_of_candidate hd)
  have hbound : (probabilities exp logits temperature).length ≤ 2 ^ 32 := by
    simpa [probabilities] using hlength
  have hidx : c.1 = d.1 := by
    have hsmall := (List.getElem?_eq_some_iff.mp hget).1.trans_le hbound
    have hsmall' := (List.getElem?_eq_some_iff.mp hget').1.trans_le hbound
    have hnat := congrArg UInt32.toNat h
    rwa [UInt32.toNat_ofNat_of_lt' hsmall, UInt32.toNat_ofNat_of_lt' hsmall'] at hnat
  rw [← hidx, hget] at hget'
  exact Prod.ext hidx (Option.some.inj hget')

section Nucleus

variable [IsStrictOrderedRing K] (hexp : ∀ logit ∈ logits, 0 < exp (logit / temperature))

include hexp in
theorem candidate_pos : ∀ c ∈ candidates exp logits temperature topP, 0 < c.2 := by
  intro c hc
  exact probabilities_pos hexp c.2 (List.mem_of_getElem? (mem_indexed.mp (mem_indexed_of_candidate hc)))

include hexp in
/-- The candidates are a nucleus. -/
theorem isNucleus_candidates (hne : logits ≠ []) (htopP : 0 < topP) (hone : topP ≤ 1) :
    IsNucleus (probabilities exp logits temperature) topP
      (candidates exp logits temperature topP) := by
  obtain ⟨rest, hrest⟩ : candidates exp logits temperature topP <+:
      sortedTokens (probabilities exp logits temperature) := candidates_isPrefix
  have hmass : mass (sortedTokens (probabilities exp logits temperature)) = 1 := by
    rw [← sum_probabilities hexp hne, ← mass_indexed]
    exact ((perm_sortedTokens _).map Prod.snd).sum_eq
  have hreaches := @le_mass_upTo _ _ _ _ topP 0 _ (by rwa [zero_add, hmass])
  have hshortest := @mass_lt_of_prefix_upTo _ _ _ _ topP 0
    (sortedTokens (probabilities exp logits temperature)) htopP
  simp only [zero_add] at hreaches hshortest
  refine ⟨⟨rest, ?_, ?_⟩, hreaches, fun shorter => hshortest⟩
  · rw [hrest]
    exact perm_sortedTokens _
  · rw [hrest]
    exact pairwise_sortedTokens _

include hexp in
/-- A candidate is drawn on an interval whose length is its share of the mass. -/
theorem isIntervalOfLength_drawn {c : ℕ × K} (hc : c ∈ candidates exp logits temperature topP) :
    IsIntervalOfLength
      {random | 0 ≤ random ∧ random < 1 ∧ drawn exp logits temperature topP random = some c}
      (c.2 / mass (candidates exp logits temperature topP)) := by
  have hnodup := @nodup_candidates _ _ _ exp logits temperature topP
  have hpos := @candidate_pos _ _ _ exp logits temperature topP _ hexp
  simp only [drawn]
  generalize candidates exp logits temperature topP = nucleus at hc hnodup hpos
  obtain ⟨before, after, rfl⟩ := List.append_of_mem hc
  have hnonneg : ∀ d ∈ before ++ c :: after, 0 ≤ d.2 := fun d hd => (hpos d hd).le
  have hsplit (left : K) : draw left (before ++ c :: after) = some c ↔
      (before ≠ [] → mass before < left) ∧ left ≤ mass before + c.2 :=
    draw_split_iff hnodup hnonneg
  have hmass : mass (before ++ c :: after) = mass before + (c.2 + mass after) := by
    rw [mass_append, mass_cons]
  have hbefore : 0 ≤ mass before := mass_nonneg fun d hd => hnonneg d (List.mem_append_left _ hd)
  have hafter : 0 ≤ mass after := mass_nonneg fun d hd =>
    hnonneg d (List.mem_append_right _ (List.mem_cons_of_mem c hd))
  have htotal : 0 < mass (before ++ c :: after) := by
    rw [hmass]
    exact add_pos_of_nonneg_of_pos hbefore (add_pos_of_pos_of_nonneg (hpos c hc) hafter)
  refine ⟨mass before / mass (before ++ c :: after),
    (mass before + c.2) / mass (before ++ c :: after), ?_, ?_, ?_⟩
  · rw [← sub_div, add_sub_cancel_left]
  · rintro random ⟨habove, hbelow⟩
    refine ⟨(div_nonneg hbefore htotal.le).trans habove.le, hbelow.trans_le ?_, ?_⟩
    · rw [div_le_one htotal, hmass, ← add_assoc]
      exact le_add_of_nonneg_right hafter
    · rw [div_lt_iff₀ htotal] at habove
      rw [lt_div_iff₀ htotal] at hbelow
      exact (hsplit _).mpr ⟨fun _ => habove, hbelow.le⟩
  · rintro random ⟨hrandom, -, hdraw⟩
    obtain ⟨habove, hbelow⟩ := (hsplit _).mp hdraw
    refine ⟨?_, (le_div_iff₀ htotal).mpr hbelow⟩
    rw [div_le_iff₀ htotal]
    by_cases hfirst : before = []
    · rw [hfirst]
      exact mul_nonneg hrandom (hfirst ▸ htotal).le
    · exact (habove hfirst).le

include hexp in
/-- The loop returns a candidate, so the fallback behind it is not needed. -/
theorem exists_drawn (hne : logits ≠ []) (htemperature : 0 < temperature) (htopP : 0 < topP)
    (hone : topP ≤ 1) {random : K} (hrandom : random < 1) :
    ∃ c ∈ candidates exp logits temperature topP,
      drawn exp logits temperature topP random = some c ∧
      sampleToken exp argmax logits temperature topP random = some (UInt32.ofNat c.1) := by
  have hmass : 0 < mass (candidates exp logits temperature topP) :=
    htopP.trans_le (isNucleus_candidates hexp hne htopP hone).reaches
  have hcandidates : candidates exp logits temperature topP ≠ [] := by
    intro hnil
    rw [hnil] at hmass
    exact absurd hmass (lt_irrefl 0)
  obtain ⟨c, hc, hdrawn⟩ := exists_draw hcandidates (mul_le_of_le_one_left hmass.le hrandom.le)
  have hdrawn : drawn exp logits temperature topP random = some c := hdrawn
  refine ⟨c, hc, hdrawn, ?_⟩
  rw [sampleToken, if_pos htemperature, hdrawn]

end Nucleus

/-- **Nucleus sampling.** A token of the nucleus is returned, and each of them on an interval of
random numbers that is as long as its share of the mass. -/
theorem nucleus_sampling [IsStrictOrderedRing K] (exp : K → K) (argmax : List K → UInt32)
    (logits : List K) (temperature topP : K)
    (hexp : ∀ logit ∈ logits, 0 < exp (logit / temperature)) (hne : logits ≠ [])
    (htemperature : 0 < temperature) (htopP : 0 < topP) (hone : topP ≤ 1) :
    ∃ nucleus, IsNucleus (probabilities exp logits temperature) topP nucleus ∧
      (∀ random, 0 ≤ random → random < 1 → ∃ c ∈ nucleus,
        drawn exp logits temperature topP random = some c ∧
        sampleToken exp argmax logits temperature topP random = some (UInt32.ofNat c.1)) ∧
      (∀ c ∈ nucleus, IsIntervalOfLength
        {random | 0 ≤ random ∧ random < 1 ∧ drawn exp logits temperature topP random = some c}
        (c.2 / mass nucleus)) ∧
      (logits.length ≤ 2 ^ 32 → ∀ c ∈ nucleus, IsIntervalOfLength
        {random | 0 ≤ random ∧ random < 1 ∧
          sampleToken exp argmax logits temperature topP random = some (UInt32.ofNat c.1)}
        (c.2 / mass nucleus)) := by
  refine ⟨_, isNucleus_candidates hexp hne htopP hone, ?_, ?_, ?_⟩
  · intro random _ hrandom
    exact exists_drawn hexp hne htemperature htopP hone hrandom
  · intro c hc
    exact isIntervalOfLength_drawn hexp hc
  · intro hlength c hc
    have hsame : {random | 0 ≤ random ∧ random < 1 ∧
        sampleToken exp argmax logits temperature topP random = some (UInt32.ofNat c.1)} =
        {random | 0 ≤ random ∧ random < 1 ∧
          drawn exp logits temperature topP random = some c} := by
      ext random
      refine and_congr_right fun _ => and_congr_right fun hrandom => ?_
      obtain ⟨d, hd, hdrawn, htoken⟩ :=
        exists_drawn hexp hne htemperature htopP hone hrandom
      rw [htoken, hdrawn, Option.some_inj, Option.some_inj]
      constructor
      · exact candidate_eq_of_ofNat_eq hlength hd hc
      · rintro rfl
        rfl
    rw [hsame]
    exact isIntervalOfLength_drawn hexp hc

theorem nucleus_sampling_three :
    ∃ nucleus, IsNucleus (probabilities Real.exp [2, 1, 0] 1) (9 / 10) nucleus ∧
      ∀ random, 0 ≤ random → random < 1 → ∃ c ∈ nucleus,
        sampleToken Real.exp (fun _ => 0) [2, 1, 0] 1 (9 / 10) random =
          some (UInt32.ofNat c.1) := by
  obtain ⟨nucleus, hnucleus, hreturned, -, -⟩ := nucleus_sampling Real.exp (fun _ => 0) [2, 1, 0]
    1 (9 / 10) (fun _ _ => Real.exp_pos _) (List.cons_ne_nil _ _) one_pos (by norm_num)
    (by norm_num)
  refine ⟨nucleus, hnucleus, ?_⟩
  intro random hnonneg hrandom
  obtain ⟨c, hc, -, htoken⟩ := hreturned random hnonneg hrandom
  exact ⟨c, hc, htoken⟩

end HiveBear.Inference
