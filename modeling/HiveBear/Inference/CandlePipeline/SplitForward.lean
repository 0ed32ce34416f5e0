/-
# Split and cached forward passes

A prompt is fed once, then single tokens follow, each with the number of tokens before it,
and every stage of a pipeline forwards what the stage before it returns. The keys and
values that a block keeps are those of exactly the positions fed so far, so each call
returns, for its positions, what one causal pass over the whole sequence and all blocks
would compute for them. Whatever an earlier generation has left in the caches is discarded
by the prompt.
-/

import HiveBear.Inference.CandlePipeline.Attention
import Mathlib.Analysis.SpecialFunctions.Sqrt
import Mathlib.Analysis.SpecialFunctions.Trigonometric.Basic

namespace HiveBear.Inference

open ElementaryFunctions CausalStream

variable {K : Type*} {config : LlamaConfig} [Field K] [ElementaryFunctions K]

/-! ## One causal pass -/

namespace LayerWeights

variable (layer : LayerWeights K config)

def queryAt (position : ℕ) (row : Row K config) : Heads K config config.headCount :=
  layer.rope position
    (splitHeads (layer.attentionWq.forwardRow (layer.attentionNorm.forwardRow row)))

def keyAt (position : ℕ) (row : Row K config) : Heads K config config.headCountKv :=
  layer.rope position
    (splitHeads (layer.attentionWk.forwardRow (layer.attentionNorm.forwardRow row)))

def valueAt (row : Row K config) : Heads K config config.headCountKv :=
  splitHeads (layer.attentionWv.forwardRow (layer.attentionNorm.forwardRow row))

/-- What attention adds to a row that attends to keys and values. -/
def attention (position : ℕ) (row : Row K config)
    (keys values : List (Heads K config config.headCountKv)) : Row K config :=
  layer.attentionWo.forwardRow (joinHeads (attendTo (layer.queryAt position row) keys values))

variable [LinearOrder K]

/-- The second half of a block. -/
def feedForward (row : Row K config) : Row K config :=
  layer.mlpOrMoe.forwardRow (layer.ffnNorm.forwardRow row) + row

/-- One pass of a block over a whole sequence, in which each position attends to itself and
the positions before it. -/
def causalPass : List (Row K config) → List (Row K config) :=
  scan (fun position row => (layer.keyAt position row, layer.valueAt row))
    fun position row entries => layer.feedForward
      (layer.attention position row (entries.map Prod.fst) (entries.map Prod.snd) + row)

theorem isCausal_causalPass : IsCausal layer.causalPass := by
  rw [causalPass]
  exact isCausal_scan _ _

end LayerWeights

/-- One causal pass over a whole sequence and all blocks. -/
def causalPass [LinearOrder K] (blocks : List (LayerWeights K config)) :
    List (Row K config) → List (Row K config) :=
  denoteAll (fun block => block.causalPass) blocks

/-! ## Calls -/

/-- A call at position zero discards the cache. -/
theorem joinCache_zero {α : Type*} (kvCache : Option (List α × List α)) (k v : List α) :
    joinCache kvCache 0 k v = (k, v) := by
  cases kvCache with
  | none => rfl
  | some cache => rfl

theorem joinCache_of_ne_zero {α : Type*} {indexPos : ℕ} (hpos : indexPos ≠ 0)
    (kCache vCache k v : List α) :
    joinCache (some (kCache, vCache)) indexPos k v = (kCache ++ k, vCache ++ v) :=
  if_neg hpos

/-- The mask of a call. -/
def maskFor (seqLen : ℕ) : Option Mask :=
  if seqLen = 1 then none else some (causalMask seqLen)

/-- The calls of a generation: a prompt at position zero, then single tokens, as far as the
rotary tables go. -/
def Admits (indexPos seqLen : ℕ) : Prop :=
  (indexPos = 0 ∧ seqLen ≠ 0 ∨ seqLen = 1) ∧ indexPos + seqLen ≤ maxSeqLen

namespace LayerWeights

variable (layer : LayerWeights K config) {past rows : List (Row K config)}

/-- Once rows have been fed, the cache holds exactly their keys and values. -/
def Caches (past : List (Row K config)) : Prop :=
  past ≠ [] → layer.kvCache = some (past.mapIdx layer.keyAt, past.map layer.valueAt)

variable {layer}

/-- A call attends to the keys and values of the rows fed before and of its own. -/
theorem joinCache_eq (hcaches : layer.Caches past) :
    joinCache layer.kvCache past.length
        (rows.mapIdx fun i row => layer.keyAt (past.length + i) row) (rows.map layer.valueAt) =
      ((past ++ rows).mapIdx layer.keyAt, (past ++ rows).map layer.valueAt) := by
  by_cases hpast : past = []
  · subst hpast
    have hkeys : (rows.mapIdx fun i row => layer.keyAt (0 + i) row) = rows.mapIdx layer.keyAt := by
      simp only [Nat.zero_add]
    rw [List.length_nil, hkeys, List.nil_append, joinCache_zero]
  · have hlength : past.length ≠ 0 := fun hzero => hpast (List.eq_nil_of_length_eq_zero hzero)
    rw [hcaches hpast, joinCache_of_ne_zero hlength, List.mapIdx_append, List.map_append]
    simp only [Nat.add_comm]

/-- Attention of the positions of a call, in one piece with those before them. -/
theorem attend_call (device : Device) (hadmits : Admits past.length rows.length) :
    attend device (rows.mapIdx fun i row => layer.queryAt (past.length + i) row)
        ((past ++ rows).mapIdx layer.keyAt) ((past ++ rows).map layer.valueAt)
        (maskFor rows.length) =
      .ok (rows.mapIdx fun i row => attendTo (layer.queryAt (past.length + i) row)
        (((past ++ rows).mapIdx layer.keyAt).take (past.length + i + 1))
        (((past ++ rows).map layer.valueAt).take (past.length + i + 1))) := by
  by_cases hone : rows.length = 1
  · obtain ⟨row, rfl⟩ := List.length_eq_one_iff.mp hone
    have hkeys : ((past ++ [row]).mapIdx layer.keyAt).length ≤ past.length + 0 + 1 := by simp
    have hvalues : ((past ++ [row]).map layer.valueAt).length ≤ past.length + 0 + 1 := by simp
    rw [maskFor, if_pos hone, List.mapIdx_singleton, attend_single, List.mapIdx_singleton,
      List.take_of_length_le hkeys, List.take_of_length_le hvalues]
  · obtain ⟨hstart, -⟩ := hadmits.1.resolve_right hone
    have hpast := List.eq_nil_of_length_eq_zero hstart
    subst hpast
    have hcausal := attend_causal device
      (q := rows.mapIdx fun i row => layer.queryAt i row) (k := rows.mapIdx layer.keyAt)
      (v := rows.map layer.valueAt) (by rwa [List.length_mapIdx])
      (by rw [List.length_mapIdx, List.length_mapIdx]) (by rw [List.length_map, List.length_mapIdx])
    rw [List.length_mapIdx, List.mapIdx_mapIdx] at hcausal
    rw [maskFor, if_neg hone]
    simp only [List.length_nil, Nat.zero_add, List.nil_append]
    exact hcausal

variable (layer) in
theorem map_splitHeads_forward {n : ℕ}
    (matrix : QMatMul K config.embeddingLength (n * config.headDim)) :
    (matrix.forward (layer.attentionNorm.forward rows)).map splitHeads =
      rows.map fun row => splitHeads (matrix.forwardRow (layer.attentionNorm.forwardRow row)) := by
  rw [QMatMul.forward, RmsNorm.forward, List.map_map, List.map_map]
  rfl

/-- A call of attention, and the cache it leaves. -/
theorem forwardAttn_eq (device : Device) (hcaches : layer.Caches past)
    (hadmits : Admits past.length rows.length) :
    layer.forwardAttn device (layer.attentionNorm.forward rows) (maskFor rows.length) past.length =
      .ok (rows.mapIdx fun i row => layer.attention (past.length + i) row
          (((past ++ rows).mapIdx layer.keyAt).take (past.length + i + 1))
          (((past ++ rows).map layer.valueAt).take (past.length + i + 1)),
        { layer with
          kvCache := some ((past ++ rows).mapIdx layer.keyAt, (past ++ rows).map layer.valueAt) }) := by
  have hquery : layer.applyRotaryEmb
      ((layer.attentionWq.forward (layer.attentionNorm.forward rows)).map splitHeads) past.length =
      .ok (rows.mapIdx fun i row => layer.queryAt (past.length + i) row) := by
    rw [map_splitHeads_forward]
    exact layer.applyRotaryEmb_map rows _ hadmits.2
  have hkey : layer.applyRotaryEmb
      ((layer.attentionWk.forward (layer.attentionNorm.forward rows)).map splitHeads) past.length =
      .ok (rows.mapIdx fun i row => layer.keyAt (past.length + i) row) := by
    rw [map_splitHeads_forward]
    exact layer.applyRotaryEmb_map rows _ hadmits.2
  have hvalue : (layer.attentionWv.forward (layer.attentionNorm.forward rows)).map splitHeads =
      rows.map layer.valueAt :=
    layer.map_splitHeads_forward layer.attentionWv
  have houtput : ∀ f : ℕ → Row K config → Heads K config config.headCount,
      layer.attentionWo.forward ((rows.mapIdx f).map joinHeads) =
        rows.mapIdx fun i row => layer.attentionWo.forwardRow (joinHeads (f i row)) := by
    intro f
    rw [QMatMul.forward, map_mapIdx, map_mapIdx]
  simp only [forwardAttn, hquery, hkey, hvalue, bind, Except.bind, joinCache_eq hcaches,
    attend_call device hadmits, houtput]
  rfl

variable [LinearOrder K]

/-- The rows that one pass computes for positions behind others. -/
theorem newRows_causalPass (past rows : List (Row K config)) :
    newRows layer.causalPass past rows =
      rows.mapIdx fun i row => layer.feedForward (layer.attention (past.length + i) row
        (((past ++ rows).mapIdx layer.keyAt).take (past.length + i + 1))
        (((past ++ rows).map layer.valueAt).take (past.length + i + 1)) + row) := by
  have hkeys : ((past ++ rows).mapIdx fun i row => (layer.keyAt i row, layer.valueAt row)).map
      Prod.fst = (past ++ rows).mapIdx layer.keyAt := map_mapIdx _ _ _
  have hvalues : ((past ++ rows).mapIdx fun i row => (layer.keyAt i row, layer.valueAt row)).map
      Prod.snd = (past ++ rows).map layer.valueAt :=
    (map_mapIdx _ _ _).trans (mapIdx_const _ _)
  have hscan := newRows_scan (fun position row => (layer.keyAt position row, layer.valueAt row))
    (fun position row entries => layer.feedForward
      (layer.attention position row (entries.map Prod.fst) (entries.map Prod.snd) + row)) past rows
  simp only [List.map_take, hkeys, hvalues] at hscan
  exact hscan

/-- The second half of a block acts on each row. -/
theorem zipWith_mlpOrMoe_forward (x2 : List (Row K config)) :
    List.zipWith (· + ·) (layer.mlpOrMoe.forward (layer.ffnNorm.forward x2)) x2 =
      x2.map layer.feedForward := by
  rw [MlpOrMoe.forward_eq_map, RmsNorm.forward, List.map_map, List.zipWith_map_left,
    List.zipWith_self]
  rfl

/-- A call of a block computes the rows of one pass, and its cache grows by them. -/
theorem forward_eq (device : Device) (hcaches : layer.Caches past)
    (hadmits : Admits past.length rows.length) :
    ∃ next : LayerWeights K config,
      layer.forward device (maskFor rows.length) rows past.length =
        .ok (newRows layer.causalPass past rows, next) ∧
      next.causalPass = layer.causalPass ∧ next.Caches (past ++ rows) := by
  have hresidual : ∀ f : ℕ → Row K config → Row K config,
      List.zipWith (· + ·) (rows.mapIdx f) rows = rows.mapIdx fun i row => f i row + row := by
    intro f
    apply List.ext_getElem
    · rw [List.length_zipWith, List.length_mapIdx, List.length_mapIdx, min_self]
    · intro i _ _
      rw [List.getElem_zipWith, List.getElem_mapIdx, List.getElem_mapIdx]
  refine ⟨{ layer with
    kvCache := some ((past ++ rows).mapIdx layer.keyAt, (past ++ rows).map layer.valueAt) },
    ?_, rfl, fun _ => rfl⟩
  rw [newRows_causalPass]
  simp only [LayerWeights.forward, forwardAttn_eq device hcaches hadmits, bind, Except.bind,
    hresidual, zipWith_mlpOrMoe_forward, map_mapIdx]
  rfl

variable (K config) in
/-- The blocks of a stage, called with the mask of a call, compute one causal pass each. -/
theorem streams_forward (device : Device) (seqLen : ℕ) :
    Streams (fun fed count => count = seqLen ∧ Admits fed count)
      (fun layer : LayerWeights K config => layer.forward device (maskFor seqLen))
      (fun layer => layer.causalPass) Caches where
  causal := fun layer => layer.isCausal_causalPass
  call_eq := fun {layer past rows} hcaches hadmits => by
    obtain ⟨rfl, hadmits⟩ := hadmits
    exact forward_eq device hcaches hadmits

end LayerWeights

/-! ## Stages -/

variable [LinearOrder K]

namespace SplittableLlama

/-- The blocks of a stage hold what has been fed to the stage. -/
def Holds (model : SplittableLlama K config) (past : List (Row K config)) : Prop :=
  HoldsAll (fun layer => layer.causalPass) LayerWeights.Caches model.blocks past

/-- The blocks are called with the mask of the call, computed now or before. -/
theorem exists_forwardBlocks_eq (model : SplittableLlama K config) (x : List (Row K config))
    (indexPos : ℕ) :
    ∃ masks, model.forwardBlocks x indexPos =
      (pipe (fun layer => layer.forward model.device (maskFor x.length)) model.blocks x indexPos).map
        fun result => (result.1, { model with blocks := result.2, masks := masks }) := by
  by_cases hone : x.length = 1
  · refine ⟨model.masks, ?_⟩
    simp only [forwardBlocks, maskFor, if_pos hone]
    rfl
  · refine ⟨(model.masks.mask x.length).2, ?_⟩
    simp only [forwardBlocks, maskFor, if_neg hone, Masks.fst_mask]
    rfl

/-- A stage computes one causal pass over its blocks. -/
theorem streams_forwardBlocks :
    Streams Admits (forwardBlocks : SplittableLlama K config → _)
      (fun model => causalPass model.blocks) Holds where
  causal := fun model => isCausal_denoteAll (fun layer => layer.isCausal_causalPass) model.blocks
  call_eq := fun {model past rows} hholds hadmits => by
    have hstage := LayerWeights.streams_forward K config model.device rows.length
    obtain ⟨blocks, hpipe, hpass, hblocks⟩ := hstage.pipe.call_eq hholds ⟨rfl, hadmits⟩
    obtain ⟨masks, hforward⟩ := model.exists_forwardBlocks_eq rows past.length
    rw [hpipe] at hforward
    exact ⟨_, hforward, hpass, hblocks⟩

/-- A pipeline computes one causal pass over the blocks of its stages. -/
theorem streams_forwardStages :
    Streams Admits (forwardStages : List (SplittableLlama K config) → _)
      (denoteAll fun model => causalPass model.blocks)
      (HoldsAll (fun model => causalPass model.blocks) Holds) :=
  streams_forwardBlocks.pipe

/-- One pass does not read the caches. -/
theorem causalPass_clearKvCache (model : SplittableLlama K config) :
    causalPass model.clearKvCache.blocks = causalPass model.blocks := by
  rw [clearKvCache]
  induction model.blocks with
  | nil => rfl
  | cons block blocks ih =>
      funext rows
      exact congrFun ih (block.causalPass rows)

/-- One pass over the stages is one pass over all their blocks. -/
theorem denoteAll_causalPass (stages : List (SplittableLlama K config)) :
    denoteAll (fun model : SplittableLlama K config => causalPass model.blocks) stages =
      causalPass (stages.flatMap fun model => model.clearKvCache.blocks) := by
  induction stages with
  | nil => rfl
  | cons stage stages ih =>
      funext rows
      rw [denoteAll, ih, List.flatMap_cons, ← stage.causalPass_clearKvCache]
      exact (denoteAll_append _ _ rows).symm

/-- Before anything is fed a stage may hold anything. -/
theorem holds_nil (model : SplittableLlama K config) : model.Holds [] :=
  holdsAll_nil (fun layer => layer.isCausal_causalPass) (fun _ hne => absurd rfl hne) model.blocks

end SplittableLlama

/-! ## Generations -/

theorem admitsAll_tokens {α : Type*} {fed : ℕ} {tokens : List α}
    (hlength : fed + tokens.length ≤ maxSeqLen) :
    AdmitsAll Admits fed (tokens.map fun token => [token]) := by
  induction tokens generalizing fed with
  | nil => trivial
  | cons token tokens ih =>
      rw [List.length_cons] at hlength
      have hone : fed + [token].length ≤ maxSeqLen := by
        rw [List.length_singleton]
        omega
      have hrest : fed + [token].length + tokens.length ≤ maxSeqLen := by
        rw [List.length_singleton]
        omega
      exact ⟨⟨Or.inr rfl, hone⟩, ih hrest⟩

open SplittableLlama in
/-- Split and cached forward passes are one pass: the stages of a pipeline, fed a prompt and
then single tokens, return for each position the row that the model with all blocks computes
for it in one call on the whole sequence, and this is the row of a causal pass. -/
theorem split_forward_eq_full_forward (full : SplittableLlama K config)
    (stages : List (SplittableLlama K config))
    (hpartition : (stages.flatMap fun stage => stage.clearKvCache.blocks) = full.clearKvCache.blocks)
    {prompt tokens : List (Row K config)} (hprompt : prompt ≠ [])
    (hlength : prompt.length + tokens.length ≤ maxSeqLen) :
    ∃ (rows : List (Row K config)) (full' : SplittableLlama K config)
      (stages' : List (SplittableLlama K config)),
      rows = causalPass full.blocks (prompt ++ tokens) ∧
      full.forwardBlocks (prompt ++ tokens) 0 = .ok (rows, full') ∧
      feed forwardStages stages 0 (prompt :: tokens.map fun token => [token]) =
        .ok (rows.take prompt.length :: (rows.drop prompt.length).map fun row => [row], stages') := by
  have hcausal : IsCausal (causalPass full.blocks) := streams_forwardBlocks.causal full
  have hpass : denoteAll (fun model : SplittableLlama K config => causalPass model.blocks) stages =
      causalPass full.blocks := by
    rw [denoteAll_causalPass, hpartition, causalPass_clearKvCache]
  have hne : prompt.length ≠ 0 := fun hzero => hprompt (List.eq_nil_of_length_eq_zero hzero)
  have hadmits : AdmitsAll Admits 0 (prompt :: tokens.map fun token => [token]) := by
    have hfits : 0 + prompt.length ≤ maxSeqLen := by omega
    refine ⟨⟨Or.inl ⟨rfl, hne⟩, hfits⟩, admitsAll_tokens ?_⟩
    rwa [Nat.zero_add]
  have hfullAdmits : Admits 0 (prompt ++ tokens).length := by
    rw [List.length_append]
    exact ⟨Or.inl ⟨rfl, by omega⟩, by omega⟩
  obtain ⟨full', hfull, -⟩ := streams_forwardBlocks.call_eq full.holds_nil hfullAdmits
  obtain ⟨stages', hfeed, -⟩ := streams_forwardStages.feed
    (holdsAll_nil streams_forwardBlocks.causal holds_nil stages) hadmits
  refine ⟨_, full', stages', rfl, hfull, ?_⟩
  rw [List.length_nil, hpass, outputs, newRows_nil, List.nil_append, hcausal.outputs_singletons]
    at hfeed
  rw [hcausal.append, List.take_left' (hcausal.length_eq prompt), ← hcausal.append]
  exact hfeed

/-- Exact arithmetic is that of the real numbers. -/
noncomputable instance : ElementaryFunctions ℝ where
  exp := Real.exp
  sqrt := Real.sqrt

/-- Two heads that share a cached one. -/
def pairConfig : LlamaConfig where
  headCount := 2
  headCountKv := 1
  embeddingLength := 4
  ropeDim := 2
  heads_fill := rfl
  groups_fill := rfl
  pairs_fill := rfl

/-- A block with two experts, one for each row. -/
noncomputable def pairBlock
    (kvCache : Option (List (Heads ℝ pairConfig 1) × List (Heads ℝ pairConfig 1))) :
    LayerWeights ℝ pairConfig where
  attentionWq := ⟨fun o i => if o.val = i.val then 1 else 0⟩
  attentionWk := ⟨fun o i => if o.val = i.val then 1 else 0⟩
  attentionWv := ⟨fun o i => if o.val = i.val then 2 else 0⟩
  attentionWo := ⟨fun o i => if o.val = i.val then 1 else 0⟩
  attentionNorm := ⟨fun _ => 1, 1⟩
  mlpOrMoe := .moe 2 1 ⟨fun o i => if o.val = i.val then 1 else 0⟩
    fun e => ⟨1, ⟨fun _ _ => e.val⟩, ⟨fun _ _ => 1⟩, ⟨fun _ _ => 1⟩⟩
  ffnNorm := ⟨fun _ => 1, 1⟩
  cos := fun position _ => Real.cos position
  sin := fun position _ => Real.sin position
  kvCache := kvCache

/-- A part of the model with two such blocks. -/
def pairModel (device : Device) (blocks : List (LayerWeights ℝ pairConfig)) :
    SplittableLlama ℝ pairConfig where
  device := device
  blocks := blocks
  vocabSize := 0
  finalNorm := none
  outputProj := none
  masks := ⟨[], nofun⟩

/-- A prompt of two rows and a token pass through two stages, the first of which has a cache
from an earlier generation. -/
theorem split_forward_eq_full_forward_two_stages :
    ∃ (rows : List (Row ℝ pairConfig)) (full' : SplittableLlama ℝ pairConfig)
      (stages' : List (SplittableLlama ℝ pairConfig)),
      rows = causalPass [pairBlock none, pairBlock none] ([fun _ => 1, fun _ => 2] ++ [fun _ => 3]) ∧
      (pairModel .cpu [pairBlock none, pairBlock none]).forwardBlocks
        ([fun _ => 1, fun _ => 2] ++ [fun _ => 3]) 0 = .ok (rows, full') ∧
      feed SplittableLlama.forwardStages
          [pairModel .metal [pairBlock (some ([fun _ _ => 7], [fun _ _ => 7]))],
            pairModel .cpu [pairBlock none]]
          0 ([fun _ => 1, fun _ => 2] :: [fun _ => 3].map fun token => [token]) =
        .ok (rows.take 2 :: (rows.drop 2).map fun row => [row], stages') :=
  split_forward_eq_full_forward (pairModel .cpu [pairBlock none, pairBlock none])
    [pairModel .metal [pairBlock (some ([fun _ _ => 7], [fun _ _ => 7]))],
      pairModel .cpu [pairBlock none]]
    rfl (List.cons_ne_nil _ _) (by decide)

/-! ## Logits -/

omit [LinearOrder K] in
/-- The logits of a call are those of the whole sequence so far. -/
theorem SplittableLlama.projectToLogits_append (model : SplittableLlama K config)
    (past : List (Row K config)) {rows : List (Row K config)} (hrows : rows ≠ []) :
    model.projectToLogits (past ++ rows) = model.projectToLogits rows := by
  have hlast : ∀ norm : RmsNorm K config.embeddingLength,
      (norm.forward (past ++ rows)).getLast? = (norm.forward rows).getLast? := by
    intro norm
    rw [RmsNorm.forward, RmsNorm.forward, List.map_append]
    exact List.getLast?_append_of_ne_nil _ (by simpa using hrows)
  simp only [projectToLogits, hlast]

end HiveBear.Inference
