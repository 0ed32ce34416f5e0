/-
# The forward pass of a pipeline stage

A stage of a splittable model holds some consecutive transformer blocks. Each block
attends with rotary embeddings of the absolute positions and keeps the keys and values of
the positions fed so far; a call at position zero discards what an earlier generation left.
A prompt is masked causally, a single token is not masked.

The tensor operations mean what they say: shapes fit, norms and projections act on each
row, and the softmax gives masked scores no weight. Activations have one batch, as every
caller builds them. What is left to fail are the rotary tables, which end at a maximal
length, and a mask that does not fit the cached keys.
-/

import HiveBear.Inference.CandlePipeline.FeedForward
import HiveBear.Library.CausalStream
import HiveBear.Library.MaskedSoftmax
import Mathlib.Algebra.Module.Pi
import Mathlib.Tactic.Ring

namespace HiveBear.Inference

open ElementaryFunctions MaskedSoftmax

def maxSeqLen : ℕ := 4096

inductive Device
  | cpu
  | cuda
  | metal
  deriving DecidableEq

/-- Errors of the forward pass. -/
inductive CandleError
  | msg (text : String)
  /-- The rotary tables end before the last position. -/
  | narrow (start count : ℕ)
  /-- A mask does not fit the scores. -/
  | broadcast (maskLen seqLen keyLen : ℕ)
  /-- The last row of nothing. -/
  | emptyInput

/-- Dimensions of a model. The three conditions are what the forward pass asks of them when
it splits rows into heads, repeats the cached heads and rotates pairs. -/
structure LlamaConfig where
  headCount : ℕ
  headCountKv : ℕ
  embeddingLength : ℕ
  ropeDim : ℕ
  heads_fill : headCount * (embeddingLength / headCount) = embeddingLength
  groups_fill : headCountKv * (headCount / headCountKv) = headCount
  pairs_fill : (ropeDim + 1) / 2 * 2 = embeddingLength / headCount

namespace LlamaConfig

variable (config : LlamaConfig)

def headDim : ℕ := config.embeddingLength / config.headCount

/-- Number of heads that share one cached head. -/
def nRep : ℕ := config.headCount / config.headCountKv

/-- The cached head that a head reads. -/
def kvHead (head : Fin config.headCount) : Fin config.headCountKv :=
  ⟨head / config.nRep, Nat.div_lt_of_lt_mul (by
    rw [nRep, Nat.mul_comm, config.groups_fill]
    exact head.isLt)⟩

end LlamaConfig

variable (K : Type*) (config : LlamaConfig)

/-- An activation row. -/
abbrev Row : Type _ := Fin config.embeddingLength → K

/-- One position of a tensor with heads. -/
abbrev Heads (n : ℕ) : Type _ := Fin n → Fin config.headDim → K

/-- A causal mask, one row for each position. -/
abbrev Mask : Type := List (List Bool)

/-- Norm by the root mean square. -/
structure RmsNorm (K : Type*) (n : ℕ) where
  weight : Fin n → K
  eps : K

/-- The weights of one transformer block and its cache. -/
structure LayerWeights where
  attentionWq : QMatMul K config.embeddingLength (config.headCount * config.headDim)
  attentionWk : QMatMul K config.embeddingLength (config.headCountKv * config.headDim)
  attentionWv : QMatMul K config.embeddingLength (config.headCountKv * config.headDim)
  attentionWo : QMatMul K config.embeddingLength config.embeddingLength
  attentionNorm : RmsNorm K config.embeddingLength
  mlpOrMoe : MlpOrMoe K config.embeddingLength
  ffnNorm : RmsNorm K config.embeddingLength
  cos : Fin maxSeqLen → Fin ((config.ropeDim + 1) / 2) → K
  sin : Fin maxSeqLen → Fin ((config.ropeDim + 1) / 2) → K
  kvCache :
    Option (List (Heads K config config.headCountKv) × List (Heads K config config.headCountKv))

variable {K} {config} [Field K]

/-! ## Rows -/

namespace RmsNorm

variable [ElementaryFunctions K] {n : ℕ} (norm : RmsNorm K n)

def forwardRow (x : Fin n → K) : Fin n → K :=
  let meanSquare := (∑ i, x i * x i) / n
  fun i => x i / sqrt (meanSquare + norm.eps) * norm.weight i

def forward (xs : List (Fin n → K)) : List (Fin n → K) :=
  xs.map norm.forwardRow

end RmsNorm

/-- A projected row as heads. -/
def splitHeads {n : ℕ} (row : Fin (n * config.headDim) → K) : Heads K config n :=
  fun head i => row (finProdFinEquiv (head, i))

/-- The heads of a position as one row. -/
def joinHeads (heads : Heads K config config.headCount) : Row K config :=
  fun i =>
    let entry := finProdFinEquiv.symm (Fin.cast config.heads_fill.symm i)
    heads entry.1 entry.2

/-! ## Rotary embeddings -/

theorem narrow_lt {len start count : ℕ} (hfits : start + count ≤ len) (i : Fin count) :
    start + i < len :=
  (Nat.add_lt_add_left i.isLt start).trans_le hfits

/-- Rows of a table from a start on. -/
def narrow {α : Type*} {len : ℕ} (table : Fin len → α) (start count : ℕ) :
    Except CandleError (List α) :=
  if hfits : start + count ≤ len then
    pure (List.ofFn fun i : Fin count => table ⟨start + i, narrow_lt hfits i⟩)
  else
    throw (.narrow start count)

/-- Rotate the pairs of a head, neighbours being a pair. -/
def ropeHead (cos sin : Fin ((config.ropeDim + 1) / 2) → K) (x : Fin config.headDim → K) :
    Fin config.headDim → K :=
  fun i =>
    let entry := finProdFinEquiv.symm (Fin.cast config.pairs_fill.symm i)
    let x0 := x (Fin.cast config.pairs_fill (finProdFinEquiv (entry.1, 0)))
    let x1 := x (Fin.cast config.pairs_fill (finProdFinEquiv (entry.1, 1)))
    if entry.2 = 0 then x0 * cos entry.1 - x1 * sin entry.1 else x0 * sin entry.1 + x1 * cos entry.1

/-- Rotate every position by its row of the tables. -/
def ropeI {n : ℕ} (x : List (Heads K config n))
    (cos sin : List (Fin ((config.ropeDim + 1) / 2) → K)) : List (Heads K config n) :=
  List.zipWith (fun row angle head => ropeHead angle.1 angle.2 (row head)) x (cos.zip sin)

def LayerWeights.applyRotaryEmb {n : ℕ} (layer : LayerWeights K config)
    (x : List (Heads K config n)) (indexPos : ℕ) : Except CandleError (List (Heads K config n)) := do
  let cos ← narrow layer.cos indexPos x.length
  let sin ← narrow layer.sin indexPos x.length
  pure (ropeI x cos sin)

/-! ## Attention -/

/-- Row number `pos` of a head is among the rows of all heads. -/
theorem rowNumber_lt {n nRep seqLen head pos : ℕ} (hhead : head < n * nRep) (hpos : pos < seqLen) :
    head * seqLen + pos < nRep * seqLen * n := by
  calc
    head * seqLen + pos < head * seqLen + seqLen := by omega
    _ = (head + 1) * seqLen := by ring
    _ ≤ n * nRep * seqLen := Nat.mul_le_mul_right _ hhead
    _ = nRep * seqLen * n := by ring

/-- Repeat the cached heads. The copies are laid out behind each other along the sequence
and the result is read back, in the same order, as a tensor with more heads: row `pos` of
`head` is row number `head * seqLen + pos` of all. -/
def repeatKv {n d : ℕ} (xs : List (Fin n → Fin d → K)) (nRep : ℕ) :
    List (Fin (n * nRep) → Fin d → K) :=
  if hone : nRep = 1 then
    xs.map fun row head => row (Fin.cast (by rw [hone, Nat.mul_one]) head)
  else
    let seqLen := xs.length
    let cat := (List.replicate nRep xs).flatten
    List.ofFn fun (pos : Fin seqLen) head =>
      let number := head * seqLen + pos
      let row := cat.getD (number % (nRep * seqLen)) 0
      row ⟨number / (nRep * seqLen), Nat.div_lt_of_lt_mul (rowNumber_lt head.isLt pos.isLt)⟩

/-- Masked scores become −∞. A mask is square and never has exactly one row, so that it is
not stretched: it has to fit the scores of all positions for all keys. -/
def maskedFill {n : ℕ} (scores : List (Fin n → List (WithBot K))) (mask : Option Mask)
    (keyLen : ℕ) : Except CandleError (List (Fin n → List (WithBot K))) :=
  match mask with
  | none => pure scores
  | some mask =>
      if mask.length = scores.length ∧ mask.length = keyLen then
        pure (List.zipWith (fun row onFalse head => fill row (onFalse head)) mask scores)
      else
        throw (.broadcast mask.length scores.length keyLen)

variable [ElementaryFunctions K]

/-- Attention without a mask, as the fused operation computes it. -/
def sdpa (q : List (Heads K config config.headCount))
    (k v : List (Heads K config config.headCountKv)) (scale : K) :
    List (Heads K config config.headCount) :=
  q.map fun query head =>
    let scores : List (WithBot K) := k.map fun key =>
      ((scale * ∑ i, query head i * key (config.kvHead head) i : K) : WithBot K)
    combine (softmax exp scores) (v.map fun value => value (config.kvHead head))

/-- Attention of some positions to all keys. -/
def attend (device : Device) (q : List (Heads K config config.headCount))
    (k v : List (Heads K config config.headCountKv)) (mask : Option Mask) :
    Except CandleError (List (Heads K config config.headCount)) := do
  let scale := sqrt (config.headDim : K)
  if device = .metal ∧ q.length = 1 then
    pure (sdpa q k v (1 / scale))
  else
    let k := repeatKv k config.nRep
    let v := repeatKv v config.nRep
    let att : List (Fin config.headCount → List (WithBot K)) := q.map fun query head => k.map
      fun key => (((∑ i, query head i * key (Fin.cast config.groups_fill.symm head) i) / scale : K) :
        WithBot K)
    let att ← maskedFill att mask k.length
    let att := att.map fun scores head => softmax exp (scores head)
    pure (att.map fun weights head =>
      combine (weights head) (v.map fun value => value (Fin.cast config.groups_fill.symm head)))

/-- The keys and values a block attends to: those of earlier positions, if there are any,
and those of the new ones. -/
def joinCache {α : Type*} (kvCache : Option (List α × List α)) (indexPos : ℕ) (k v : List α) :
    List α × List α :=
  match kvCache with
  | none => (k, v)
  | some (kCache, vCache) =>
      if indexPos = 0 then
        (k, v)
      else
        (kCache ++ k, vCache ++ v)

def LayerWeights.forwardAttn (layer : LayerWeights K config) (device : Device)
    (x : List (Row K config)) (mask : Option Mask) (indexPos : ℕ) :
    Except CandleError (List (Row K config) × LayerWeights K config) := do
  let q := (layer.attentionWq.forward x).map splitHeads
  let k := (layer.attentionWk.forward x).map splitHeads
  let v := (layer.attentionWv.forward x).map splitHeads
  let q ← layer.applyRotaryEmb q indexPos
  let k ← layer.applyRotaryEmb k indexPos
  let (k, v) := joinCache layer.kvCache indexPos k v
  let layer := { layer with kvCache := some (k, v) }
  let y ← attend device q k v mask
  pure (layer.attentionWo.forward (y.map joinHeads), layer)

/-! ## Blocks -/

/-- The mask that hides later positions. -/
def causalMask (t : ℕ) : Mask :=
  (List.range t).map fun i => (List.range t).map fun j => decide (j > i)

/-- Masks computed so far, by length. -/
structure Masks where
  entries : List (ℕ × Mask)
  valid : ∀ entry ∈ entries, entry.2 = causalMask entry.1

/-- Compute a mask or take it from those computed so far. -/
def Masks.mask (masks : Masks) (t : ℕ) : Mask × Masks :=
  match masks.entries.lookup t with
  | some mask => (mask, masks)
  | none =>
      (causalMask t,
        { entries := (t, causalMask t) :: masks.entries
          valid := List.forall_mem_cons.mpr ⟨rfl, masks.valid⟩ })

variable [LinearOrder K]

/-- One round of the loop over the blocks. -/
def LayerWeights.forward (layer : LayerWeights K config) (device : Device) (mask : Option Mask)
    (x : List (Row K config)) (indexPos : ℕ) :
    Except CandleError (List (Row K config) × LayerWeights K config) := do
  let residual := x
  let normed := layer.attentionNorm.forward x
  let (attn, layer) ← layer.forwardAttn device normed mask indexPos
  let x2 := List.zipWith (· + ·) attn residual
  let residual := x2
  let normed := layer.ffnNorm.forward x2
  let mlpOut := layer.mlpOrMoe.forward normed
  pure (List.zipWith (· + ·) mlpOut residual, layer)

/-- A model that holds some consecutive blocks. -/
structure SplittableLlama (K : Type*) (config : LlamaConfig) where
  device : Device
  blocks : List (LayerWeights K config)
  vocabSize : ℕ
  finalNorm : Option (RmsNorm K config.embeddingLength)
  outputProj : Option (QMatMul K config.embeddingLength vocabSize)
  masks : Masks

namespace SplittableLlama

def forwardBlocks (model : SplittableLlama K config) (x : List (Row K config)) (indexPos : ℕ) :
    Except CandleError (List (Row K config) × SplittableLlama K config) := do
  let seqLen := x.length
  let (mask, masks) :=
    if seqLen = 1 then
      (none, model.masks)
    else
      let (mask, masks) := model.masks.mask seqLen
      (some mask, masks)
  let (x, blocks) ←
    CausalStream.pipe (fun layer => layer.forward model.device mask) model.blocks x indexPos
  pure (x, { model with blocks := blocks, masks := masks })

/-- Logits for the last position. -/
def projectToLogits (model : SplittableLlama K config) (x : List (Row K config)) :
    Except CandleError (Fin model.vocabSize → K) := do
  let norm ← model.finalNorm.elim
    (throw (.msg "project_to_logits() called on non-last pipeline stage")) pure
  let output ← model.outputProj.elim (throw (.msg "no output projection loaded")) pure
  let x := norm.forward x
  match x.getLast? with
  | none => throw .emptyInput
  | some last => pure (output.forwardRow last)

/-- Forget what was fed so far. -/
def clearKvCache (model : SplittableLlama K config) : SplittableLlama K config :=
  { model with blocks := model.blocks.map fun block => { block with kvCache := none } }

/-- The stages of a pipeline forward an activation one after the other. -/
def forwardStages (stages : List (SplittableLlama K config)) (x : List (Row K config))
    (indexPos : ℕ) :
    Except CandleError (List (Row K config) × List (SplittableLlama K config)) :=
  CausalStream.pipe forwardBlocks stages x indexPos

end SplittableLlama

end HiveBear.Inference
