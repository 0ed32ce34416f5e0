/-
# Recommending models

Of each model the machine gets the quantization with the highest score among those that fit its
memory and are fast enough, and of these entries the best ones are kept. How much memory a model
takes and how fast it is are estimates, which the recommendation takes as they are: what it promises
holds for any estimates.

A score weighs the quality of a model against its speed. The platform sets limits of its own: a
phone gives less of its memory, and runs fewer and smaller models.
-/

import HiveBear.Inference.Offload
import HiveBear.Library.Selection
import HiveBear.Library.StableSort

namespace HiveBear.Recommender

open Inference.Offload Mesh.Discovery Selection StableSort

variable {F : Type} [FloatOps F]

/-! ## Models -/

/-- What is known of a model. -/
structure ModelEntry (F : Type) where
  id : String
  name : String
  paramsBillions : F
  qualityScore : F
  candleCompatible : Bool

/-- A model recommendation for the user's hardware. -/
structure ModelRecommendation (F : Type) where
  modelId : String
  modelName : String
  quantization : Quantization
  engine : InferenceEngine
  estimatedTokensPerSec : F
  estimatedMemoryUsageBytes : ℕ
  confidence : F
  warnings : List String
  score : F
  communityTokensPerSec : Option F
  communitySampleCount : Option UInt32

/-- Bits per weight. -/
def bitsPerWeight : Quantization → ℚ
  | .q2K => 25 / 10
  | .q3KS | .q3KM | .q3KL => 34375 / 10000
  | .q4_0 => 4
  | .q4_1 | .q4KS | .q4KM => 45 / 10
  | .q5_0 => 5
  | .q5_1 | .q5KS | .q5KM => 55 / 10
  | .q6K => 65 / 10
  | .q8_0 => 8
  | .f16 => 16
  | .f32 => 32

/-- Estimated quality retention relative to FP16. -/
def qualityRetention : Quantization → ℚ
  | .q2K => 70 / 100
  | .q3KS => 78 / 100
  | .q3KM => 82 / 100
  | .q3KL => 84 / 100
  | .q4_0 => 87 / 100
  | .q4_1 => 88 / 100
  | .q4KS => 89 / 100
  | .q4KM => 92 / 100
  | .q5_0 => 93 / 100
  | .q5_1 | .q5KS => 94 / 100
  | .q5KM => 95 / 100
  | .q6K => 97 / 100
  | .q8_0 => 99 / 100
  | .f16 | .f32 => 1

/-- The quantizations that are considered, in order. -/
def quantLevels : List Quantization :=
  [.q4KM, .q4KS, .q5KM, .q5KS, .q6K, .q8_0, .q3KM, .q3KL, .q2K]

/-! ## The platform -/

/-- The smaller of a float and a bound, which is the bound for NaN. -/
def atMost (bound : ℚ) (x : F) : F :=
  if FloatOps.le x (FloatOps.literal bound) then x else FloatOps.literal bound

def isMobile (platform : PlatformInfo) : Bool :=
  platform.isMobile || decide (platform.os = "android") || decide (platform.os = "ios")

/-- The largest finite float. -/
def maxFloat : ℚ := (2 ^ 53 - 1) * 2 ^ 971

/-- How many billions of parameters a model may have on the platform. -/
def maxParamsForPlatform (profile : HardwareProfile F) : F :=
  if profile.platform.os = "browser" ∨ profile.platform.arch = "wasm32" then FloatOps.literal 8
  else if isMobile profile.platform then
    if profile.memory.availableBytes.toNat ≤ 4 * 1024 * 1024 * 1024 then FloatOps.literal (15 / 10)
    else FloatOps.literal (35 / 10)
  else if profile.platform.arch = "aarch64" ∧
      profile.memory.totalBytes.toNat ≤ 9 * 1024 * 1024 * 1024 then FloatOps.literal 7
  else FloatOps.literal maxFloat

/-- A phone gives no more than 40% of its memory. -/
def memoryFractionForPlatform (profile : HardwareProfile F) (requested : F) : F :=
  if isMobile profile.platform then atMost (40 / 100) requested else requested

/-- The part of the available memory that models may use. -/
def ramBudget (profile : HardwareProfile F) (maxFraction : F) : ℕ :=
  FloatOps.truncU64 (FloatOps.ofNat profile.memory.availableBytes.toNat * maxFraction)

/-- Total usable memory, added in 64 bits. -/
def calculateEffectiveMemory (profile : HardwareProfile F) (maxFraction : F) : ℕ :=
  (ramBudget profile maxFraction + totalVram profile) % 2 ^ 64

/-- The memory bandwidth of known graphics processors. The first part of a name that is found
counts. -/
def gpuBandwidths : List (String × ℚ) :=
  [("4090", 1008), ("4080", 717), ("4070", 504), ("4060", 288), ("3090", 936), ("3080", 760),
    ("3070", 448), ("3060", 360), ("7900 xtx", 960), ("7900 xt", 800), ("7800 xt", 624),
    ("apple", 200)]

def estimateGpuBandwidth (gpu : GpuInfo) : F :=
  let name := gpu.name.toLower.toList
  FloatOps.literal (((gpuBandwidths.find? fun known =>
    decide (known.1.toList.IsInfix name)).map Prod.snd).getD 100)

/-- The bandwidth that estimates go by. -/
def effectiveBandwidth (profile : HardwareProfile F) : F :=
  let ramBw := profile.memory.estimatedBandwidthGbps
  match profile.gpus with
  | [] => ramBw
  | gpu :: _ =>
      let gpuBwEstimate := estimateGpuBandwidth gpu
      if FloatOps.lt ramBw gpuBwEstimate then
        -- 60% GPU, 40% CPU for typical offloading
        gpuBwEstimate * FloatOps.literal (6 / 10) + ramBw * FloatOps.literal (4 / 10)
      else ramBw

/-- Every machine gets llama.cpp, but Apple's own. -/
def selectEngine (profile : HardwareProfile F) : InferenceEngine :=
  if profile.platform.os = "macos" ∧ profile.platform.arch = "aarch64" then .mlx
  else if profile.gpus.any fun gpu => decide (gpu.computeApi = .cuda) then .llamaCpp
  else if ¬ profile.gpus.isEmpty then .llamaCpp
  else .llamaCpp

/-! ## Estimates -/

/-- What a model takes of memory for a context of some length, and how many tokens it generates
each second at some bandwidth. -/
structure Estimates (F : Type) where
  memory : ModelEntry F → Quantization → UInt32 → ℕ
  tokensPerSec : ModelEntry F → Quantization → F → F

/-- The weights, the keys and values of the context, and a tenth for the rest. -/
def estimateMemory (model : ModelEntry F) (quant : Quantization) (contextLength : UInt32) : ℕ :=
  let params : F := model.paramsBillions * FloatOps.literal 1000000000
  let bits : F := FloatOps.literal (bitsPerWeight quant)
  let weightBytes := FloatOps.truncU64 (params * bits / FloatOps.literal 8)
  let kvCacheBytes := FloatOps.truncU64
    (params * FloatOps.literal (125 / 1000) * FloatOps.ofNat contextLength.toNat /
      FloatOps.literal 1000)
  let overhead := (weightBytes + kvCacheBytes) % 2 ^ 64 / 10
  (weightBytes + kvCacheBytes + overhead) % 2 ^ 64

/-- For each token all weights are read. -/
def estimateTokensPerSec (model : ModelEntry F) (quant : Quantization) (bandwidthGbps : F) : F :=
  let params := model.paramsBillions * FloatOps.literal 1000000000
  let bits := FloatOps.literal (bitsPerWeight quant)
  let bytesPerToken := params * bits / FloatOps.literal 8
  let bandwidthBytesPerSec := bandwidthGbps * FloatOps.literal 1000000000
  if FloatOps.lt (FloatOps.literal 0) bytesPerToken then bandwidthBytesPerSec / bytesPerToken
  else FloatOps.literal 0

/-- The estimates of the program. -/
def heuristics : Estimates F := ⟨estimateMemory, estimateTokensPerSec⟩

/-- How much an estimate is to be relied on. -/
def calculateConfidence (model : ModelEntry F) (profile : HardwareProfile F) : F :=
  let wellKnown := [1, 3, 7, 8, 13, 14, 32, 70].any fun size =>
    decide (FloatOps.partialCmp model.paramsBillions (FloatOps.literal size) = some .eq)
  let confidence : F := FloatOps.literal (7 / 10)
  let confidence := if wellKnown then confidence + FloatOps.literal (1 / 10) else confidence
  let confidence :=
    if FloatOps.lt (FloatOps.literal 0) profile.memory.estimatedBandwidthGbps then
      confidence + FloatOps.literal (1 / 10)
    else confidence
  let confidence :=
    if FloatOps.lt (FloatOps.literal 30) model.paramsBillions then
      confidence + FloatOps.literal (-1 / 10)
    else confidence
  if FloatOps.lt confidence (FloatOps.literal (1 / 10)) then FloatOps.literal (1 / 10)
  else if FloatOps.lt (FloatOps.literal (95 / 100)) confidence then FloatOps.literal (95 / 100)
  else confidence

/-! ## The recommendation -/

section

variable (estimates : Estimates F) (showTenths : F → String) (profile : HardwareProfile F)
  (maxMemoryFraction minTokS : F)

/-- The memory that a model has to fit. -/
def effectiveMemory : ℕ :=
  calculateEffectiveMemory profile (memoryFractionForPlatform profile maxMemoryFraction)

/-- The speed of a model on the machine. -/
def speed (model : ModelEntry F) (quant : Quantization) : F :=
  estimates.tokensPerSec model quant (effectiveBandwidth profile)

/-- Quality counts for 60%, and speed up to 100 tokens each second for 40%. -/
def modelScore (model : ModelEntry F) (quant : Quantization) : F :=
  let quality := model.qualityScore * FloatOps.literal (qualityRetention quant)
  let speedNormalized := atMost 1 (speed estimates profile model quant / FloatOps.literal 100)
  quality * FloatOps.literal (6 / 10) + speedNormalized * FloatOps.literal (4 / 10)

/-- What the user is warned of. -/
def modelWarnings (model : ModelEntry F) (quant : Quantization) : List String :=
  let aggressive :=
    if bitsPerWeight quant < 4 then
      ["Using aggressive " ++ quant.display ++ " quantization — expect some quality loss"]
    else []
  let split :=
    if ramBudget profile (memoryFractionForPlatform profile maxMemoryFraction) <
        estimates.memory model quant 4096 ∧ ¬ profile.gpus.isEmpty then
      ["Will split layers between CPU and GPU"]
    else []
  let slow :=
    if FloatOps.lt (speed estimates profile model quant) (FloatOps.literal 10) then
      ["Estimated " ++ showTenths (speed estimates profile model quant) ++
        " tok/s — may feel slow for interactive use"]
    else []
  aggressive ++ split ++ slow

/-- The recommendation of a model at some quantization. -/
def entryOf (model : ModelEntry F) (quant : Quantization) : ModelRecommendation F where
  modelId := model.id
  modelName := model.name
  quantization := quant
  engine := selectEngine profile
  estimatedTokensPerSec := speed estimates profile model quant
  estimatedMemoryUsageBytes := estimates.memory model quant 4096
  confidence := calculateConfidence model profile
  warnings := modelWarnings estimates showTenths profile maxMemoryFraction model quant
  score := modelScore estimates profile model quant
  communityTokensPerSec := none
  communitySampleCount := none

/-- A quantization is passed over if it does not fit the memory or is too slow. -/
def considerQuant (model : ModelEntry F) (quant : Quantization) :
    Option (ModelRecommendation F) :=
  if effectiveMemory profile maxMemoryFraction < estimates.memory model quant 4096 then none
  else if FloatOps.lt (speed estimates profile model quant) minTokS then none
  else some (entryOf estimates showTenths profile maxMemoryFraction model quant)

/-- The better of the best recommendation so far and the next one. -/
def keepBest (best : Option (ModelRecommendation F)) (rec : ModelRecommendation F) :
    Option (ModelRecommendation F) :=
  match best with
  | some existing => if FloatOps.le rec.score existing.score then best else some rec
  | none => some rec

/-- The best quantization of a model, if the platform runs the model and any qualifies. -/
def bestForModel (model : ModelEntry F) : Option (ModelRecommendation F) :=
  if isMobile profile.platform ∧ ¬ model.candleCompatible then none
  else if FloatOps.lt (maxParamsForPlatform profile) model.paramsBillions then none
  else
    quantLevels.foldl (fun best quant =>
      match considerQuant estimates showTenths profile maxMemoryFraction minTokS model quant with
      | some rec => keepBest best rec
      | none => best) none

/-- Highest score first. -/
def compareScores (a b : ModelRecommendation F) : Ordering :=
  (FloatOps.partialCmp b.score a.score).getD .eq

/-- The models with the highest scores. -/
def recommend (models : List (ModelEntry F)) (topN : ℕ) : List (ModelRecommendation F) :=
  (sortBy compareScores
    (models.filterMap
      (bestForModel estimates showTenths profile maxMemoryFraction minTokS))).take topN

end

/-! ## What is recommended -/

section

variable (estimates : Estimates ℚ) (showTenths : ℚ → String) (profile : HardwareProfile ℚ)
  (maxMemoryFraction minTokS : ℚ)

/-- The platform runs a model. -/
def Runs (model : ModelEntry ℚ) : Prop :=
  (isMobile profile.platform = true → model.candleCompatible = true) ∧
    model.paramsBillions ≤ maxParamsForPlatform profile

/-- The machine can run a model at a quantization: the platform runs the model, and it fits the
memory and is fast enough. -/
structure Qualifies (model : ModelEntry ℚ) (quant : Quantization) : Prop where
  considered : quant ∈ quantLevels
  runs : Runs profile model
  fits : estimates.memory model quant 4096 ≤ effectiveMemory profile maxMemoryFraction
  fast : minTokS ≤ speed estimates profile model quant

/-- A recommendation is that of a model at the best quantization that qualifies. -/
structure BestOf (model : ModelEntry ℚ) (entry : ModelRecommendation ℚ) : Prop where
  entry_eq : entry =
    entryOf estimates showTenths profile maxMemoryFraction model entry.quantization
  qualifies : Qualifies estimates profile maxMemoryFraction minTokS model entry.quantization
  best : ∀ quant, Qualifies estimates profile maxMemoryFraction minTokS model quant →
    modelScore estimates profile model quant ≤ entry.score

/-- There are no more recommendations than asked for, one for each model at most, in order, each
the best of its model. A model that qualifies is left out only for others that score as high. -/
structure SoundAndOptimal (models : List (ModelEntry ℚ)) (topN : ℕ)
    (entries : List (ModelRecommendation ℚ)) : Prop where
  length_le : entries.length ≤ topN
  distinct : (entries.map ModelRecommendation.modelId).Nodup
  descending : entries.Pairwise fun a b => b.score ≤ a.score
  sound : ∀ entry ∈ entries, ∃ model ∈ models,
    BestOf estimates showTenths profile maxMemoryFraction minTokS model entry
  optimal : ∀ model ∈ models, ∀ quant,
    Qualifies estimates profile maxMemoryFraction minTokS model quant →
      model.id ∈ entries.map ModelRecommendation.modelId ∨ entries.length = topN ∧
        ∀ entry ∈ entries, modelScore estimates profile model quant ≤ entry.score

/-! ### The best quantization -/

/-- The scan of the quantizations keeps the best one so far. -/
theorem map_keepBest (best : Option (ModelRecommendation ℚ)) (rec : ModelRecommendation ℚ) :
    (keepBest best rec).map (fun kept => (kept, kept.score)) =
      challenge ModelRecommendation.score (best.map fun kept => (kept, kept.score)) rec := by
  cases best with
  | none => rfl
  | some existing =>
      by_cases hle : rec.score ≤ existing.score
      · have hkeep : keepBest (some existing) rec = some existing := if_pos (decide_eq_true hle)
        rw [hkeep]
        exact (if_pos hle).symm
      · have hkeep : keepBest (some existing) rec = some rec :=
          if_neg (by simpa [FloatOps.le] using hle)
        rw [hkeep]
        exact (if_neg hle).symm

/-- The scan ends with one of the highest scores. -/
theorem foldl_keepBest {recs : List (ModelRecommendation ℚ)} (hne : recs ≠ []) :
    ∃ best ∈ recs, recs.foldl keepBest none = some best ∧ ∀ rec ∈ recs, rec.score ≤ best.score := by
  obtain ⟨best, hmem, hfold, hgreatest⟩ := @foldl_challenge _ recs _ _ ModelRecommendation.score hne
  have hscan : recs.foldl (challenge ModelRecommendation.score)
        (Option.map (fun kept => (kept, kept.score)) none) =
      (recs.foldl keepBest none).map fun kept => (kept, kept.score) :=
    List.foldl_hom _ fun best rec => (map_keepBest best rec).symm
  rw [Option.map_none, hfold] at hscan
  obtain ⟨kept, hkept, hsame⟩ := Option.map_eq_some_iff.mp hscan.symm
  rw [(Prod.mk.inj hsame).1] at hkept
  exact ⟨best, hmem, hkept, hgreatest⟩

variable {estimates showTenths profile maxMemoryFraction minTokS} {model : ModelEntry ℚ}
  {quant : Quantization} {rec : ModelRecommendation ℚ}

/-- What is considered of a model fits and is fast enough. -/
theorem considerQuant_eq_some_iff :
    considerQuant estimates showTenths profile maxMemoryFraction minTokS model quant = some rec ↔
      (estimates.memory model quant 4096 ≤ effectiveMemory profile maxMemoryFraction ∧
        minTokS ≤ speed estimates profile model quant) ∧
          rec = entryOf estimates showTenths profile maxMemoryFraction model quant := by
  have hslow : FloatOps.lt (speed estimates profile model quant) minTokS = true ↔
      speed estimates profile model quant < minTokS := decide_eq_true_iff
  rw [considerQuant]
  split_ifs with hmemory hspeed
  · exact iff_of_false (fun h => by cases h) fun h => absurd h.1.1 (Nat.not_le.mpr hmemory)
  · exact iff_of_false (fun h => by cases h)
      fun h => absurd h.1.2 (not_le.mpr (hslow.mp hspeed))
  · have hfast : minTokS ≤ speed estimates profile model quant := not_lt.mp (mt hslow.mpr hspeed)
    rw [and_iff_right ⟨Nat.not_lt.mp hmemory, hfast⟩, Option.some_inj, eq_comm]

variable (showTenths) in
/-- What is considered of a model that the platform runs is what qualifies. -/
theorem mem_considered_iff (hruns : Runs profile model) :
    rec ∈ quantLevels.filterMap
        (considerQuant estimates showTenths profile maxMemoryFraction minTokS model) ↔
      ∃ quant, Qualifies estimates profile maxMemoryFraction minTokS model quant ∧
        rec = entryOf estimates showTenths profile maxMemoryFraction model quant := by
  rw [List.mem_filterMap]
  constructor
  · rintro ⟨quant, hmem, hconsidered⟩
    obtain ⟨⟨hfits, hfast⟩, hrec⟩ := considerQuant_eq_some_iff.mp hconsidered
    exact ⟨quant, ⟨hmem, hruns, hfits, hfast⟩, hrec⟩
  · rintro ⟨quant, hqualifies, hrec⟩
    exact ⟨quant, hqualifies.considered,
      considerQuant_eq_some_iff.mpr ⟨⟨hqualifies.fits, hqualifies.fast⟩, hrec⟩⟩

theorem bestForModel_of_runs (hruns : Runs profile model) :
    bestForModel estimates showTenths profile maxMemoryFraction minTokS model =
      (quantLevels.filterMap (considerQuant estimates showTenths profile maxMemoryFraction minTokS
        model)).foldl keepBest none := by
  have hcap : ¬ FloatOps.lt (maxParamsForPlatform profile) model.paramsBillions = true :=
    fun h => absurd hruns.2 (not_le.mpr (of_decide_eq_true h))
  rw [bestForModel, if_neg (fun h => h.2 (hruns.1 h.1)), if_neg hcap, List.foldl_filterMap]
  congr 1
  funext best quant
  cases considerQuant estimates showTenths profile maxMemoryFraction minTokS model quant <;> rfl

theorem bestForModel_of_not_runs (hruns : ¬ Runs profile model) :
    bestForModel estimates showTenths profile maxMemoryFraction minTokS model = none := by
  rw [bestForModel]
  split_ifs with hmobile hcap
  · rfl
  · rfl
  · refine absurd ⟨?_, ?_⟩ hruns
    · intro h
      by_contra hcandle
      exact hmobile ⟨h, hcandle⟩
    · exact not_lt.mp fun h => hcap (decide_eq_true h)

/-- **The entry of a model is its best one.** -/
theorem bestOf_of_bestForModel
    (h : bestForModel estimates showTenths profile maxMemoryFraction minTokS model = some rec) :
    BestOf estimates showTenths profile maxMemoryFraction minTokS model rec := by
  by_cases hruns : Runs profile model
  · rw [bestForModel_of_runs hruns] at h
    have hne : quantLevels.filterMap (considerQuant estimates showTenths profile maxMemoryFraction
        minTokS model) ≠ [] := by
      intro hnil
      rw [hnil] at h
      cases h
    obtain ⟨best, hmem, hfold, hgreatest⟩ := foldl_keepBest hne
    rw [hfold] at h
    cases h
    obtain ⟨quant, hqualifies, rfl⟩ := (mem_considered_iff showTenths hruns).mp hmem
    refine ⟨rfl, hqualifies, fun other hother => ?_⟩
    exact hgreatest _ ((mem_considered_iff showTenths hruns).mpr ⟨other, hother, rfl⟩)
  · rw [bestForModel_of_not_runs hruns] at h
    cases h

variable (showTenths) in
/-- A model that qualifies has an entry. -/
theorem exists_bestForModel
    (h : Qualifies estimates profile maxMemoryFraction minTokS model quant) :
    ∃ rec, bestForModel estimates showTenths profile maxMemoryFraction minTokS model =
      some rec := by
  have hmem := (mem_considered_iff showTenths h.runs).mpr ⟨quant, h, rfl⟩
  obtain ⟨best, -, hfold, -⟩ := foldl_keepBest (List.ne_nil_of_mem hmem)
  exact ⟨best, (bestForModel_of_runs h.runs).trans hfold⟩

/-! ### The best models -/

variable {models : List (ModelEntry ℚ)} {topN : ℕ}

/-- The entries of models with different ids have different ids. -/
theorem nodup_modelIds (hids : (models.map ModelEntry.id).Nodup) :
    ((models.filterMap (bestForModel estimates showTenths profile maxMemoryFraction
      minTokS)).map ModelRecommendation.modelId).Nodup := by
  refine hids.sublist ?_
  induction models with
  | nil => exact List.Sublist.slnil
  | cons model models ih =>
      have hrest := ih (List.nodup_cons.mp hids).2
      rw [List.filterMap_cons, List.map_cons]
      split
      · exact hrest.cons _
      · next rec hrec =>
          have hid : rec.modelId = model.id := by rw [(bestOf_of_bestForModel hrec).entry_eq]; rfl
          rw [List.map_cons, hid]
          exact hrest.cons_cons _

theorem pairwise_compareScores (recs : List (ModelRecommendation ℚ)) :
    (sortBy compareScores recs).Pairwise fun a b => b.score ≤ a.score := by
  have hcompare (a b : ModelRecommendation ℚ) : compareScores a b =
      if b.score < a.score then .lt else if a.score < b.score then .gt else .eq := rfl
  refine pairwise_sortBy (fun a b c hab hbc => hbc.trans hab) ?_ ?_ recs
  · intro a b hle
    rw [hcompare] at hle
    by_contra hlt
    rw [not_le] at hlt
    rw [if_neg (not_lt.mpr hlt.le), if_pos hlt] at hle
    exact hle rfl
  · intro a b hgt
    rw [hcompare] at hgt
    split_ifs at hgt with hless hgreater
    exact hgreater.le

/-- **The recommendation is sound and optimal.** -/
theorem recommend_soundAndOptimal (hids : (models.map ModelEntry.id).Nodup) :
    SoundAndOptimal estimates showTenths profile maxMemoryFraction minTokS models topN
      (recommend estimates showTenths profile maxMemoryFraction minTokS models topN) := by
  have hsorted := pairwise_compareScores
    (models.filterMap (bestForModel estimates showTenths profile maxMemoryFraction minTokS))
  have hnodup : ((models.filterMap (bestForModel estimates showTenths profile maxMemoryFraction
      minTokS)).map ModelRecommendation.modelId).Nodup := nodup_modelIds hids
  refine ⟨List.length_take_le _ _, ?_, hsorted.sublist (List.take_sublist _ _), ?_, ?_⟩
  · have hperm := (perm_sortBy compareScores (models.filterMap
      (bestForModel estimates showTenths profile maxMemoryFraction minTokS))).map
        ModelRecommendation.modelId
    exact (hperm.nodup_iff.mpr hnodup).sublist ((List.take_sublist _ _).map _)
  · intro entry hentry
    obtain ⟨model, hmodel, hbest⟩ :=
      List.mem_filterMap.mp ((mem_sortBy _).mp (List.mem_of_mem_take hentry))
    exact ⟨model, hmodel, bestOf_of_bestForModel hbest⟩
  · intro model hmodel quant hqualifies
    obtain ⟨rec, hrec⟩ := exists_bestForModel showTenths hqualifies
    have hbest := bestOf_of_bestForModel hrec
    have hmem := (mem_sortBy compareScores).mpr (List.mem_filterMap.mpr ⟨model, hmodel, hrec⟩)
    rw [← List.take_append_drop topN (sortBy _ _), List.mem_append] at hmem
    rcases hmem with hkept | hleft
    · have hid : model.id = rec.modelId := by rw [hbest.entry_eq]; rfl
      exact Or.inl (hid ▸ List.mem_map_of_mem hkept)
    · refine Or.inr ⟨?_, fun entry hentry => ?_⟩
      · have hdropped := List.length_pos_of_mem hleft
        rw [List.length_drop] at hdropped
        exact List.length_take_of_le (by omega)
      · have hbelow : rec.score ≤ entry.score :=
          rel_of_mem_take_of_mem_drop (R := fun a b => b.score ≤ a.score) hsorted hentry hleft
        exact (hbest.best quant hqualifies).trans hbelow

/-- A machine without a graphics processor and with 12 GiB of memory available. -/
def desktop : HardwareProfile ℚ where
  cpu := ⟨"Test CPU", 8, 16, [], 0⟩
  memory := ⟨16 * 1024 * 1024 * 1024, 12 * 1024 * 1024 * 1024, 30⟩
  gpus := []
  storage := ⟨0, 500⟩
  platform := ⟨"linux", "x86_64", false, .ac⟩

/-- A small model, and one that is too large for the machine. -/
def twoModels : List (ModelEntry ℚ) :=
  [⟨"llama-3.2-1b", "Llama 3.2 1B", 1, 45 / 100, true⟩,
    ⟨"llama-3.1-70b", "Llama 3.1 70B", 70, 86 / 100, true⟩]

/-- The small model is recommended at the quantization that makes it fast. -/
theorem recommend_soundAndOptimal_desktop :
    SoundAndOptimal heuristics (fun _ => "96.0") desktop (85 / 100) 5 twoModels 10
        (recommend heuristics (fun _ => "96.0") desktop (85 / 100) 5 twoModels 10) ∧
      (recommend heuristics (fun _ => "96.0") desktop (85 / 100) 5 twoModels 10).map
        (fun entry => (entry.modelId, entry.quantization)) = [("llama-3.2-1b", .q2K)] :=
  ⟨recommend_soundAndOptimal (by decide), by decide +kernel⟩

end

end HiveBear.Recommender
