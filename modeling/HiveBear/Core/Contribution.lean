/-
# What a machine contributes

A peer's tier is read off the memory of its graphics processors, and each tier has one or two models
to choose from. The choice looks at the memory there is, but against bounds that are not the sizes
of the models: a machine may be given a model that it cannot hold.
-/

import HiveBear.Inference.Offload

namespace HiveBear.Contribution

open Inference.Offload Mesh.Discovery

/-! ## The plan -/

/-- Contribution tier based on hardware capabilities. -/
inductive ContributionTier
  | cpuWorker
  | lightGpu
  | midGpu
  | strongGpu
  | heavyGpu
  deriving DecidableEq

/-- A model of the table. -/
structure ContributionModel where
  id : String
  name : String
  sizeBytes : ℕ
  layers : UInt32

/-- Plan for how a peer should contribute to the network. -/
structure ContributionPlan (F : Type) where
  tier : ContributionTier
  recommendedModel : String
  recommendedModelName : String
  modelSizeBytes : ℕ
  estimatedTflops : F
  maxLayersServiceable : ℕ

def gb : ℕ := 1024 * 1024 * 1024

section

variable (F : Type) [FloatOps F]

def phi3Mini : ContributionModel :=
  ⟨"phi-3-mini-3.8b-q4_k_m", "Phi-3 Mini 3.8B",
    FloatOps.truncU64 (FloatOps.literal (23 / 10) * FloatOps.ofNat gb : F), 32⟩

/-- The smallest model. -/
def tinyLlama : ContributionModel :=
  ⟨"tinyllama-1.1b-q4_k_m", "TinyLlama 1.1B",
    FloatOps.truncU64 (FloatOps.literal (7 / 10) * FloatOps.ofNat gb : F), 22⟩

end

variable {F : Type} [FloatOps F]

/-- Determine the contribution tier from a hardware profile. -/
def determineTier (profile : HardwareProfile F) : ContributionTier :=
  let totalVram := totalVram profile
  if totalVram = 0 then .cpuWorker
  else if totalVram < 4 * gb then .lightGpu
  else if totalVram < 8 * gb then .midGpu
  else if totalVram < 16 * gb then .strongGpu
  else .heavyGpu

/-- The VRAM and the memory that may be used, added in 64 bits. -/
def totalUsable (profile : HardwareProfile F) : ℕ :=
  (totalVram profile + availableRam profile) % 2 ^ 64

/-- The model of the tier for this much memory. -/
def selectModel (profile : HardwareProfile F) : ContributionModel :=
  match determineTier profile with
  | .cpuWorker => if 2 * gb ≤ availableRam profile then phi3Mini F else tinyLlama F
  | .lightGpu => ⟨"llama-3.2-3b-q4_k_m", "Llama 3.2 3B", 2 * gb, 28⟩
  | .midGpu =>
      if 7 * gb ≤ totalUsable profile then
        ⟨"llama-3.1-8b-q4_k_m", "Llama 3.1 8B", 5 * gb, 32⟩
      else ⟨"mistral-7b-q4_k_m", "Mistral 7B", 4 * gb, 32⟩
  | .strongGpu =>
      if 10 * gb ≤ totalUsable profile then
        ⟨"codellama-13b-q4_k_m", "CodeLlama 13B", 8 * gb, 40⟩
      else ⟨"llama-3.1-8b-q6_k", "Llama 3.1 8B (Q6)", 7 * gb, 32⟩
  | .heavyGpu =>
      if 42 * gb ≤ totalUsable profile then
        ⟨"llama-3.1-70b-q4_k_m", "Llama 3.1 70B", 40 * gb, 80⟩
      else ⟨"yi-34b-q4_k_m", "Yi 34B", 20 * gb, 60⟩

/-- Two TFLOPS for each GiB of VRAM, or a tenth of one for each core. -/
def estimateTflops (profile : HardwareProfile F) : F :=
  if 0 < totalVram profile then
    FloatOps.ofNat (totalVram profile) / FloatOps.ofNat gb * FloatOps.literal 2
  else FloatOps.ofNat profile.cpu.physicalCores.toNat * FloatOps.literal (1 / 10)

/-- How many layers of a model this much memory holds, all of one size. -/
def layersServiceable (usable : ℕ) (model : ContributionModel) : ℕ :=
  let bytesPerLayer := (checkedDiv model.sizeBytes model.layers.toNat).getD model.sizeBytes
  ((checkedDiv usable bytesPerLayer).map fun l => min l model.layers.toNat % 2 ^ 32).getD
    model.layers.toNat

/-- Plan the best contribution strategy for a given hardware profile. -/
def planContribution (profile : HardwareProfile F) : ContributionPlan F :=
  let model := selectModel profile
  { tier := determineTier profile
    recommendedModel := model.id
    recommendedModelName := model.name
    modelSizeBytes := model.sizeBytes
    estimatedTflops := estimateTflops profile
    maxLayersServiceable := layersServiceable (totalUsable profile) model }

/-! ## When the plan fits -/

section

variable (profile : HardwareProfile F)

/-- The recommended model can be held, with all its layers. -/
structure PlanFits : Prop where
  size_le : (planContribution profile).modelSizeBytes ≤ totalUsable profile
  layers_eq : (planContribution profile).maxLayersServiceable = (selectModel profile).layers.toNat

/-- What the smallest model of a tier takes. -/
def leastSize (F : Type) [FloatOps F] : ContributionTier → ℕ
  | .cpuWorker => (tinyLlama F).sizeBytes
  | .lightGpu => 2 * gb
  | .midGpu => 4 * gb
  | .strongGpu => 7 * gb
  | .heavyGpu => 20 * gb

/-- The machine has no VRAM, and its memory reaches the bound for Phi-3 Mini but not its size. -/
def BetweenBoundAndSize : Prop :=
  totalVram profile = 0 ∧ 2 * gb ≤ availableRam profile ∧
    availableRam profile < (phi3Mini F).sizeBytes

/-- Memory that holds a model serves all its layers. -/
theorem layersServiceable_of_le {usable : ℕ} {model : ContributionModel}
    (h : model.sizeBytes ≤ usable) : layersServiceable usable model = model.layers.toNat := by
  rw [layersServiceable, gpuTier_eq, min_eq_right_iff]
  by_cases hlayers : model.layers.toNat = 0
  · rw [hlayers]
    exact Nat.zero_le _
  rw [checkedDiv_pos _ hlayers, Option.getD_some]
  by_cases hper : model.sizeBytes / model.layers.toNat = 0
  · rw [hper, checkedDiv_zero]
    exact le_rfl
  · rw [checkedDiv_pos _ hper, Option.getD_some, Nat.le_div_iff_mul_le (Nat.pos_of_ne_zero hper)]
    calc model.layers.toNat * (model.sizeBytes / model.layers.toNat) ≤ model.sizeBytes :=
          Nat.mul_div_le _ _
      _ ≤ usable := h

/-- Without VRAM the memory is all there is. -/
theorem totalUsable_of_noVram (h : totalVram profile = 0) :
    totalUsable profile = availableRam profile := by
  rw [totalUsable, h, Nat.zero_add]
  exact Nat.mod_eq_of_lt (FloatOps.truncU64_lt _)

/-- A model that is only chosen where it can be held makes no difference. -/
theorem sizeBytes_le_iff_of_bound {usable bound : ℕ} {large small : ContributionModel}
    (hlarge : large.sizeBytes ≤ bound) (hsmall : small.sizeBytes ≤ large.sizeBytes) :
    (if bound ≤ usable then large else small).sizeBytes ≤ usable ↔ small.sizeBytes ≤ usable := by
  split_ifs with hbound
  · have hholds : large.sizeBytes ≤ usable := hlarge.trans hbound
    exact iff_of_true hholds (hsmall.trans hholds)
  · exact Iff.rfl

variable {profile}

/-- With VRAM, memory that holds the smallest model of the tier holds the one that is chosen. -/
theorem sizeBytes_le_iff_of_vram (h : totalVram profile ≠ 0) :
    (selectModel profile).sizeBytes ≤ totalUsable profile ↔
      leastSize F (determineTier profile) ≤ totalUsable profile := by
  have htier : determineTier profile ≠ .cpuWorker := by
    rw [determineTier, if_neg h]
    split_ifs <;> decide
  cases hchosen : determineTier profile with
  | cpuWorker => exact absurd hchosen htier
  | lightGpu =>
      rw [selectModel, hchosen]
      exact Iff.rfl
  | midGpu | strongGpu | heavyGpu =>
      rw [selectModel, hchosen]
      exact sizeBytes_le_iff_of_bound (by decide) (by decide)

/-- Without VRAM the model that is chosen is held just if the memory is not between the bound for
it and its size. -/
theorem sizeBytes_le_iff_of_noVram (h : totalVram profile = 0)
    (hsmallest : (tinyLlama F).sizeBytes ≤ totalUsable profile) :
    (selectModel profile).sizeBytes ≤ totalUsable profile ↔ ¬ BetweenBoundAndSize profile := by
  have htier : determineTier profile = .cpuWorker := if_pos h
  have hgap : BetweenBoundAndSize profile ↔ 2 * gb ≤ availableRam profile ∧
      availableRam profile < (phi3Mini F).sizeBytes := and_iff_right h
  rw [hgap, selectModel, htier, totalUsable_of_noVram profile h] at *
  by_cases hbound : 2 * gb ≤ availableRam profile
  · simp only [if_pos hbound, and_iff_right hbound, Nat.not_lt]
  · rw [if_neg hbound]
    exact iff_of_true hsmallest fun hbetween => hbound hbetween.1

/-- **When the plan fits.** The machine holds the smallest model of its tier, and its memory is not
between the bound for Phi-3 Mini and the size of that model. -/
theorem planContribution_fits_iff (hsmallest : (tinyLlama F).sizeBytes ≤ totalUsable profile) :
    PlanFits profile ↔ leastSize F (determineTier profile) ≤ totalUsable profile ∧
      ¬ BetweenBoundAndSize profile := by
  have hfits : PlanFits profile ↔ (selectModel profile).sizeBytes ≤ totalUsable profile :=
    ⟨PlanFits.size_le, fun h => ⟨h, layersServiceable_of_le h⟩⟩
  rw [hfits]
  by_cases h : totalVram profile = 0
  · have htier : determineTier profile = .cpuWorker := if_pos h
    rw [sizeBytes_le_iff_of_noVram h hsmallest, htier, leastSize, and_iff_right hsmallest]
  · have hgap : ¬ BetweenBoundAndSize profile := fun hbetween => h hbetween.1
    rw [sizeBytes_le_iff_of_vram h, and_iff_left hgap]

/-- 16 GiB of memory, of which 85% are enough for Phi-3 Mini. -/
theorem planContribution_fits_iff_cpu :
    PlanFits (machineWith [] (16 * 1024 * 1024 * 1024)) ↔
      leastSize ℚ (determineTier (machineWith [] (16 * 1024 * 1024 * 1024))) ≤
          totalUsable (machineWith [] (16 * 1024 * 1024 * 1024)) ∧
        ¬ BetweenBoundAndSize (machineWith [] (16 * 1024 * 1024 * 1024)) :=
  planContribution_fits_iff (by decide +kernel)

/-- Of 2.5 GiB of memory 85% reach the bound for Phi-3 Mini, but do not hold it. A graphics
processor with 1 GiB of VRAM is given a model of 2 GiB whatever else there is, and one with 16 GiB
a model of 20 GiB. -/
theorem plans_do_not_fit :
    ¬ ((tinyLlama ℚ).sizeBytes ≤ totalUsable (machineWith [] 2684354560) →
        PlanFits (machineWith [] 2684354560)) ∧
      ¬ ((tinyLlama ℚ).sizeBytes ≤ totalUsable (machineWith [1073741824] 0) →
        PlanFits (machineWith [1073741824] 0)) ∧
      ¬ ((tinyLlama ℚ).sizeBytes ≤ totalUsable (machineWith [17179869184] 0) →
        PlanFits (machineWith [17179869184] 0)) := by
  refine ⟨fun h => ?_, fun h => ?_, fun h => ?_⟩
  · exact absurd (h (by decide +kernel)).size_le (by decide +kernel)
  · exact absurd (h (by decide +kernel)).size_le (by decide +kernel)
  · exact absurd (h (by decide +kernel)).size_le (by decide +kernel)

end

/-! ### Exact arithmetic -/

theorem phi3Mini_sizeBytes : (phi3Mini ℚ).sizeBytes = 2469606195 := by decide +kernel

theorem tinyLlama_sizeBytes : (tinyLlama ℚ).sizeBytes = 751619276 := by decide +kernel

/-- No machine is given a smaller model. -/
theorem tinyLlama_sizeBytes_le (profile : HardwareProfile ℚ) :
    (tinyLlama ℚ).sizeBytes ≤ (selectModel profile).sizeBytes := by
  rw [tinyLlama_sizeBytes, selectModel]
  split
  · split_ifs
    · rw [phi3Mini_sizeBytes]
      decide
    · exact tinyLlama_sizeBytes.ge
  · decide
  all_goals split_ifs <;> decide

/-- The memory of a machine with less than 16 GiB of VRAM adds up in 64 bits. -/
theorem totalVram_le_totalUsable {profile : HardwareProfile ℚ}
    (h : totalVram profile < 16 * gb) : totalVram profile ≤ totalUsable profile := by
  have hbytes := profile.memory.availableBytes.toNat_lt
  have hram : availableRam profile ≤ 2 ^ 64 * 85 / 100 := by
    rw [availableRam_exact]
    omega
  have hsum : totalVram profile + availableRam profile < 2 ^ 64 := by
    rw [gb] at h
    omega
  rw [totalUsable, Nat.mod_eq_of_lt hsum]
  exact Nat.le_add_right _ _

/-- The machines that do not hold the smallest model of their tier are those with less than 4 GiB
of VRAM and less than 2 GiB of memory in all, and those with 16 GiB of VRAM or more and less than
20 GiB in all. -/
theorem leastSize_le_iff (profile : HardwareProfile ℚ)
    (hsmallest : (tinyLlama ℚ).sizeBytes ≤ totalUsable profile) :
    leastSize ℚ (determineTier profile) ≤ totalUsable profile ↔
      (determineTier profile = .lightGpu → 2 * gb ≤ totalUsable profile) ∧
        (determineTier profile = .heavyGpu → 20 * gb ≤ totalUsable profile) := by
  have hother {tier : ContributionTier} (hlight : tier ≠ .lightGpu) (hheavy : tier ≠ .heavyGpu)
      (hholds : leastSize ℚ tier ≤ totalUsable profile) :
      leastSize ℚ tier ≤ totalUsable profile ↔
        (tier = .lightGpu → 2 * gb ≤ totalUsable profile) ∧
          (tier = .heavyGpu → 20 * gb ≤ totalUsable profile) :=
    iff_of_true hholds ⟨fun h => absurd h hlight, fun h => absurd h hheavy⟩
  by_cases hnone : totalVram profile = 0
  · have htier : determineTier profile = .cpuWorker := if_pos hnone
    rw [htier]
    exact hother (by decide) (by decide) hsmallest
  by_cases hlight : totalVram profile < 4 * gb
  · have htier : determineTier profile = .lightGpu := (if_neg hnone).trans (if_pos hlight)
    rw [htier]
    exact ⟨fun h => ⟨fun _ => h, fun hheavy => absurd hheavy (by decide)⟩, fun h => h.1 rfl⟩
  by_cases hmid : totalVram profile < 8 * gb
  · have htier : determineTier profile = .midGpu :=
      (if_neg hnone).trans ((if_neg hlight).trans (if_pos hmid))
    have hholds := totalVram_le_totalUsable (hmid.trans (by decide))
    rw [htier]
    exact hother (by decide) (by decide) ((Nat.not_lt.mp hlight).trans hholds)
  by_cases hstrong : totalVram profile < 16 * gb
  · have htier : determineTier profile = .strongGpu :=
      (if_neg hnone).trans ((if_neg hlight).trans ((if_neg hmid).trans (if_pos hstrong)))
    have hleast : leastSize ℚ .strongGpu ≤ totalVram profile := by
      rw [leastSize]
      omega
    rw [htier]
    exact hother (by decide) (by decide) (hleast.trans (totalVram_le_totalUsable hstrong))
  · have htier : determineTier profile = .heavyGpu :=
      (if_neg hnone).trans ((if_neg hlight).trans ((if_neg hmid).trans (if_neg hstrong)))
    rw [htier]
    exact ⟨fun h => ⟨fun hlight => absurd hlight (by decide), fun _ => h⟩, fun h => h.2 rfl⟩

end HiveBear.Contribution
