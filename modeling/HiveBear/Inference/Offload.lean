/-
# Where the layers of a model go

A model's layers are put into the memory of the graphics processors first, then into the
machine's own memory, then onto peers of the mesh; what is left is read from disk as it is
needed. The plan counts in machine words: the VRAM sizes are added modulo 2^64, and how
many layers memory and mesh have room for is cut to 32 bits before it is compared with how
many are left. The budgets themselves are exact numbers, so what the plan promises can be
compared with what there is.

The plan fills the three tiers in order, which is `GreedyFill`. Without VRAM and without a
mesh it does not look at the sizes at all.
-/

import HiveBear.Inference.Orchestrator
import HiveBear.Library.Dealing
import HiveBear.Mesh.Discovery.PeerInfo

namespace HiveBear.Inference

open GreedyFill Mesh.Discovery

/-- How a model's layers are split. -/
structure OffloadPlan extends OffloadConfig where
  cpuLayers : Option ℕ
  diskMmap : Bool
  meshLayers : Option ℕ

namespace OffloadPlan

variable (plan : OffloadPlan)

def gpu : ℕ := plan.gpuLayers.getD 0

def cpu : ℕ := plan.cpuLayers.getD 0

def mesh : ℕ := plan.meshLayers.getD 0

/-- How many layers each tier gets. -/
def tiers : List ℕ := [plan.gpu, plan.cpu, plan.mesh]

end OffloadPlan

namespace Offload

variable {F : Type} [FloatOps F]

/-! ## The plan -/

/-- A division that fails for a zero divisor. -/
def checkedDiv (a b : ℕ) : Option ℕ := if b = 0 then none else some (a / b)

/-- The VRAM of all graphics processors, added in 64 bits. -/
def totalVram (profile : HardwareProfile F) : ℕ :=
  (profile.gpus.map fun gpu => gpu.vramBytes.toNat).sum % 2 ^ 64

/-- The part of the available memory that may be used. -/
def availableRam (profile : HardwareProfile F) : ℕ :=
  FloatOps.truncU64
    (FloatOps.ofNat profile.memory.availableBytes.toNat * FloatOps.literal (85 / 100) : F)

/-- What the keys and values of a context take. -/
def kvOverhead (contextLength : UInt32) : ℕ := contextLength.toNat * 256 * 1024

/-- What the VRAM has left for layers. -/
def usableVram (profile : HardwareProfile F) (contextLength : UInt32) : ℕ :=
  totalVram profile - kvOverhead contextLength

/-- The size of a layer, if all are of one size. -/
def bytesPerLayer (modelSizeBytes : UInt64) (numLayers : UInt32) : ℕ :=
  (checkedDiv modelSizeBytes.toNat numLayers.toNat).getD modelSizeBytes.toNat

/-- The layers that the mesh gets of the remaining ones, and those that remain behind it. -/
def meshTier (perLayer : ℕ) (meshCapacityBytes : Option UInt64) (remaining : ℕ) :
    Option ℕ × ℕ :=
  if 0 < remaining then
    match meshCapacityBytes with
    | some meshCap =>
        let meshFit := ((checkedDiv meshCap.toNat perLayer).map (· % 2 ^ 32)).getD remaining
        let assigned := min meshFit remaining
        (if 0 < assigned then some assigned else none, remaining - assigned)
    | none => (none, remaining)
  else (none, remaining)

/-- The split of a model's layers. -/
def calculateOffloadWithMesh (modelSizeBytes : UInt64) (numLayers : UInt32)
    (profile : HardwareProfile F) (contextLength : UInt32) (meshCapacityBytes : Option UInt64) :
    OffloadPlan :=
  if totalVram profile = 0 ∧ meshCapacityBytes = none then
    -- no GPU, no mesh: everything on CPU
    ⟨⟨some 0, false⟩, some numLayers.toNat, false, none⟩
  else
    let perLayer := bytesPerLayer modelSizeBytes numLayers
    let gpuLayers := ((checkedDiv (usableVram profile contextLength) perLayer).map fun l =>
      min l numLayers.toNat % 2 ^ 32).getD numLayers.toNat
    let afterGpu := numLayers.toNat - gpuLayers
    let cpuLayers := ((checkedDiv (availableRam profile) perLayer).map fun l =>
      min (l % 2 ^ 32) afterGpu).getD afterGpu
    let (meshLayers, remaining) := meshTier perLayer meshCapacityBytes (afterGpu - cpuLayers)
    ⟨⟨some gpuLayers, false⟩, some cpuLayers, decide (0 < remaining), meshLayers⟩

/-- The split without a mesh. -/
def calculateOffload (modelSizeBytes : UInt64) (numLayers : UInt32)
    (profile : HardwareProfile F) (contextLength : UInt32) : OffloadPlan :=
  calculateOffloadWithMesh modelSizeBytes numLayers profile contextLength none

/-! ## The tiers are filled in order -/

variable (modelSizeBytes : UInt64) (numLayers : UInt32) (profile : HardwareProfile F)
  (contextLength : UInt32) (meshCapacityBytes : Option UInt64)

/-- How many layers memory of some size has room for, as the plan counts them: a number of
32 bits, and enough for every layer if layers take no room. -/
def narrowedRoom (numLayers : UInt32) (budget perLayer : ℕ) : ℕ :=
  ((checkedDiv budget perLayer).map (· % 2 ^ 32)).getD numLayers.toNat

/-- The room of the three tiers, as the plan counts it. -/
def rooms : List ℕ :=
  let perLayer := bytesPerLayer modelSizeBytes numLayers
  [(checkedDiv (usableVram profile contextLength) perLayer).getD numLayers.toNat,
    narrowedRoom numLayers (availableRam profile) perLayer,
    meshCapacityBytes.elim 0 fun meshCap => narrowedRoom numLayers meshCap.toNat perLayer]

/-- There is no VRAM and no mesh, and the sizes are not looked at. -/
def CpuOnly : Prop := totalVram profile = 0 ∧ meshCapacityBytes = none

theorem checkedDiv_zero (a : ℕ) : checkedDiv a 0 = none := if_pos rfl

theorem checkedDiv_pos (a : ℕ) {b : ℕ} (h : b ≠ 0) : checkedDiv a b = some (a / b) := if_neg h

theorem narrowedRoom_zero (budget : ℕ) : narrowedRoom numLayers budget 0 = numLayers.toNat := by
  rw [narrowedRoom, checkedDiv_zero]
  rfl

theorem narrowedRoom_pos (budget : ℕ) {perLayer : ℕ} (h : perLayer ≠ 0) :
    narrowedRoom numLayers budget perLayer = budget / perLayer % 2 ^ 32 := by
  rw [narrowedRoom, checkedDiv_pos budget h]
  rfl

/-- The VRAM takes as many layers as it has room for. -/
theorem gpuTier_eq (budget perLayer : ℕ) :
    ((checkedDiv budget perLayer).map fun l => min l numLayers.toNat % 2 ^ 32).getD
        numLayers.toNat =
      min ((checkedDiv budget perLayer).getD numLayers.toNat) numLayers.toNat := by
  have hlayers := numLayers.toNat_lt
  by_cases hzero : perLayer = 0
  · rw [hzero, checkedDiv_zero]
    exact (min_self _).symm
  · rw [checkedDiv_pos _ hzero]
    exact Nat.mod_eq_of_lt ((min_le_right _ _).trans_lt hlayers)

/-- A tier behind it takes as many of the remaining layers as it has room for. -/
theorem narrowedTier_eq (budget perLayer : ℕ) {remaining : ℕ} (h : remaining ≤ numLayers.toNat) :
    min (((checkedDiv budget perLayer).map (· % 2 ^ 32)).getD remaining) remaining =
      min (narrowedRoom numLayers budget perLayer) remaining := by
  by_cases hzero : perLayer = 0
  · rw [hzero, narrowedRoom_zero, checkedDiv_zero, min_eq_right h]
    exact min_self _
  · rw [narrowedRoom_pos numLayers budget hzero, checkedDiv_pos _ hzero]
    rfl

theorem cpuTier_eq (budget perLayer : ℕ) {remaining : ℕ} (h : remaining ≤ numLayers.toNat) :
    ((checkedDiv budget perLayer).map fun l => min (l % 2 ^ 32) remaining).getD remaining =
      min (narrowedRoom numLayers budget perLayer) remaining := by
  rw [← narrowedTier_eq numLayers budget perLayer h]
  cases checkedDiv budget perLayer with
  | none => exact (min_self _).symm
  | some l => rfl

theorem meshTier_eq (perLayer : ℕ) {remaining : ℕ} (h : remaining ≤ numLayers.toNat) :
    let assigned := min (meshCapacityBytes.elim 0 fun meshCap =>
      narrowedRoom numLayers meshCap.toNat perLayer) remaining
    (meshTier perLayer meshCapacityBytes remaining).1.getD 0 = assigned ∧
      (meshTier perLayer meshCapacityBytes remaining).2 = remaining - assigned := by
  by_cases hremaining : 0 < remaining
  · simp only [meshTier, if_pos hremaining]
    cases meshCapacityBytes with
    | none => exact ⟨(Nat.zero_min _).symm, by rw [Option.elim_none, Nat.zero_min]; rfl⟩
    | some meshCap =>
        simp only [narrowedTier_eq numLayers meshCap.toNat perLayer h, Option.elim_some]
        refine ⟨?_, trivial⟩
        split
        · rfl
        · rename_i hnone
          exact (Nat.eq_zero_of_not_pos hnone).symm
  · have hnothing : remaining = 0 := Nat.eq_zero_of_not_pos hremaining
    simp only [meshTier, hnothing, Nat.min_zero]
    exact ⟨rfl, rfl⟩

/-- **The plan fills the tiers in order**, unless there is neither VRAM nor a mesh. -/
theorem calculateOffloadWithMesh_eq_fill (h : ¬ CpuOnly profile meshCapacityBytes) :
    let plan := calculateOffloadWithMesh modelSizeBytes numLayers profile contextLength
      meshCapacityBytes
    let filled := fill numLayers.toNat
      (rooms modelSizeBytes numLayers profile contextLength meshCapacityBytes)
    plan.tiers = filled ∧ plan.diskMmap = decide (filled.sum < numLayers.toNat) := by
  have hconditions : ¬ (totalVram profile = 0 ∧ meshCapacityBytes = none) := h
  simp only [calculateOffloadWithMesh, if_neg hconditions, gpuTier_eq,
    cpuTier_eq numLayers _ _ (Nat.sub_le numLayers.toNat _), rooms, fill]
  generalize (checkedDiv (usableVram profile contextLength)
    (bytesPerLayer modelSizeBytes numLayers)).getD numLayers.toNat = vramRoom
  generalize narrowedRoom numLayers (availableRam profile)
    (bytesPerLayer modelSizeBytes numLayers) = ramRoom
  obtain ⟨hassigned, hleft⟩ := meshTier_eq numLayers meshCapacityBytes
    (bytesPerLayer modelSizeBytes numLayers)
    ((Nat.sub_le _ (min ramRoom _)).trans (Nat.sub_le numLayers.toNat (min vramRoom _)))
  refine ⟨?_, ?_⟩
  · exact congrArg (fun assigned => [_, _, assigned]) hassigned
  · simp only [hleft, List.sum_cons, List.sum_nil]
    congr 1
    apply propext
    omega

/-! ## What the plan promises -/

/-- The memory that the three tiers have for layers, in exact numbers. -/
structure TierBudgets where
  vram : ℕ
  ram : ℕ
  mesh : ℕ

/-- The memory of the tiers. A mesh that is not there has none. -/
def tierBudgets : TierBudgets where
  vram := (profile.gpus.map fun gpu => gpu.vramBytes.toNat).sum - kvOverhead contextLength
  ram := availableRam profile
  mesh := meshCapacityBytes.elim 0 UInt64.toNat

/-- No more layers are assigned than there are, a plan reads from disk just if layers are
left over, and it does so only if no tier has room for one more. -/
structure PlanComplete (plan : OffloadPlan) (numLayers perLayer : ℕ) (budgets : TierBudgets) :
    Prop where
  sum_le : plan.tiers.sum ≤ numLayers
  all_iff : plan.diskMmap = false ↔ plan.tiers.sum = numLayers
  greedy : plan.diskMmap = true →
    budgets.vram < (plan.gpu + 1) * perLayer ∧ budgets.ram < (plan.cpu + 1) * perLayer ∧
      budgets.mesh < (plan.mesh + 1) * perLayer

/-- Each tier's layers fit into its memory, and a plan whose layers are not all assigned
reads from disk. -/
structure RespectsBudgets (plan : OffloadPlan) (numLayers perLayer : ℕ) (budgets : TierBudgets) :
    Prop where
  vram : plan.gpu * perLayer ≤ budgets.vram
  ram : plan.cpu * perLayer ≤ budgets.ram
  mesh : plan.mesh * perLayer ≤ budgets.mesh
  flagged : plan.tiers.sum < numLayers → plan.diskMmap = true

/-- The plan's counts lose no layer that a tier has room for. -/
def CountsExact : Prop :=
  let perLayer := bytesPerLayer modelSizeBytes numLayers
  let budgets := tierBudgets profile contextLength meshCapacityBytes
  budgets.vram / perLayer ≤ usableVram profile contextLength / perLayer ∧
    budgets.ram / perLayer < 2 ^ 32 ∧ budgets.mesh / perLayer < 2 ^ 32

/-- A plan that does not look at the sizes puts everything into memory. -/
theorem calculateOffloadWithMesh_cpuOnly (h : CpuOnly profile meshCapacityBytes) :
    calculateOffloadWithMesh modelSizeBytes numLayers profile contextLength meshCapacityBytes =
      ⟨⟨some 0, false⟩, some numLayers.toNat, false, none⟩ := if_pos h

/-- The wrapped sum is no larger than the exact one. -/
theorem usableVram_le :
    usableVram profile contextLength ≤
      (tierBudgets profile contextLength meshCapacityBytes).vram :=
  Nat.sub_le_sub_right (Nat.mod_le _ _) _

/-- A tier has room for one more layer unless its count reaches what it has room for. -/
theorem lt_succ_mul_iff {budget perLayer assigned : ℕ} (h : perLayer ≠ 0) :
    budget < (assigned + 1) * perLayer ↔ budget / perLayer ≤ assigned := by
  rw [← Nat.div_lt_iff_lt_mul (Nat.pos_of_ne_zero h), Nat.lt_succ_iff]

theorem le_mod_iff (n : ℕ) : n ≤ n % 2 ^ 32 ↔ n < 2 ^ 32 := by omega

theorem decide_eq_false_iff_sum {assigned layers : ℕ} (h : assigned ≤ layers) :
    decide (assigned < layers) = false ↔ assigned = layers := by
  rw [decide_eq_false_iff_not]
  omega

/-- Where the layers are too many for the rooms, each tier takes all it has room for, and the
plan is greedy just if these are the exact counts. -/
theorem greedy_iff_countsExact (h : ¬ CpuOnly profile meshCapacityBytes)
    (hover : (rooms modelSizeBytes numLayers profile contextLength meshCapacityBytes).sum <
      numLayers.toNat) :
    let plan := calculateOffloadWithMesh modelSizeBytes numLayers profile contextLength
      meshCapacityBytes
    let perLayer := bytesPerLayer modelSizeBytes numLayers
    let budgets := tierBudgets profile contextLength meshCapacityBytes
    (budgets.vram < (plan.gpu + 1) * perLayer ∧ budgets.ram < (plan.cpu + 1) * perLayer ∧
        budgets.mesh < (plan.mesh + 1) * perLayer) ↔
      CountsExact modelSizeBytes numLayers profile contextLength meshCapacityBytes := by
  intro plan perLayer budgets
  have hfilled := (calculateOffloadWithMesh_eq_fill modelSizeBytes numLayers profile contextLength
    meshCapacityBytes h).1
  rw [fill_eq_self hover.le] at hfilled
  have hper : perLayer ≠ 0 := by
    intro hzero
    have hroom : numLayers.toNat ≤
        (rooms modelSizeBytes numLayers profile contextLength meshCapacityBytes).sum := by
      simp only [rooms, show bytesPerLayer modelSizeBytes numLayers = 0 from hzero,
        checkedDiv_zero, Option.getD_none, List.sum_cons]
      exact Nat.le_add_right _ _
    exact absurd hover (Nat.not_lt.mpr hroom)
  rw [rooms, checkedDiv_pos _ hper, narrowedRoom_pos numLayers _ hper] at hfilled
  obtain ⟨hgpu, hrest⟩ := List.cons.inj hfilled
  obtain ⟨hcpu, hrest⟩ := List.cons.inj hrest
  obtain ⟨hmesh, -⟩ := List.cons.inj hrest
  have hmeshRoom : plan.mesh = budgets.mesh / perLayer % 2 ^ 32 := by
    refine hmesh.trans ?_
    cases meshCapacityBytes with
    | none => exact (congrArg (· % 2 ^ 32) (Nat.zero_div perLayer)).symm
    | some meshCap => exact narrowedRoom_pos numLayers _ hper
  rw [lt_succ_mul_iff hper, lt_succ_mul_iff hper, lt_succ_mul_iff hper, hgpu, hcpu, hmeshRoom,
    le_mod_iff, Option.getD_some]
  exact and_congr_right fun _ => and_congr_left fun _ => le_mod_iff _

/-- **When the plan is complete.** The plan's counts are the exact ones, or they leave room
for every layer, or there is neither VRAM nor a mesh and nothing is counted. -/
theorem calculateOffloadWithMesh_complete_iff :
    PlanComplete
        (calculateOffloadWithMesh modelSizeBytes numLayers profile contextLength meshCapacityBytes)
        numLayers.toNat (bytesPerLayer modelSizeBytes numLayers)
        (tierBudgets profile contextLength meshCapacityBytes) ↔
      CpuOnly profile meshCapacityBytes ∨
        numLayers.toNat ≤
          (rooms modelSizeBytes numLayers profile contextLength meshCapacityBytes).sum ∨
        CountsExact modelSizeBytes numLayers profile contextLength meshCapacityBytes := by
  by_cases h : CpuOnly profile meshCapacityBytes
  · rw [calculateOffloadWithMesh_cpuOnly _ _ _ _ _ h]
    refine iff_of_true ⟨?_, ?_, fun hdisk => by cases hdisk⟩ (Or.inl h)
    · simp [OffloadPlan.tiers, OffloadPlan.gpu, OffloadPlan.cpu, OffloadPlan.mesh]
    · simp [OffloadPlan.tiers, OffloadPlan.gpu, OffloadPlan.cpu, OffloadPlan.mesh]
  obtain ⟨htiers, hdisk⟩ := calculateOffloadWithMesh_eq_fill modelSizeBytes numLayers profile
    contextLength meshCapacityBytes h
  rw [← htiers] at hdisk
  have hsum := congrArg List.sum htiers
  have hle := (hsum.trans_le (sum_fill_le _ _))
  rw [or_iff_right h]
  by_cases hroom : numLayers.toNat ≤
      (rooms modelSizeBytes numLayers profile contextLength meshCapacityBytes).sum
  · have hall := hsum.trans ((sum_fill_eq_iff _ _).mpr hroom)
    refine iff_of_true ⟨hle, ?_, ?_⟩ (Or.inl hroom)
    · rw [hdisk, decide_eq_false_iff_sum hle]
    · intro hflag
      rw [hdisk, hall] at hflag
      exact absurd (of_decide_eq_true hflag) (lt_irrefl _)
  · have hover := Nat.lt_of_not_le hroom
    have hleft : (calculateOffloadWithMesh modelSizeBytes numLayers profile contextLength
        meshCapacityBytes).diskMmap = true := by
      rw [hdisk, hsum, fill_eq_self hover.le]
      exact decide_eq_true hover
    rw [or_iff_right hroom]
    refine Iff.trans ?_ (greedy_iff_countsExact _ _ _ _ _ h hover)
    constructor
    · intro hcomplete
      exact hcomplete.greedy hleft
    · intro hgreedy
      refine ⟨hle, ?_, fun _ => hgreedy⟩
      rw [hdisk, decide_eq_false_iff_sum hle]

/-- A 32-bit count of layers takes no more than the memory it was counted for. -/
theorem narrowed_mul_le {budget perLayer assigned : ℕ} (hper : perLayer ≠ 0)
    (h : assigned ≤ narrowedRoom numLayers budget perLayer) : assigned * perLayer ≤ budget := by
  rw [narrowedRoom_pos numLayers budget hper] at h
  calc assigned * perLayer ≤ budget / perLayer * perLayer :=
        Nat.mul_le_mul_right perLayer (h.trans (Nat.mod_le _ _))
    _ ≤ budget := Nat.div_mul_le_self budget perLayer

/-- What is put into the rooms of the tiers fits into their memory. -/
theorem mul_le_of_le_rooms {gpu cpu mesh : ℕ}
    (h : List.Forall₂ (· ≤ ·) [gpu, cpu, mesh]
      (rooms modelSizeBytes numLayers profile contextLength meshCapacityBytes)) :
    let perLayer := bytesPerLayer modelSizeBytes numLayers
    gpu * perLayer ≤ usableVram profile contextLength ∧
      cpu * perLayer ≤ availableRam profile ∧
      mesh * perLayer ≤ meshCapacityBytes.elim 0 UInt64.toNat := by
  intro perLayer
  by_cases hper : perLayer = 0
  · rw [hper, Nat.mul_zero, Nat.mul_zero, Nat.mul_zero]
    exact ⟨Nat.zero_le _, Nat.zero_le _, Nat.zero_le _⟩
  · rw [rooms, List.forall₂_cons, List.forall₂_cons, List.forall₂_cons, checkedDiv_pos _ hper] at h
    obtain ⟨hgpu, hcpu, hmesh, -⟩ := h
    refine ⟨?_, narrowed_mul_le numLayers hper hcpu, ?_⟩
    · exact (Nat.mul_le_mul_right perLayer hgpu).trans (Nat.div_mul_le_self _ perLayer)
    · cases meshCapacityBytes with
      | none => exact (Nat.mul_le_mul_right perLayer hmesh).trans (Nat.zero_mul perLayer).le
      | some meshCap => exact narrowed_mul_le numLayers hper hmesh

/-- The layers on the graphics processors always fit. -/
theorem gpu_mul_le :
    (calculateOffloadWithMesh modelSizeBytes numLayers profile contextLength
        meshCapacityBytes).gpu * bytesPerLayer modelSizeBytes numLayers ≤
      (tierBudgets profile contextLength meshCapacityBytes).vram := by
  by_cases h : CpuOnly profile meshCapacityBytes
  · rw [calculateOffloadWithMesh_cpuOnly _ _ _ _ _ h]
    exact (Nat.zero_mul _).trans_le (Nat.zero_le _)
  · obtain ⟨htiers, -⟩ := calculateOffloadWithMesh_eq_fill modelSizeBytes numLayers profile
      contextLength meshCapacityBytes h
    obtain ⟨hgpu, -⟩ := mul_le_of_le_rooms modelSizeBytes numLayers profile contextLength
      meshCapacityBytes (htiers ▸ fill_le numLayers.toNat _)
    exact hgpu.trans (usableVram_le _ _ _)

/-- **When the plan respects the budgets.** It always does, except that with neither VRAM nor a
mesh it gives every layer to the machine's memory, whether they fit or not. -/
theorem calculateOffloadWithMesh_respects_iff :
    RespectsBudgets
        (calculateOffloadWithMesh modelSizeBytes numLayers profile contextLength meshCapacityBytes)
        numLayers.toNat (bytesPerLayer modelSizeBytes numLayers)
        (tierBudgets profile contextLength meshCapacityBytes) ↔
      ¬ (CpuOnly profile meshCapacityBytes ∧
        availableRam profile < numLayers.toNat * bytesPerLayer modelSizeBytes numLayers) := by
  by_cases h : CpuOnly profile meshCapacityBytes
  · rw [calculateOffloadWithMesh_cpuOnly _ _ _ _ _ h, not_and, Nat.not_lt]
    constructor
    · intro hrespects _
      exact hrespects.ram
    · intro hfits
      refine ⟨(Nat.zero_mul _).trans_le (Nat.zero_le _), hfits h,
        (Nat.zero_mul _).trans_le (Nat.zero_le _), ?_⟩
      intro hshort
      simp [OffloadPlan.tiers, OffloadPlan.gpu, OffloadPlan.cpu, OffloadPlan.mesh] at hshort
  · refine iff_of_true ?_ fun hfails => h hfails.1
    obtain ⟨htiers, hdisk⟩ := calculateOffloadWithMesh_eq_fill modelSizeBytes numLayers profile
      contextLength meshCapacityBytes h
    obtain ⟨-, hcpu, hmesh⟩ := mul_le_of_le_rooms modelSizeBytes numLayers profile contextLength
      meshCapacityBytes (htiers ▸ fill_le numLayers.toNat _)
    refine ⟨gpu_mul_le _ _ _ _ _, hcpu, hmesh, ?_⟩
    intro hshort
    rw [hdisk, ← htiers]
    exact decide_eq_true hshort

/-- In exact arithmetic the usable memory is 85% of what is available, rounded down. -/
theorem availableRam_exact (profile : HardwareProfile ℚ) :
    availableRam profile = profile.memory.availableBytes.toNat * 85 / 100 := by
  have hfloor : ⌊(profile.memory.availableBytes.toNat : ℚ) * (85 / 100)⌋ =
      ((profile.memory.availableBytes.toNat * 85 / 100 : ℕ) : ℤ) := by
    rw [← mul_div_assoc]
    exact_mod_cast Rat.floor_natCast_div_natCast (profile.memory.availableBytes.toNat * 85) 100
  have hbytes := profile.memory.availableBytes.toNat_lt
  change min ⌊(profile.memory.availableBytes.toNat : ℚ) * (85 / 100)⌋.toNat (2 ^ 64 - 1) = _
  rw [hfloor, Int.toNat_natCast]
  omega

/-! ## The split of a load -/

/-- The split that a load computes for a file, which it takes to have 32 layers. -/
def offloadFor (profile : HardwareProfile F) (modelSize contextLength : ℕ) : OffloadConfig :=
  (calculateOffload (.ofNat modelSize) 32 profile (.ofNat contextLength)).toOffloadConfig

/-- A load whose split is left to it asks for no more layers on the graphics processors than
their VRAM has room for. -/
theorem loadConfigFor_gpuLayers {surroundings : LoadSurroundings}
    (hsplit : surroundings.calculateOffload = offloadFor profile) {path : String}
    {config : LoadConfig} (hauto : config.offload.gpuLayers = none) {layers : ℕ}
    (hlayers : (Orchestrator.loadConfigFor surroundings path config).offload.gpuLayers =
      some layers) :
    layers * bytesPerLayer (.ofNat (surroundings.modelSize path)) 32 ≤
      (profile.gpus.map fun gpu => gpu.vramBytes.toNat).sum := by
  rw [Orchestrator.loadConfigFor] at hlayers
  split at hlayers
  · rw [hsplit] at hlayers
    have hgpu := gpu_mul_le (.ofNat (surroundings.modelSize path)) 32 profile
      (.ofNat config.contextLength) none
    have hplan : (calculateOffloadWithMesh (.ofNat (surroundings.modelSize path)) 32 profile
        (.ofNat config.contextLength) none).gpuLayers = some layers := hlayers
    rw [OffloadPlan.gpu, hplan] at hgpu
    exact hgpu.trans (Nat.sub_le _ _)
  · rw [hauto] at hlayers
    cases hlayers

/-! ## Machines on which the plan fails -/

/-- A machine with this VRAM and this much memory available. -/
def machineWith (vramBytes : List UInt64) (availableBytes : UInt64) : HardwareProfile ℚ where
  cpu := ⟨"cpu", 4, 8, [], 0⟩
  memory := ⟨availableBytes, availableBytes, 30⟩
  gpus := vramBytes.map fun bytes => ⟨"gpu", bytes, .vulkan, none⟩
  storage := ⟨0, 500⟩
  platform := ⟨"linux", "x86_64", false, .ac⟩

/-- Memory for 2^32 layers of one byte counts as memory for none. -/
theorem narrowed_plan_incomplete :
    ¬ PlanComplete (calculateOffloadWithMesh 100 100 (machineWith [1] 5052902702) 0 none) 100
      (bytesPerLayer 100 100) (tierBudgets (machineWith [1] 5052902702) 0 none) := by
  intro hcomplete
  have hgreedy := hcomplete.greedy (by decide +kernel)
  exact absurd hgreedy.2.1 (by decide +kernel)

/-- Without VRAM, a model of 8 GiB goes into a memory of 1 GiB. -/
theorem cpuOnly_plan_overfull :
    ¬ RespectsBudgets (calculateOffloadWithMesh 8589934592 32 (machineWith [] 1073741824) 4096 none)
      32 (bytesPerLayer 8589934592 32) (tierBudgets (machineWith [] 1073741824) 4096 none) := by
  intro hrespects
  exact absurd hrespects.ram (by decide +kernel)

end Offload

end HiveBear.Inference
