/-
# The model a swarm serves

A swarm serves the largest model that 85% of the capacity of its candidates can hold. The layers are
dealt out after that, and a candidate that the layers do not reach is no member of the swarm: its
capacity was counted and is not there.

So no larger model would fit the members, but the chosen one fits them only if it fits what is left.
-/

import HiveBear.Mesh.Swarm.Conservation

namespace HiveBear.Mesh.Formation

open IntervalTiling

variable {F : Type*} [FloatOps F] {config : FormationConfig F} {models : List ModelSizeClass}
  {swarmEligible : List (PeerInfo F)} {swarmIds : ℕ → SwarmId}

/-! ## The largest model -/

/-- The model takes at most 85% of this capacity. -/
def ModelSizeClass.FitsInto (model : ModelSizeClass) (capacityBytes : ℕ) : Prop :=
  100 * model.sizeBytes.toNat ≤ 85 * capacityBytes

instance (model : ModelSizeClass) (capacityBytes : ℕ) : Decidable (model.FitsInto capacityBytes) :=
  inferInstanceAs (Decidable (_ ≤ _))

/-- The model fits into this capacity, and no larger model of the list does. -/
structure LargestFitting (models : List ModelSizeClass) (capacityBytes : ℕ)
    (model : ModelSizeClass) : Prop where
  fits : model.FitsInto capacityBytes
  largest : ∀ other ∈ models, other.FitsInto capacityBytes → other.sizeBytes ≤ model.sizeBytes

variable (F) in
/-- The arithmetic finds 85% of a capacity without an error. -/
def ExactUsable : Prop :=
  ∀ capacityBytes : UInt64,
    FloatOps.truncU64 ((FloatOps.ofNat capacityBytes.toNat : F) * FloatOps.literal (85 / 100)) =
      85 * capacityBytes.toNat / 100

/-- The rationals do. -/
theorem exactUsable_rat : ExactUsable ℚ := by
  intro capacityBytes
  have hexact : ((FloatOps.ofNat capacityBytes.toNat : ℚ) * FloatOps.literal (85 / 100)) =
      ((85 * capacityBytes.toNat : ℕ) : ℚ) / ((100 : ℕ) : ℚ) := by
    change (capacityBytes.toNat : ℚ) * (85 / 100) = _
    push_cast
    ring
  have hlt := capacityBytes.toNat_lt
  rw [hexact]
  change min ⌊_⌋.toNat (2 ^ 64 - 1) = _
  rw [Rat.floor_natCast_div_natCast, ← Int.natCast_ediv, Int.toNat_natCast]
  omega

/-- Later models only ever replace smaller ones. -/
theorem le_of_foldl_laterMax {candidates : List ModelSizeClass} {best : Option ModelSizeClass}
    {model : ModelSizeClass} (h : candidates.foldl laterMax best = some model) :
    (∀ other, best = some other → other.sizeBytes ≤ model.sizeBytes) ∧
      ∀ other ∈ candidates, other.sizeBytes ≤ model.sizeBytes := by
  induction candidates generalizing best with
  | nil =>
      constructor
      · intro other hother
        rw [List.foldl_nil, hother] at h
        rw [Option.some_inj.mp h]
        exact UInt64.le_refl _
      · exact fun other hother => absurd hother List.not_mem_nil
  | cons candidate rest ih =>
      obtain ⟨hlater, hrest⟩ := ih h
      have hcandidate : candidate.sizeBytes ≤ model.sizeBytes ∧
          ∀ other, best = some other → other.sizeBytes ≤ model.sizeBytes := by
        cases best with
        | none => exact ⟨hlater candidate rfl, fun other hother => by cases hother⟩
        | some best =>
            rw [laterMax] at hlater
            split at hlater
            · rename_i hle
              have hmodel := hlater candidate rfl
              refine ⟨hmodel, fun other hother => ?_⟩
              cases hother
              exact UInt64.le_trans hle hmodel
            · rename_i hlt
              have hmodel := hlater best rfl
              have hle := UInt64.le_of_lt (UInt64.not_le.mp hlt)
              refine ⟨UInt64.le_trans hle hmodel, fun other hother => ?_⟩
              cases hother
              exact hmodel
      exact ⟨hcandidate.2, List.forall_mem_cons.mpr ⟨hcandidate.1, hrest⟩⟩

/-- The model chosen for a capacity is the largest that fits into it. -/
theorem largestFitting_of_bestModel (hexact : ExactUsable F) {capacityBytes : UInt64}
    {model : ModelSizeClass} (h : bestModelForCapacity F capacityBytes models = some model) :
    LargestFitting models capacityBytes.toNat model := by
  rw [bestModelForCapacity, hexact capacityBytes] at h
  have hfits : ∀ m : ModelSizeClass, decide (m.sizeBytes.toNat ≤ 85 * capacityBytes.toNat / 100) =
      true ↔ m.FitsInto capacityBytes.toNat := by
    intro m
    rw [decide_eq_true_eq, ModelSizeClass.FitsInto, Nat.le_div_iff_mul_le (by decide), Nat.mul_comm]
  have hmem := List.mem_filter.mp ((mem_of_foldl_laterMax h).resolve_right (by simp))
  refine ⟨(hfits model).mp hmem.2, fun other hother hother_fits => ?_⟩
  apply (le_of_foldl_laterMax h).2 other
  exact List.mem_filter.mpr ⟨hother, (hfits other).mpr hother_fits⟩

/-! ## The model of a group and of its swarm -/

/-- An accepted group has the model that was chosen for all of its candidates. -/
theorem model_of_accepted {assigned : ℕ → Bool} {i : ℕ} {group : Group F}
    (h : acceptedGroup config models swarmEligible assigned i = some group) :
    bestModelForCapacity F group.combinedCapacity models = some group.model ∧
      group.combinedCapacity = (group.sortedCandidates.map fun c => c.1.capacity).sum := by
  rw [acceptedGroup] at h
  split at h
  · cases h
  obtain ⟨peer, hpeer, h⟩ := Option.bind_eq_some_iff.mp h
  dsimp only at h
  split at h
  · cases h
  split at h
  · cases h
  obtain ⟨model, hmodel, h⟩ := Option.bind_eq_some_iff.mp h
  split at h
  · cases h
  cases h
  refine ⟨hmodel, ?_⟩
  dsimp only
  rw [((StableSort.perm_sortBy compareCandidates _).map fun c => c.1.capacity).sum_eq]

/-- The bytes that these candidates offer together. -/
def offered (candidates : List (Candidate F)) : ℕ :=
  (candidates.map fun c => c.1.exactCapacity).sum

/-- The candidates that the layers reach, when each gets what it asks for, strongest first. -/
def Group.reached (config : FormationConfig F) (group : Group F) : List (Candidate F) :=
  IntervalTiling.reached (group.demand config) group.model.totalLayers 0 group.sortedCandidates

theorem Group.served_eq_reached (config : FormationConfig F) (group : Group F) :
    group.served config = group.reached config :=
  deal_map_fst_eq_reached _ _ _ _

/-- The candidates that the layers reach can hold the model. -/
def Group.Holds (config : FormationConfig F) (group : Group F) : Prop :=
  group.model.FitsInto (offered (group.reached config))

instance (config : FormationConfig F) (group : Group F) : Decidable (group.Holds config) :=
  inferInstanceAs (Decidable (_ ≤ _))

section Group

variable {assigned : ℕ → Bool} {i : ℕ} {group : Group F} {swarmId : SwarmId}

/-- A formed swarm counts the capacity of the candidates that the layers reach. -/
theorem aggregate_groupSwarm (hfits : PeerInfo.CapacityFits swarmEligible)
    (hgroup : acceptedGroup config models swarmEligible assigned i = some group) :
    (groupSwarm config swarmEligible swarmId group).aggregateCapacityBytes.toNat =
      offered (group.reached config) := by
  have hserved := PeerInfo.toNat_sum_capacity (capacityFits_served hfits hgroup)
  have hcapacities := capacities_groupSwarm config swarmEligible swarmId group
  change ((groupSwarm config swarmEligible swarmId group).activeMembers.map
    SwarmMember.capacityBytes).sum.toNat = _
  rw [hcapacities, offered, ← group.served_eq_reached]
  rw [List.map_map, List.map_map] at hserved
  exact hserved

/-- No model of the list that is larger than the chosen one fits the members. -/
theorem largest_groupSwarm (hexact : ExactUsable F) (hfits : PeerInfo.CapacityFits swarmEligible)
    (hgroup : acceptedGroup config models swarmEligible assigned i = some group) :
    ∀ other ∈ models, other.FitsInto (offered (group.reached config)) →
      other.sizeBytes ≤ group.model.sizeBytes := by
  obtain ⟨hmodel, hcombined⟩ := model_of_accepted hgroup
  have hbest := largestFitting_of_bestModel hexact hmodel
  have hsorted := PeerInfo.toNat_sum_capacity (capacityFits_sortedCandidates hfits hgroup)
  rw [List.map_map, List.map_map] at hsorted
  have htotal : group.combinedCapacity.toNat = offered group.sortedCandidates := by
    rw [hcombined]
    exact hsorted
  have hsub : (group.reached config).Sublist group.sortedCandidates := by
    rw [← group.served_eq_reached]
    exact deal_sublist _ _ _ _
  have hle : offered (group.reached config) ≤ offered group.sortedCandidates :=
    (hsub.map fun c : Candidate F => c.1.exactCapacity).sum_le_sum fun _ _ => Nat.zero_le _
  intro other hother hreached
  apply hbest.largest other hother
  rw [htotal]
  exact le_trans hreached (Nat.mul_le_mul_left 85 hle)

/-- The swarm of a group serves the largest model that fits its members just if the candidates that
the layers reach can hold the model of the group. -/
theorem largestFitting_groupSwarm_iff (hexact : ExactUsable F)
    (hfits : PeerInfo.CapacityFits swarmEligible)
    (hgroup : acceptedGroup config models swarmEligible assigned i = some group) :
    LargestFitting models
        (groupSwarm config swarmEligible swarmId group).aggregateCapacityBytes.toNat group.model ↔
      group.Holds config := by
  rw [aggregate_groupSwarm hfits hgroup]
  exact ⟨fun h => h.fits, fun h => ⟨h, largest_groupSwarm hexact hfits hgroup⟩⟩

end Group

/-! ## All swarms -/

/-- The swarm was formed to serve this model, in one of the iterations. -/
def FormedFor (config : FormationConfig F) (models : List ModelSizeClass)
    (swarmEligible : List (PeerInfo F)) (swarmIds : ℕ → SwarmId) (swarm : SwarmDefinition F)
    (model : ModelSizeClass) : Prop :=
  ∃ i < swarmEligible.length, ∃ group,
    acceptedGroup config models swarmEligible
      (formLoop config models swarmEligible swarmIds i).assigned i = some group ∧
    swarm = groupSwarm config swarmEligible
      (swarmIds (formLoop config models swarmEligible swarmIds i).swarms.length) group ∧
    model = group.model

/-- The swarm is there for a model of the list, under its name, and that model is the largest one
that fits the capacity of the members. -/
structure ServesLargest (config : FormationConfig F) (models : List ModelSizeClass)
    (swarmEligible : List (PeerInfo F)) (swarmIds : ℕ → SwarmId) (swarm : SwarmDefinition F) :
    Prop where
  formed : ∃ model ∈ models, swarm.modelId = model.modelId ∧
    FormedFor config models swarmEligible swarmIds swarm model
  largest : ∀ model, FormedFor config models swarmEligible swarmIds swarm model →
    LargestFitting models swarm.aggregateCapacityBytes.toNat model

/-- **When the chosen model fits the swarm.** If no capacities overflow and the arithmetic finds 85%
of them exactly, then all swarms formed serve the largest model that fits their members if and only
if in every accepted group the candidates that the layers reach can hold the model. -/
theorem formed_swarms_serve_largest_iff {peers : List (PeerInfo F)} {result : FormationResult F}
    (hexact : ExactUsable F) (hfits : PeerInfo.CapacityFits peers)
    (h : formSwarms swarmIds peers config models = .ok result) :
    (∀ swarm ∈ result.swarms,
      ServesLargest config models (eligiblePeers config peers) swarmIds swarm) ↔
      ∀ i < (eligiblePeers config peers).length, ∀ group,
        acceptedGroup config models (eligiblePeers config peers)
          (formLoop config models (eligiblePeers config peers) swarmIds i).assigned i =
            some group →
        group.Holds config := by
  have heligible : PeerInfo.CapacityFits (eligiblePeers config peers) :=
    (hfits.sublist List.filter_sublist).perm (StableSort.perm_sortBy _ _)
  rw [formSwarms] at h
  split at h
  · rename_i hempty
    cases h
    rw [List.isEmpty_iff.mp hempty]
    constructor
    · exact fun _ i hi => absurd hi (Nat.not_lt_zero i)
    · exact fun _ swarm hswarm => absurd hswarm List.not_mem_nil
  cases h
  constructor
  · intro hserves i hi group hgroup
    have hswarm := hserves _ (mem_swarms_formLoop.mpr ⟨i, hi, group, hgroup, rfl⟩)
    have hlargest := hswarm.largest group.model ⟨i, hi, group, hgroup, rfl, rfl⟩
    exact (largestFitting_groupSwarm_iff hexact heligible hgroup).mp hlargest
  · intro hholds swarm hswarm
    constructor
    · obtain ⟨i, hi, group, hgroup, rfl⟩ := mem_swarms_formLoop.mp hswarm
      exact ⟨group.model, (Group.valid_of_accepted hgroup).model_mem, rfl,
        i, hi, group, hgroup, rfl, rfl⟩
    · rintro model ⟨i, hi, group, hgroup, rfl, rfl⟩
      exact (largestFitting_groupSwarm_iff hexact heligible hgroup).mpr (hholds i hi group hgroup)

/-- Two even peers serve the largest model that fits them if they can hold it. -/
theorem formed_swarms_serve_largest_iff_even_peers :
    ∃ result, formSwarms countedIds evenPeers defaultConfig [mistral] = .ok result ∧
      ((∀ swarm ∈ result.swarms, ServesLargest defaultConfig [mistral]
          (eligiblePeers defaultConfig evenPeers) countedIds swarm) ↔
        ∀ i < (eligiblePeers defaultConfig evenPeers).length, ∀ group,
          acceptedGroup defaultConfig [mistral] (eligiblePeers defaultConfig evenPeers)
            (formLoop defaultConfig [mistral] (eligiblePeers defaultConfig evenPeers)
              countedIds i).assigned i = some group →
          group.Holds defaultConfig) :=
  ⟨_, rfl, formed_swarms_serve_largest_iff exactUsable_rat (by decide) rfl⟩

/-- A model of 108 GiB with 32 layers. -/
def large : ModelSizeClass := ⟨"large-180b-q4_k_m", 108 * gb, 32⟩

/-- A peer of 126 GiB and one of 2 GiB can hold the model together. The layers go to the first one
alone, and alone it cannot. -/
theorem skewed_swarm_cannot_hold_model :
    ∃ result, formSwarms countedIds skewedPeers defaultConfig [large] = .ok result ∧
      PeerInfo.CapacityFits skewedPeers ∧
      ∃ swarm ∈ result.swarms, ¬ ServesLargest defaultConfig [large]
        (eligiblePeers defaultConfig skewedPeers) countedIds swarm := by
  refine ⟨_, rfl, by decide, ?_⟩
  have hcapacities : (formLoop defaultConfig [large] (eligiblePeers defaultConfig skewedPeers)
      countedIds (eligiblePeers defaultConfig skewedPeers).length).swarms.map
        SwarmDefinition.aggregateCapacityBytes = [126 * gb] := by decide +kernel
  have hone := hcapacities ▸ List.mem_singleton_self (126 * gb)
  obtain ⟨swarm, hswarm, hcapacity⟩ := List.mem_map.mp hone
  refine ⟨swarm, hswarm, fun hserves => ?_⟩
  obtain ⟨model, hmodel, -, hformed⟩ := hserves.formed
  have hfits := (hserves.largest model hformed).fits
  rw [List.mem_singleton.mp hmodel, hcapacity] at hfits
  exact absurd hfits (by decide)

end HiveBear.Mesh.Formation
