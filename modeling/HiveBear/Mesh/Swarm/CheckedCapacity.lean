/-
# Capacities that are added with care

VRAM and RAM are what a peer says they are, and the schedulers and the formation of swarms add them
up as they come. Here the additions are checked: a function has no result where one of its additions
would overflow, and the result of the unchecked one otherwise.

The greedy scheduler adds up all peers, so it is the first to overflow; the others add up some of
them.
-/

import HiveBear.Library.PartialMaps
import HiveBear.Library.Words
import HiveBear.Mesh.Scheduler.Greedy
import HiveBear.Mesh.Scheduler.SwarmAware
import HiveBear.Mesh.Swarm.Conservation

namespace HiveBear.Mesh

open IntervalTiling MachineWord PartialMaps

variable {F : Type*}

namespace PeerInfo

/-- VRAM and RAM, added with a check. -/
def checkedCapacity (peer : PeerInfo F) : Option UInt64 :=
  checkedAdd peer.availableVramBytes peer.availableMemoryBytes

/-- The total capacity of some peers, with all additions checked. -/
def checkedTotal (peers : List (PeerInfo F)) : Option UInt64 :=
  (peers.mapM checkedCapacity).bind checkedSum

/-- Sort by a comparison that adds up what it compares. A single peer is compared with nobody. -/
def checkedSort (cmp : PeerInfo F → PeerInfo F → Ordering) (peers : List (PeerInfo F)) :
    Option (List (PeerInfo F)) :=
  if peers.length < 2 then some (StableSort.sortBy cmp peers)
  else (peers.mapM checkedCapacity).map fun _ => StableSort.sortBy cmp peers

/-- The capacity of each of these peers can be added up. -/
def EachFits (peers : List (PeerInfo F)) : Prop := ∀ peer ∈ peers, peer.exactCapacity < 2 ^ 64

theorem CapacityFits.eachFits {peers : List (PeerInfo F)} (h : CapacityFits peers) :
    EachFits peers := by
  intro peer hpeer
  apply lt_of_le_of_lt _ h
  exact List.single_le_sum (fun _ _ => Nat.zero_le _) _ (List.mem_map_of_mem hpeer)

theorem checkedCapacity_of_lt {peer : PeerInfo F} (h : peer.exactCapacity < 2 ^ 64) :
    peer.checkedCapacity = some peer.capacity := if_pos h

/-- All capacities are found just if each can be added up. -/
theorem mapM_checkedCapacity {peers : List (PeerInfo F)} (h : EachFits peers) :
    peers.mapM checkedCapacity = some (peers.map capacity) :=
  mapM_eq_map fun peer hpeer => checkedCapacity_of_lt (h peer hpeer)

theorem eachFits_of_mapM {peers : List (PeerInfo F)} {capacities : List UInt64}
    (h : peers.mapM checkedCapacity = some capacities) : EachFits peers := by
  intro peer hpeer
  obtain ⟨capacity, hcapacity⟩ := exists_of_mem_items h hpeer
  rw [checkedCapacity, checkedAdd] at hcapacity
  split at hcapacity
  · assumption
  · cases hcapacity

/-- Capacities in range are added up. -/
theorem checkedSum_capacity {peers : List (PeerInfo F)} (hfits : CapacityFits peers) :
    checkedSum (peers.map capacity) = some (peers.map capacity).sum := by
  rw [checkedSum_eq, map_toNat_capacity hfits]
  exact if_pos hfits

/-- Some peers have a total capacity just if the exact one is in range. -/
theorem checkedTotal_isSome_iff (peers : List (PeerInfo F)) :
    (checkedTotal peers).isSome ↔ CapacityFits peers := by
  constructor
  · intro hsome
    obtain ⟨total, htotal⟩ := Option.isSome_iff_exists.mp hsome
    obtain ⟨capacities, hcapacities, hsum⟩ := Option.bind_eq_some_iff.mp htotal
    have heach := eachFits_of_mapM hcapacities
    rw [mapM_checkedCapacity heach] at hcapacities
    cases hcapacities
    rw [checkedSum_eq] at hsum
    split at hsum
    · rename_i hfits
      have hexact : (peers.map capacity).map UInt64.toNat = peers.map exactCapacity := by
        rw [List.map_map]
        exact List.map_congr_left fun peer hpeer => toNat_capacity (heach peer hpeer)
      rwa [hexact] at hfits
    · cases hsum
  · intro hfits
    rw [checkedTotal, mapM_checkedCapacity hfits.eachFits, Option.bind_some,
      checkedSum_capacity hfits]
    rfl

theorem checkedSort_of_eachFits {peers : List (PeerInfo F)} (h : EachFits peers)
    (cmp : PeerInfo F → PeerInfo F → Ordering) :
    checkedSort cmp peers = some (StableSort.sortBy cmp peers) := by
  rw [checkedSort]
  split
  · rfl
  · rw [mapM_checkedCapacity h]
    rfl

end PeerInfo

open PeerInfo

variable [FloatOps F]

/-! ## The schedulers -/

namespace GreedyScheduler

/-- Planning with checked additions. The loop adds up the same pairs as the sum before it. -/
def planChecked (sessionId : Uuid) (modelId : String) (totalLayers : ℕ) (modelSizeBytes : UInt64)
    (peers : List (PeerInfo F)) : Option (Except MeshError (InferencePlan F)) :=
  let planned := plan sessionId modelId totalLayers modelSizeBytes peers
  if peers.isEmpty then some planned
  else if totalLayers = 0 then some planned
  else
    (checkedSort PeerInfo.compareByCapacity peers).bind fun rankedPeers =>
      (checkedTotal rankedPeers).map fun _ => planned

/-- Planning does not overflow just if there is nothing to plan or all capacities together are in
range. -/
theorem planChecked_isSome_iff (sessionId : Uuid) (modelId : String) (totalLayers : ℕ)
    (modelSizeBytes : UInt64) (peers : List (PeerInfo F)) :
    (planChecked sessionId modelId totalLayers modelSizeBytes peers).isSome ↔
      totalLayers = 0 ∨ CapacityFits peers := by
  rw [planChecked]
  split
  · rename_i hempty
    rw [List.isEmpty_iff.mp hempty]
    exact iff_of_true rfl (Or.inr (Nat.two_pow_pos 64))
  split
  · rename_i htotal
    exact iff_of_true rfl (Or.inl htotal)
  rename_i htotal
  rw [or_iff_right htotal]
  have hperm := StableSort.perm_sortBy PeerInfo.compareByCapacity peers
  constructor
  · intro hsome
    obtain ⟨planned, hplanned⟩ := Option.isSome_iff_exists.mp hsome
    obtain ⟨ranked, hranked, hplanned⟩ := Option.bind_eq_some_iff.mp hplanned
    obtain ⟨total, htotal, -⟩ := Option.map_eq_some_iff.mp hplanned
    have hsorted : ranked = StableSort.sortBy PeerInfo.compareByCapacity peers := by
      rw [checkedSort] at hranked
      split at hranked
      · exact (Option.some_inj.mp hranked).symm
      · obtain ⟨_, _, hranked⟩ := Option.map_eq_some_iff.mp hranked
        exact hranked.symm
    have hfits := (checkedTotal_isSome_iff ranked).mp (by rw [htotal]; rfl)
    rw [hsorted] at hfits
    exact hfits.perm hperm.symm
  · intro hfits
    rw [checkedSort_of_eachFits hfits.eachFits]
    obtain ⟨total, htotal⟩ := Option.isSome_iff_exists.mp
      ((checkedTotal_isSome_iff _).mpr (hfits.perm hperm))
    rw [Option.bind_some, htotal]
    rfl

end GreedyScheduler

namespace SwarmAwareScheduler

/-- Planning with checked additions. The loop adds up the same pairs as the sum before it. -/
def planChecked (scheduler : SwarmAwareScheduler F) (sessionId : Uuid) (modelId : String)
    (totalLayers : ℕ) (modelSizeBytes : UInt64) (peers : List (PeerInfo F)) :
    Option (Except MeshError (InferencePlan F)) :=
  let planned := scheduler.plan sessionId modelId totalLayers modelSizeBytes peers
  if peers.isEmpty then some planned
  else if totalLayers = 0 then some planned
  else
    let eligiblePeers := peers.filter scheduler.withinHopLatency
    if eligiblePeers.isEmpty then some planned
    else
      (checkedSort PeerInfo.compareByCapacity eligiblePeers).bind fun _ =>
        (checkedTotal (scheduler.selectStages totalLayers eligiblePeers)).map fun _ => planned

/-- The selected stages are some of the eligible peers. -/
theorem capacityFits_selectStages {scheduler : SwarmAwareScheduler F} {totalLayers : ℕ}
    {eligiblePeers : List (PeerInfo F)} (hfits : CapacityFits eligiblePeers) :
    CapacityFits (scheduler.selectStages totalLayers eligiblePeers) := by
  have hranked := hfits.perm (StableSort.perm_sortBy PeerInfo.compareByCapacity eligiblePeers)
  rw [selectStages]
  split
  · exact (hranked.sublist (List.take_sublist _ _)).sublist (List.take_sublist _ _)
  · exact hranked.sublist (List.take_sublist _ _)

theorem planChecked_of_capacityFits (scheduler : SwarmAwareScheduler F) (sessionId : Uuid)
    (modelId : String) (totalLayers : ℕ) (modelSizeBytes : UInt64) {peers : List (PeerInfo F)}
    (hfits : CapacityFits peers) :
    scheduler.planChecked sessionId modelId totalLayers modelSizeBytes peers =
      some (scheduler.plan sessionId modelId totalLayers modelSizeBytes peers) := by
  have heligible : CapacityFits (peers.filter scheduler.withinHopLatency) :=
    hfits.sublist List.filter_sublist
  obtain ⟨total, htotal⟩ := Option.isSome_iff_exists.mp
    ((checkedTotal_isSome_iff _).mpr
      (@capacityFits_selectStages F _ scheduler totalLayers _ heligible))
  rw [planChecked]
  split
  · rfl
  split
  · rfl
  dsimp only
  split
  · rfl
  · rw [checkedSort_of_eachFits heligible.eachFits, htotal]
    rfl

end SwarmAwareScheduler

/-! ## The formation of swarms -/

namespace Formation

variable (config : FormationConfig F) (models : List ModelSizeClass)
  (swarmEligible : List (PeerInfo F)) (swarmIds : ℕ → SwarmId)

/-- One iteration of the formation loop with checked additions: the combined capacity of the
candidates, and the aggregate capacity of the swarm they form. -/
def formStepChecked (state : FormationState F) (i : ℕ) : Option (FormationState F) :=
  let formed := formStep config models swarmEligible swarmIds state i
  if state.assigned i then some formed
  else
    match swarmEligible[i]? with
    | none => some formed
    | some peer =>
        let candidates := gatherCandidates (buildLatencyMatrix swarmEligible) config state.assigned i
          [(peer, i)] swarmEligible.zipIdx
        if candidates.length < minSwarmSize then some formed
        else
          (checkedTotal (candidates.map Prod.fst)).bind fun _ =>
            match acceptedGroup config models swarmEligible state.assigned i with
            | none => some formed
            | some group =>
                let swarm := groupSwarm config swarmEligible (swarmIds state.swarms.length) group
                (checkedSum (swarm.activeMembers.map SwarmMember.capacityBytes)).map fun _ => formed

/-- The formation of swarms with checked additions. All capacities are added up to classify the
peers; sorting and the shares add up the same pairs. -/
def formSwarmsChecked (peers : List (PeerInfo F)) :
    Option (Except MeshError (FormationResult F)) :=
  let formed := formSwarms swarmIds peers config models
  if peers.isEmpty then some formed
  else
    (peers.mapM checkedCapacity).bind fun _ =>
      let swarmEligible := eligiblePeers config peers
      ((List.range swarmEligible.length).foldlM
        (formStepChecked config models swarmEligible swarmIds) ⟨fun _ => false, []⟩).map
          fun _ => formed

variable {config models swarmEligible swarmIds}

/-- No iteration overflows. -/
theorem formStepChecked_of_capacityFits (hfits : CapacityFits swarmEligible)
    (state : FormationState F) (i : ℕ) :
    formStepChecked config models swarmEligible swarmIds state i =
      some (formStep config models swarmEligible swarmIds state i) := by
  rw [formStepChecked]
  dsimp only
  split
  · rfl
  split
  · rfl
  rename_i peer hpeer
  split
  · rfl
  -- the candidates are different peers, so their sum is in range
  have hcandidates : CapacityFits ((gatherCandidates (buildLatencyMatrix swarmEligible) config
      state.assigned i [(peer, i)] swarmEligible.zipIdx).map Prod.fst) := by
    apply capacityFits_candidates hfits
    · apply nodup_gatherCandidates _ (List.nodup_zipIdx_map_snd swarmEligible)
      · intro c hc newcomer _ hsame
        rw [← hsame, List.mem_singleton.mp hc]
      · exact List.nodup_singleton i
    · intro c hc
      rcases mem_gatherCandidates hc with hfirst | hnewcomer
      · rw [List.mem_singleton.mp hfirst]
        exact hpeer
      · exact List.mem_zipIdx_iff_getElem?.mp hnewcomer
  obtain ⟨total, htotal⟩ :=
    Option.isSome_iff_exists.mp ((checkedTotal_isSome_iff _).mpr hcandidates)
  rw [htotal, Option.bind_some]
  split
  · rfl
  · rename_i group hgroup
    have hmembers := checkedSum_capacity (capacityFits_served hfits hgroup)
    rw [List.map_map] at hmembers
    rw [capacities_groupSwarm]
    change (checkedSum ((group.served config).map (capacity ∘ Prod.fst))).map _ = _
    rw [hmembers]
    rfl

/-- The formation loop does what it does without the checks. -/
theorem foldlM_formStepChecked (hfits : CapacityFits swarmEligible) (indices : List ℕ)
    (state : FormationState F) :
    indices.foldlM (formStepChecked config models swarmEligible swarmIds) state =
      some (indices.foldl (formStep config models swarmEligible swarmIds) state) := by
  induction indices generalizing state with
  | nil => rfl
  | cons i indices ih =>
      rw [List.foldlM_cons, formStepChecked_of_capacityFits hfits]
      exact ih _

theorem formSwarmsChecked_of_capacityFits {peers : List (PeerInfo F)}
    (hfits : CapacityFits peers) :
    formSwarmsChecked config models swarmIds peers =
      some (formSwarms swarmIds peers config models) := by
  have heligible : CapacityFits (eligiblePeers config peers) :=
    (hfits.sublist List.filter_sublist).perm (StableSort.perm_sortBy _ _)
  rw [formSwarmsChecked]
  dsimp only
  split
  · rfl
  · rw [mapM_checkedCapacity hfits.eachFits, Option.bind_some, foldlM_formStepChecked heligible]
    rfl

end Formation

end HiveBear.Mesh
