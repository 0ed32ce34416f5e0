/-
# The swarm-aware scheduler

The swarm-aware scheduler ranks only the peers within the configured hop
latency, keeps at most `max_pipeline_depth` of them, and pops peers from the end
of the ranking while the minimum stage size cannot be met. What is left is a
nonempty prefix of the ranking, and since the ranking is by capacity its first
peer has something to offer as soon as any peer does. From there the shared
assignment loop takes over.
-/

import HiveBear.Mesh.Scheduler.Assign

namespace HiveBear.Mesh

open IntervalTiling

/-- Swarm-aware scheduler that limits pipeline depth and optimizes for latency. -/
structure SwarmAwareScheduler (F : Type*) where
  /-- Maximum pipeline stages (network hops) allowed. -/
  maxPipelineDepth : ℕ
  /-- Minimum layers each stage must process. -/
  minLayersPerStage : ℕ
  /-- Maximum acceptable per-hop latency in ms (peers above this are excluded). -/
  maxHopLatencyMs : F

namespace SwarmAwareScheduler

variable {F : Type*} [FloatOps F]

/-- The default limits. -/
def new : SwarmAwareScheduler F where
  maxPipelineDepth := 4
  minLayersPerStage := 4
  maxHopLatencyMs := FloatOps.literal 50

variable (scheduler : SwarmAwareScheduler F)

/-- A peer's latency to the coordinator is acceptable; a missing latency counts
as 10 ms. -/
def withinHopLatency (peer : PeerInfo F) : Bool :=
  FloatOps.le (peer.latencyMs.getD (FloatOps.literal 10)) scheduler.maxHopLatencyMs

/-- How many of the first `count` ranked peers are left after popping from the
end until every stage can have its minimum number of layers. -/
def feasibleStages (totalLayers : ℕ) : ℕ → ℕ
  | 0 => 0
  | count + 1 =>
      if 1 < count + 1 ∧
          totalLayers < MachineWord.mulU32 scheduler.minLayersPerStage (count + 1) then
        feasibleStages totalLayers count
      else count + 1

/-- The peers that receive layers, in ranking order. -/
def selectStages (totalLayers : ℕ) (eligiblePeers : List (PeerInfo F)) : List (PeerInfo F) :=
  let rankedPeers := (StableSort.sortBy PeerInfo.compareByCapacity eligiblePeers).take
    scheduler.maxPipelineDepth
  let minTotalNeeded := MachineWord.mulU32 scheduler.minLayersPerStage
    (min rankedPeers.length scheduler.maxPipelineDepth)
  if totalLayers < minTotalNeeded ∧ 1 < rankedPeers.length then
    rankedPeers.take (scheduler.feasibleStages totalLayers rankedPeers.length)
  else rankedPeers

/-- Assign layers to the selected stages, then estimate steady-state latency. The
session identity is the freshly drawn one. -/
def plan (sessionId : Uuid) (modelId : String) (totalLayers : ℕ) (modelSizeBytes : UInt64)
    (peers : List (PeerInfo F)) : Except MeshError (InferencePlan F) :=
  if peers.isEmpty then .error (.scheduling "No peers available")
  else if totalLayers = 0 then .error (.scheduling "Model has 0 layers")
  else
    let bytesPerLayer := modelSizeBytes.toNat / totalLayers
    let eligiblePeers := peers.filter scheduler.withinHopLatency
    if eligiblePeers.isEmpty then .error (.scheduling "No peers with acceptable latency")
    else
      match assignProportionally scheduler.minLayersPerStage totalLayers bytesPerLayer
          (scheduler.selectStages totalLayers eligiblePeers) with
      | .error e => .error e
      | .ok assignments =>
          -- after warmup the stages overlap: slowest stage plus the last hop
          let maxStageComputeMs : F :=
            (assignments.map LayerAssignment.estimatedComputeMs).foldl FloatOps.max
              (FloatOps.literal 0)
          let lastHopMs : F :=
            (assignments.getLast?.map LayerAssignment.estimatedTransferMs).getD
              (FloatOps.literal 0)
          let estimatedLatencyMs := maxStageComputeMs + lastHopMs
          let estimatedThroughputTokS : F :=
            if FloatOps.lt (FloatOps.literal 0) estimatedLatencyMs then
              FloatOps.literal 1000 / estimatedLatencyMs
            else FloatOps.literal 0
          .ok ⟨sessionId, modelId, totalLayers, assignments, estimatedLatencyMs,
            estimatedThroughputTokS⟩

/-! ## The selected stages are a nonempty prefix of the ranking -/

omit [FloatOps F] in
/-- Popping stops at one peer. -/
theorem feasibleStages_pos (totalLayers : ℕ) {count : ℕ} (h : 0 < count) :
    0 < scheduler.feasibleStages totalLayers count := by
  induction count with
  | zero => exact absurd h (lt_irrefl 0)
  | succ count ih =>
      rw [feasibleStages]
      split
      · rename_i hpop
        exact ih (by omega)
      · exact Nat.succ_pos count

/-- Truncating and popping leave a nonempty prefix of the ranking, no longer than
the maximum depth. -/
theorem selectStages_eq_take (totalLayers : ℕ) (eligiblePeers : List (PeerInfo F))
    (hdepth : 0 < scheduler.maxPipelineDepth) :
    ∃ count, 0 < count ∧ count ≤ scheduler.maxPipelineDepth ∧
      scheduler.selectStages totalLayers eligiblePeers =
        (StableSort.sortBy PeerInfo.compareByCapacity eligiblePeers).take count := by
  simp only [selectStages]
  split
  · -- popped peers: the shorter of the two cuts decides
    rename_i hpop
    refine ⟨min (scheduler.feasibleStages totalLayers
      ((StableSort.sortBy PeerInfo.compareByCapacity eligiblePeers).take
        scheduler.maxPipelineDepth).length) scheduler.maxPipelineDepth, ?_, ?_, ?_⟩
    · exact lt_min (scheduler.feasibleStages_pos _ (lt_trans Nat.zero_lt_one hpop.2)) hdepth
    · exact min_le_right _ _
    · rw [List.take_take]
  · exact ⟨scheduler.maxPipelineDepth, hdepth, le_rfl, rfl⟩

/-- If some eligible peer has capacity, so do the selected stages together. -/
theorem sum_capacity_selectStages_ne_zero (totalLayers : ℕ) {eligiblePeers : List (PeerInfo F)}
    (hdepth : 0 < scheduler.maxPipelineDepth) (hfits : PeerInfo.CapacityFits eligiblePeers)
    {peer : PeerInfo F} (hmem : peer ∈ eligiblePeers) (hpos : 0 < peer.exactCapacity) :
    ((scheduler.selectStages totalLayers eligiblePeers).map PeerInfo.capacity).sum ≠ 0 := by
  have hne : eligiblePeers ≠ [] := List.ne_nil_of_mem hmem
  obtain ⟨count, hcount, _, hselect⟩ :=
    scheduler.selectStages_eq_take totalLayers eligiblePeers hdepth
  have hranked : PeerInfo.CapacityFits
      (StableSort.sortBy PeerInfo.compareByCapacity eligiblePeers) :=
    hfits.perm (StableSort.perm_sortBy _ _)
  rw [hselect]
  apply PeerInfo.sum_capacity_ne_zero (hranked.sublist (List.take_sublist count _))
  have hsorted := PeerInfo.pairwise_capacity_sortBy eligiblePeers
  have hpeer := (StableSort.mem_sortBy PeerInfo.compareByCapacity).mpr hmem
  -- the first peer of the ranking is in every nonempty prefix
  cases hlist : StableSort.sortBy PeerInfo.compareByCapacity eligiblePeers with
  | nil => exact absurd hlist (StableSort.sortBy_ne_nil _ hne)
  | cons best rest =>
      rw [hlist] at hsorted hpeer hranked
      obtain ⟨smaller, rfl⟩ : ∃ smaller, count = smaller + 1 := ⟨count - 1, by omega⟩
      have hbest : peer.capacity.toNat ≤ best.capacity.toNat := by
        rcases List.mem_cons.mp hpeer with rfl | hpeer
        · exact le_rfl
        · exact (List.pairwise_cons.mp hsorted).1 peer hpeer
      have hexact : ∀ p ∈ best :: rest, p.capacity.toNat = p.exactCapacity := by
        intro p hp
        apply PeerInfo.toNat_capacity
        have hsingle : p.exactCapacity ≤ ((best :: rest).map PeerInfo.exactCapacity).sum :=
          List.single_le_sum (fun _ _ => Nat.zero_le _) _ (List.mem_map_of_mem hp)
        exact lt_of_le_of_lt hsingle hranked
      have hle : peer.exactCapacity ≤ best.exactCapacity := by
        rwa [hexact peer hpeer, hexact best List.mem_cons_self] at hbest
      rw [List.take_succ_cons, List.map_cons, List.sum_cons]
      omega

/-! ## Plans -/

variable {scheduler} {sessionId : Uuid} {modelId : String} {totalLayers : ℕ}
  {modelSizeBytes : UInt64} {peers : List (PeerInfo F)} {result : InferencePlan F}

/-- A plan that is returned carries the assignments of the shared loop over the
selected stages. -/
theorem plan_eq_ok
    (h : scheduler.plan sessionId modelId totalLayers modelSizeBytes peers = .ok result) :
    peers.filter scheduler.withinHopLatency ≠ [] ∧ 0 < totalLayers ∧
      result.totalLayers = totalLayers ∧
      assignProportionally scheduler.minLayersPerStage totalLayers
        (modelSizeBytes.toNat / totalLayers)
        (scheduler.selectStages totalLayers (peers.filter scheduler.withinHopLatency)) =
          .ok result.assignments := by
  rw [plan] at h
  split at h
  · cases h
  split at h
  · cases h
  rename_i htotal
  dsimp only at h
  split at h
  · cases h
  rename_i hne
  split at h
  · cases h
  · rename_i assignments hassign
    injection h with h
    subst h
    exact ⟨by simpa using hne, Nat.pos_of_ne_zero htotal, rfl, hassign⟩

/-- Only a scheduler that allows a stage at all returns a plan. -/
theorem maxPipelineDepth_pos_of_plan
    (h : scheduler.plan sessionId modelId totalLayers modelSizeBytes peers = .ok result) :
    0 < scheduler.maxPipelineDepth := by
  obtain ⟨_, _, _, hassign⟩ := plan_eq_ok h
  by_contra hdepth
  have hnone : scheduler.selectStages totalLayers (peers.filter scheduler.withinHopLatency) =
      [] := by
    simp [selectStages, Nat.eq_zero_of_not_pos hdepth]
  rw [hnone] at hassign
  cases hassign

/-- The peers of a plan, in stage order, are a sublist of the selected stages. -/
theorem peerIds_of_plan
    (h : scheduler.plan sessionId modelId totalLayers modelSizeBytes peers = .ok result) :
    (result.assignments.map LayerAssignment.peerId).Sublist
      ((scheduler.selectStages totalLayers
        (peers.filter scheduler.withinHopLatency)).map PeerInfo.nodeId) := by
  obtain ⟨_, _, _, hassign⟩ := plan_eq_ok h
  exact peerIds_of_assignProportionally hassign

/-- Every plan the scheduler returns for distinct peers is well formed. -/
theorem wellFormed_of_plan (hdepth : 0 < scheduler.maxPipelineDepth)
    (hdistinct : (peers.map PeerInfo.nodeId).Nodup)
    (h : scheduler.plan sessionId modelId totalLayers modelSizeBytes peers = .ok result) :
    result.WellFormed := by
  obtain ⟨hne, _, htotal, hassign⟩ := plan_eq_ok h
  obtain ⟨count, hcount, _, hselect⟩ :=
    scheduler.selectStages_eq_take totalLayers (peers.filter scheduler.withinHopLatency) hdepth
  rw [hselect] at hassign
  have hranked := StableSort.sortBy_ne_nil PeerInfo.compareByCapacity hne
  refine ⟨?_, ?_⟩
  · rw [htotal]
    apply tiles_of_assignProportionally _ hassign
    rw [ne_eq, List.take_eq_nil_iff, not_or]
    exact ⟨hcount.ne', hranked⟩
  · have heligible := ((List.take_sublist count
      (StableSort.sortBy PeerInfo.compareByCapacity
        (peers.filter scheduler.withinHopLatency))).map PeerInfo.nodeId)
    apply ((peerIds_of_assignProportionally hassign).trans heligible).nodup
    have hperm := (StableSort.perm_sortBy PeerInfo.compareByCapacity
      (peers.filter scheduler.withinHopLatency)).map PeerInfo.nodeId
    rw [hperm.nodup_iff]
    exact (List.filter_sublist.map PeerInfo.nodeId).nodup hdistinct

/-- A plan uses only peers within the hop latency. -/
theorem peer_of_plan (hdepth : 0 < scheduler.maxPipelineDepth)
    (h : scheduler.plan sessionId modelId totalLayers modelSizeBytes peers = .ok result)
    {a : LayerAssignment F} (ha : a ∈ result.assignments) :
    ∃ peer ∈ peers, peer.nodeId = a.peerId ∧ scheduler.withinHopLatency peer = true := by
  obtain ⟨count, _, _, hselect⟩ :=
    scheduler.selectStages_eq_take totalLayers (peers.filter scheduler.withinHopLatency) hdepth
  have hmem := (peerIds_of_plan h).subset (List.mem_map_of_mem ha)
  rw [hselect] at hmem
  obtain ⟨peer, hpeer, hid⟩ := List.mem_map.mp hmem
  have heligible := (StableSort.mem_sortBy _).mp (List.mem_of_mem_take hpeer)
  obtain ⟨hpeers, hlatency⟩ := List.mem_filter.mp heligible
  exact ⟨peer, hpeers, hid, hlatency⟩

/-- A plan has at most `max_pipeline_depth` stages. -/
theorem length_assignments_le (hdepth : 0 < scheduler.maxPipelineDepth)
    (h : scheduler.plan sessionId modelId totalLayers modelSizeBytes peers = .ok result) :
    result.assignments.length ≤ scheduler.maxPipelineDepth := by
  obtain ⟨count, _, hcount, hselect⟩ :=
    scheduler.selectStages_eq_take totalLayers (peers.filter scheduler.withinHopLatency) hdepth
  have hlength := (peerIds_of_plan h).length_le
  rw [List.length_map, List.length_map, hselect, List.length_take] at hlength
  exact le_trans hlength (le_trans (min_le_left _ _) hcount)

/-- Planning succeeds as soon as one peer within the hop latency has capacity. -/
theorem exists_plan (sessionId : Uuid) (modelId : String) (modelSizeBytes : UInt64)
    (hdepth : 0 < scheduler.maxPipelineDepth) (htotal : 0 < totalLayers)
    (hfits : PeerInfo.CapacityFits peers) {peer : PeerInfo F} (hmem : peer ∈ peers)
    (hlatency : scheduler.withinHopLatency peer = true) (hcapacity : 0 < peer.exactCapacity) :
    ∃ result, scheduler.plan sessionId modelId totalLayers modelSizeBytes peers =
      .ok result := by
  have heligible : peer ∈ peers.filter scheduler.withinHopLatency :=
    List.mem_filter.mpr ⟨hmem, hlatency⟩
  have hne : peers.filter scheduler.withinHopLatency ≠ [] := List.ne_nil_of_mem heligible
  have hsum := scheduler.sum_capacity_selectStages_ne_zero totalLayers hdepth
    (hfits.sublist List.filter_sublist) heligible hcapacity
  have hselected : scheduler.selectStages totalLayers
      (peers.filter scheduler.withinHopLatency) ≠ [] := by
    intro hnil
    rw [hnil] at hsum
    exact hsum rfl
  have hassigned : ∃ assignments, assignProportionally scheduler.minLayersPerStage totalLayers
      (modelSizeBytes.toNat / totalLayers)
      (scheduler.selectStages totalLayers (peers.filter scheduler.withinHopLatency)) =
        .ok assignments :=
    assignProportionally_eq_ok hselected hsum
  obtain ⟨assignments, hassign⟩ := hassigned
  have hpeers : peers ≠ [] := List.ne_nil_of_mem hmem
  rw [plan, if_neg (by simpa using hpeers), if_neg htotal.ne']
  dsimp only
  rw [if_neg (by simpa using hne)]
  simp only [hassign]
  exact ⟨_, rfl⟩

/-- **The swarm-aware partition.** If one peer within the hop latency has
capacity, planning succeeds for every float arithmetic. The plan uses only peers
within the hop latency, has at most `max_pipeline_depth` stages, and its
nonempty consecutive ranges tile the model, each on a distinct peer. -/
theorem swarm_aware_plan_partitions (sessionId : Uuid) (modelId : String) (modelSizeBytes : UInt64)
    (hdepth : 0 < scheduler.maxPipelineDepth) (htotal : 0 < totalLayers)
    (hdistinct : (peers.map PeerInfo.nodeId).Nodup) (hfits : PeerInfo.CapacityFits peers)
    (hcapacity : ∃ peer ∈ peers,
      scheduler.withinHopLatency peer = true ∧ 0 < peer.exactCapacity) :
    ∃ result, scheduler.plan sessionId modelId totalLayers modelSizeBytes peers = .ok result ∧
      (∀ a ∈ result.assignments, ∃ peer ∈ peers, peer.nodeId = a.peerId ∧
        scheduler.withinHopLatency peer = true) ∧
      result.assignments.length ≤ scheduler.maxPipelineDepth ∧
      Tiles 0 (result.assignments.map LayerAssignment.layerRange) totalLayers ∧
      (result.assignments.map LayerAssignment.peerId).Nodup := by
  obtain ⟨peer, hmem, hlatency, hpos⟩ := hcapacity
  obtain ⟨result, h⟩ := exists_plan sessionId modelId modelSizeBytes hdepth htotal hfits
    hmem hlatency hpos
  have hwellFormed := wellFormed_of_plan hdepth hdistinct h
  have htiles := hwellFormed.tiles
  rw [(plan_eq_ok h).2.2.1] at htiles
  exact ⟨result, h, fun a ha => peer_of_plan hdepth h ha, length_assignments_le hdepth h,
    htiles, hwellFormed.distinct⟩

/-- One near peer, one that is too far away, and one with nothing to offer. -/
theorem swarm_aware_plan_partitions_near_and_far :
    ∃ result, (new : SwarmAwareScheduler ℚ).plan 7 "test-model" 32 1024
        [PeerInfo.ramOnly 1 5, { PeerInfo.ramOnly 2 9 with latencyMs := some 80 },
          { PeerInfo.ramOnly 3 0 with latencyMs := none }] = .ok result ∧
      (∀ a ∈ result.assignments, ∃ peer ∈ [PeerInfo.ramOnly 1 5,
          { PeerInfo.ramOnly 2 9 with latencyMs := some 80 },
          { PeerInfo.ramOnly 3 0 with latencyMs := none }],
        peer.nodeId = a.peerId ∧ (new : SwarmAwareScheduler ℚ).withinHopLatency peer = true) ∧
      result.assignments.length ≤ (new : SwarmAwareScheduler ℚ).maxPipelineDepth ∧
      Tiles 0 (result.assignments.map LayerAssignment.layerRange) 32 ∧
      (result.assignments.map LayerAssignment.peerId).Nodup :=
  swarm_aware_plan_partitions 7 "test-model" 1024 (by decide) (by decide) (by decide)
    (by decide)
    ⟨PeerInfo.ramOnly 1 5, List.mem_cons_self, by decide, by decide⟩

end SwarmAwareScheduler

end HiveBear.Mesh
