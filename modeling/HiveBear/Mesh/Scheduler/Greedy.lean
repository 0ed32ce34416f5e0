/-
# The greedy scheduler

The greedy scheduler ranks every peer by capacity and hands out the layers in
proportion to it. Its plan tiles the model whatever the float operations return:
the rounded shares only decide where the cuts fall.
-/

import HiveBear.Mesh.Scheduler.Assign

namespace HiveBear.Mesh.GreedyScheduler

open IntervalTiling

variable {F : Type*} [FloatOps F]

/-- Assign layers proportionally to each peer's available memory, then estimate
pipeline latency. The session identity is the freshly drawn one. -/
def plan (sessionId : Uuid) (modelId : String) (totalLayers : ℕ) (modelSizeBytes : UInt64)
    (peers : List (PeerInfo F)) : Except MeshError (InferencePlan F) :=
  if peers.isEmpty then .error (.scheduling "No peers available")
  else if totalLayers = 0 then .error (.scheduling "Model has 0 layers")
  else
    let bytesPerLayer := modelSizeBytes.toNat / totalLayers
    let rankedPeers := StableSort.sortBy PeerInfo.compareByCapacity peers
    match assignProportionally 1 totalLayers bytesPerLayer rankedPeers with
    | .error e => .error e
    | .ok assignments =>
        -- pipeline latency is the sum of all stage costs
        let estimatedLatencyMs : F := assignments.foldl
          (fun sum a => sum + (a.estimatedComputeMs + a.estimatedTransferMs))
          (FloatOps.literal 0)
        let estimatedThroughputTokS : F :=
          if FloatOps.lt (FloatOps.literal 0) estimatedLatencyMs then
            FloatOps.literal 1000 / estimatedLatencyMs
          else FloatOps.literal 0
        .ok ⟨sessionId, modelId, totalLayers, assignments, estimatedLatencyMs,
          estimatedThroughputTokS⟩

variable {sessionId : Uuid} {modelId : String} {totalLayers : ℕ} {modelSizeBytes : UInt64}
  {peers : List (PeerInfo F)}

/-- A plan that is returned carries the assignments of the shared loop over the
ranked peers. -/
theorem plan_eq_ok {result : InferencePlan F}
    (h : plan sessionId modelId totalLayers modelSizeBytes peers = .ok result) :
    peers ≠ [] ∧ 0 < totalLayers ∧ result.sessionId = sessionId ∧
      result.totalLayers = totalLayers ∧
      assignProportionally 1 totalLayers (modelSizeBytes.toNat / totalLayers)
        (StableSort.sortBy PeerInfo.compareByCapacity peers) = .ok result.assignments := by
  rw [plan] at h
  split at h
  · cases h
  rename_i hne
  split at h
  · cases h
  rename_i htotal
  dsimp only at h
  split at h
  · cases h
  · rename_i assignments hassign
    injection h with h
    subst h
    exact ⟨by simpa using hne, Nat.pos_of_ne_zero htotal, rfl, rfl, hassign⟩

/-- Every plan the scheduler returns for distinct peers is well formed. -/
theorem wellFormed_of_plan {result : InferencePlan F}
    (hdistinct : (peers.map PeerInfo.nodeId).Nodup)
    (h : plan sessionId modelId totalLayers modelSizeBytes peers = .ok result) :
    result.WellFormed := by
  obtain ⟨hne, _, _, htotal, hassign⟩ := plan_eq_ok h
  have htiles := tiles_of_assignProportionally
    (StableSort.sortBy_ne_nil PeerInfo.compareByCapacity hne) hassign
  have hranked := (StableSort.perm_sortBy PeerInfo.compareByCapacity peers).map PeerInfo.nodeId
  rw [← htotal] at htiles
  exact ⟨htiles, (peerIds_of_assignProportionally hassign).nodup (hranked.nodup_iff.mpr hdistinct)⟩

/-- A plan uses only peers it was given. -/
theorem peer_of_plan {result : InferencePlan F}
    (h : plan sessionId modelId totalLayers modelSizeBytes peers = .ok result)
    {a : LayerAssignment F} (ha : a ∈ result.assignments) :
    ∃ peer ∈ peers, peer.nodeId = a.peerId := by
  obtain ⟨_, _, _, _, hassign⟩ := plan_eq_ok h
  have hmem := (peerIds_of_assignProportionally hassign).subset (List.mem_map_of_mem ha)
  obtain ⟨peer, hpeer, hid⟩ := List.mem_map.mp hmem
  exact ⟨peer, (StableSort.mem_sortBy _).mp hpeer, hid⟩

/-- Planning succeeds for every list of peers with some capacity. -/
theorem exists_plan (sessionId : Uuid) (modelId : String) (modelSizeBytes : UInt64)
    (hfits : PeerInfo.CapacityFits peers)
    (hcapacity : 0 < (peers.map PeerInfo.exactCapacity).sum) (htotal : 0 < totalLayers) :
    ∃ result, plan sessionId modelId totalLayers modelSizeBytes peers = .ok result := by
  have hne : peers ≠ [] := by
    rintro rfl
    simp at hcapacity
  have hperm := StableSort.perm_sortBy PeerInfo.compareByCapacity peers
  have hsum : ((StableSort.sortBy PeerInfo.compareByCapacity peers).map
      PeerInfo.capacity).sum ≠ 0 := by
    apply PeerInfo.sum_capacity_ne_zero (hfits.perm hperm)
    rwa [(hperm.map PeerInfo.exactCapacity).sum_eq]
  have hassigned : ∃ assignments, assignProportionally 1 totalLayers
      (modelSizeBytes.toNat / totalLayers)
      (StableSort.sortBy PeerInfo.compareByCapacity peers) = .ok assignments :=
    assignProportionally_eq_ok (StableSort.sortBy_ne_nil _ hne) hsum
  obtain ⟨assignments, hassign⟩ := hassigned
  rw [plan, if_neg (by simpa using hne), if_neg htotal.ne']
  simp only [hassign]
  exact ⟨_, rfl⟩

/-- **The greedy partition.** For every nonempty list of distinct peers with
positive total capacity, every positive number of layers and every float
arithmetic, planning succeeds with nonempty consecutive ranges that tile the
model, at most one for each peer. -/
theorem greedy_plan_partitions (sessionId : Uuid) (modelId : String) (modelSizeBytes : UInt64)
    (hdistinct : (peers.map PeerInfo.nodeId).Nodup) (hfits : PeerInfo.CapacityFits peers)
    (hcapacity : 0 < (peers.map PeerInfo.exactCapacity).sum) (htotal : 0 < totalLayers) :
    ∃ result, plan sessionId modelId totalLayers modelSizeBytes peers = .ok result ∧
      Tiles 0 (result.assignments.map LayerAssignment.layerRange) totalLayers ∧
      (result.assignments.map LayerAssignment.peerId).Nodup ∧
      ∀ a ∈ result.assignments, ∃ peer ∈ peers, peer.nodeId = a.peerId := by
  obtain ⟨result, h⟩ := exists_plan sessionId modelId modelSizeBytes hfits hcapacity htotal
  have hwellFormed := wellFormed_of_plan hdistinct h
  have htiles := hwellFormed.tiles
  rw [(plan_eq_ok h).2.2.2.1] at htiles
  exact ⟨result, h, htiles, hwellFormed.distinct, fun a ha => peer_of_plan h ha⟩

/-- Three peers of very different size share 32 layers. -/
theorem greedy_plan_partitions_three_peers :
    ∃ result, plan 7 "test-model" 32 1024
        [PeerInfo.ramOnly 1 5, PeerInfo.ramOnly 2 1000000, PeerInfo.ramOnly 3 0] =
        .ok result ∧
      Tiles 0 (result.assignments.map LayerAssignment.layerRange) 32 ∧
      (result.assignments.map LayerAssignment.peerId).Nodup ∧
      ∀ a ∈ result.assignments,
        ∃ peer ∈ [PeerInfo.ramOnly 1 5, PeerInfo.ramOnly 2 1000000, PeerInfo.ramOnly 3 0],
          peer.nodeId = a.peerId :=
  greedy_plan_partitions 7 "test-model" 1024 (by decide) (by decide) (by decide) (by decide)

end HiveBear.Mesh.GreedyScheduler
