/-
# Assigning layers proportionally to capacity

Both schedulers walk their ranked peers with a layer cursor and give each peer a
share proportional to its capacity, rounded, clamped from below, and cut down to
the layers that are left; the last peer takes the rest. They differ only in the
lower clamp and in how they rank the peers, so the loop is modelled once.

The loop deals out an interval. `assignLayers_eq_deal` reads it as the general
dealing loop, and from there the cursor always ends at the last layer: the
shortfall error cannot occur as long as there is a peer and some capacity.
-/

import HiveBear.Library.Dealing
import HiveBear.Mesh.Scheduler.Plan

namespace HiveBear.Mesh

open IntervalTiling

variable {F : Type*} [FloatOps F]

/-- A peer's share of the layers before clamping:
`(capacity / total_capacity * total_layers).round()`. -/
def rawShare (capacity totalCapacity : UInt64) (totalLayers : ℕ) : ℕ :=
  let fraction : F := FloatOps.ofNat capacity.toNat / FloatOps.ofNat totalCapacity.toNat
  FloatOps.roundU32 (fraction * FloatOps.ofNat totalLayers)

namespace PeerInfo

/-- Ranking order of the schedulers: capacity descending, with reputation as
tiebreaker. -/
def compareByCapacity (a b : PeerInfo F) : Ordering :=
  (compare b.capacity a.capacity).then
    ((FloatOps.partialCmp b.reputationScore a.reputationScore).getD .eq)

/-- A peer ranked earlier has at least the capacity of one ranked later. -/
theorem pairwise_capacity_sortBy (peers : List (PeerInfo F)) :
    (StableSort.sortBy compareByCapacity peers).Pairwise
      (fun a b => b.capacity.toNat ≤ a.capacity.toNat) := by
  apply StableSort.pairwise_sortBy
  · intro a b c hab hbc
    exact le_trans hbc hab
  · intro a b hcmp
    rw [compareByCapacity] at hcmp
    apply UInt64.le_iff_toNat_le.mp
    apply Std.isLE_compare.mp
    cases hcompare : compare b.capacity a.capacity with
    | lt => rfl
    | eq => rfl
    | gt => exact absurd (by rw [hcompare]; rfl) hcmp
  · intro a b hcmp
    rw [compareByCapacity] at hcmp
    apply UInt64.le_iff_toNat_le.mp
    apply Std.isGE_compare.mp
    cases hcompare : compare b.capacity a.capacity with
    | lt => rw [hcompare] at hcmp; cases hcmp
    | eq => rfl
    | gt => rfl

/-- Estimated time (ms) for a peer to process `share` layers. -/
def estimatedComputeMs (peer : PeerInfo F) (share bytesPerLayer : ℕ) : F :=
  let computeBandwidth : F :=
    if peer.availableVramBytes > 0 then FloatOps.literal 200
    else peer.hardware.memory.estimatedBandwidthGbps
  let computeBytes : F := FloatOps.ofNat share * FloatOps.ofNat bytesPerLayer
  computeBytes / (computeBandwidth * FloatOps.literal 1000000000) * FloatOps.literal 1000

/-- Estimated time (ms) to move one activation tensor to or from a peer. -/
def estimatedTransferMs (peer : PeerInfo F) : F :=
  let activationSizeBytes : F := FloatOps.literal 16 * FloatOps.literal 1024
  let transferBandwidthBps : F :=
    peer.networkBandwidthMbps * FloatOps.literal 1000000 / FloatOps.literal 8
  let latency : F := peer.latencyMs.getD (FloatOps.literal 10)
  if FloatOps.lt (FloatOps.literal 0) transferBandwidthBps then
    activationSizeBytes / transferBandwidthBps * FloatOps.literal 1000 + latency
  else latency

/-- The assignment of `share` layers starting at `layerCursor`. -/
def assign (peer : PeerInfo F) (layerCursor share bytesPerLayer : ℕ) : LayerAssignment F where
  peerId := peer.nodeId
  layerRange := ⟨layerCursor, layerCursor + share⟩
  estimatedComputeMs := peer.estimatedComputeMs share bytesPerLayer
  estimatedTransferMs := peer.estimatedTransferMs

end PeerInfo

/-- The assignment loop: the assignments made and the final layer cursor. -/
def assignLayers (minShare totalLayers bytesPerLayer : ℕ) (totalCapacity : UInt64) :
    ℕ → List (PeerInfo F) → List (LayerAssignment F) × ℕ
  | layerCursor, [] => ([], layerCursor)
  | layerCursor, peer :: rest =>
      if totalLayers ≤ layerCursor then ([], layerCursor)
      else
        let share :=
          -- the last peer gets all remaining layers
          if rest.isEmpty then totalLayers - layerCursor
          else min (max (rawShare (F := F) peer.capacity totalCapacity totalLayers) minShare)
            (totalLayers - layerCursor)
        if share = 0 then
          assignLayers minShare totalLayers bytesPerLayer totalCapacity layerCursor rest
        else
          let later := assignLayers minShare totalLayers bytesPerLayer totalCapacity
            (layerCursor + share) rest
          (peer.assign layerCursor share bytesPerLayer :: later.1, later.2)

/-- The part of planning that the schedulers share once the peers are ranked. -/
def assignProportionally (minShare totalLayers bytesPerLayer : ℕ)
    (ranked : List (PeerInfo F)) : Except MeshError (List (LayerAssignment F)) :=
  let totalCapacity := (ranked.map PeerInfo.capacity).sum
  if totalCapacity = 0 then .error (.scheduling "Peers have no available memory")
  else
    let result := assignLayers minShare totalLayers bytesPerLayer totalCapacity 0 ranked
    let layerCursor := result.2
    if layerCursor < totalLayers then
      .error (.scheduling
        s!"Could only assign {layerCursor}/{totalLayers} layers across {ranked.length} peers")
    else .ok result.1

/-! ## The loop deals out the layers -/

/-- What a peer asks for: its rounded share, at least `minShare`. -/
def demandedLayers (minShare totalLayers : ℕ) (totalCapacity : UInt64) (peer : PeerInfo F) : ℕ :=
  max (rawShare (F := F) peer.capacity totalCapacity totalLayers) minShare

section Loop

variable (minShare totalLayers bytesPerLayer : ℕ) (totalCapacity : UInt64)

/-- Peers and ranges of the assignment loop are those of the dealing loop. -/
theorem assignLayers_eq_deal (layerCursor : ℕ) (peers : List (PeerInfo F)) :
    (assignLayers minShare totalLayers bytesPerLayer totalCapacity layerCursor peers).1.map
        (fun a => (a.peerId, a.layerRange)) =
      (deal (demandedLayers minShare totalLayers totalCapacity) totalLayers
        layerCursor peers).map (fun x => (x.1.nodeId, x.2)) := by
  induction peers generalizing layerCursor with
  | nil => rfl
  | cons peer rest ih =>
      rw [assignLayers, deal]
      split
      · rfl
      · dsimp only [demandedLayers]
        generalize (if rest.isEmpty = true then totalLayers - layerCursor
          else min _ (totalLayers - layerCursor)) = share
        split
        · exact ih layerCursor
        · rw [List.map_cons, List.map_cons, ih]
          rfl

theorem layerRanges_assignLayers (layerCursor : ℕ) (peers : List (PeerInfo F)) :
    (assignLayers minShare totalLayers bytesPerLayer totalCapacity layerCursor peers).1.map
        LayerAssignment.layerRange =
      (deal (demandedLayers minShare totalLayers totalCapacity) totalLayers
        layerCursor peers).map Prod.snd := by
  have h := congrArg (List.map Prod.snd)
    (assignLayers_eq_deal minShare totalLayers bytesPerLayer totalCapacity layerCursor peers)
  rwa [List.map_map, List.map_map] at h

/-- Layers go to a sublist of the ranked peers, in ranking order. -/
theorem peerIds_assignLayers_sublist (layerCursor : ℕ) (peers : List (PeerInfo F)) :
    ((assignLayers minShare totalLayers bytesPerLayer totalCapacity layerCursor peers).1.map
      LayerAssignment.peerId).Sublist (peers.map PeerInfo.nodeId) := by
  have h := congrArg (List.map Prod.fst)
    (assignLayers_eq_deal minShare totalLayers bytesPerLayer totalCapacity layerCursor peers)
  rw [List.map_map, List.map_map] at h
  have hsub := (deal_sublist (demandedLayers minShare totalLayers totalCapacity) totalLayers
    layerCursor peers).map PeerInfo.nodeId
  rw [List.map_map] at hsub
  exact h.symm ▸ hsub

/-- The loop leaves the cursor at the last layer. -/
theorem assignLayers_cursor {layerCursor : ℕ} {peers : List (PeerInfo F)} (hne : peers ≠ [])
    (hle : layerCursor ≤ totalLayers) :
    (assignLayers minShare totalLayers bytesPerLayer totalCapacity layerCursor peers).2 =
      totalLayers := by
  induction peers generalizing layerCursor with
  | nil => exact absurd rfl hne
  | cons peer rest ih =>
      rw [assignLayers]
      split
      · exact le_antisymm hle ‹_›
      rename_i hlt
      cases rest with
      | nil =>
          have hshare : totalLayers - layerCursor ≠ 0 := by omega
          simp only [List.isEmpty_nil, if_true, hshare, if_false, assignLayers]
          omega
      | cons next rest =>
          simp only [List.isEmpty_cons, Bool.false_eq_true, if_false]
          split
          · exact ih (List.cons_ne_nil _ _) hle
          · exact ih (List.cons_ne_nil _ _) (by omega)

end Loop

variable {minShare totalLayers bytesPerLayer : ℕ} {ranked : List (PeerInfo F)}
  {assignments : List (LayerAssignment F)}

/-- Ranked peers with some capacity are always assigned the whole model: the
shortfall error is unreachable. -/
theorem assignProportionally_eq_ok (hne : ranked ≠ [])
    (hcapacity : (ranked.map PeerInfo.capacity).sum ≠ 0) :
    ∃ assignments, assignProportionally minShare totalLayers bytesPerLayer ranked =
      .ok assignments := by
  have hcursor := assignLayers_cursor minShare totalLayers bytesPerLayer
    (ranked.map PeerInfo.capacity).sum hne (Nat.zero_le totalLayers)
  refine ⟨(assignLayers minShare totalLayers bytesPerLayer
    (ranked.map PeerInfo.capacity).sum 0 ranked).1, ?_⟩
  rw [assignProportionally]
  simp only [hcapacity, if_false, hcursor, lt_irrefl]

/-- An assignment that succeeds is what the loop computed. -/
theorem eq_assignLayers_of_assignProportionally
    (h : assignProportionally minShare totalLayers bytesPerLayer ranked = .ok assignments) :
    assignments = (assignLayers minShare totalLayers bytesPerLayer
      (ranked.map PeerInfo.capacity).sum 0 ranked).1 := by
  rw [assignProportionally] at h
  dsimp only at h
  split at h
  · cases h
  · split at h
    · cases h
    · injection h with h
      exact h.symm

/-- Assignments that succeed tile the model. -/
theorem tiles_of_assignProportionally (hne : ranked ≠ [])
    (h : assignProportionally minShare totalLayers bytesPerLayer ranked = .ok assignments) :
    Tiles 0 (assignments.map LayerAssignment.layerRange) totalLayers := by
  rw [eq_assignLayers_of_assignProportionally h, layerRanges_assignLayers]
  exact deal_tiles hne (Nat.zero_le _)

/-- Assignments that succeed go to a sublist of the ranked peers. -/
theorem peerIds_of_assignProportionally
    (h : assignProportionally minShare totalLayers bytesPerLayer ranked = .ok assignments) :
    (assignments.map LayerAssignment.peerId).Sublist (ranked.map PeerInfo.nodeId) := by
  rw [eq_assignLayers_of_assignProportionally h]
  exact peerIds_assignLayers_sublist _ _ _ _ _ _

end HiveBear.Mesh
