/-
# The dashboard, and records with too much memory

The dashboard adds up the memory of all registered nodes. Like the schedulers and the formation of
swarms, it takes what the records say: nothing bounds the memory that a node advertises.

All of them can take a list of records just if its memory, VRAM and RAM of all peers together, fits
into 64 bits.
-/

import HiveBear.Coordinator.Peers
import HiveBear.Mesh.Swarm.CheckedCapacity

namespace HiveBear

open MachineWord

variable {F : Type}

/-- The part of a record that scheduling reads. -/
def Mesh.Discovery.PeerInfo.scheduled (info : Mesh.Discovery.PeerInfo F) : Mesh.PeerInfo F where
  nodeId := info.nodeId
  hardware := ⟨⟨info.hardware.memory.estimatedBandwidthGbps⟩⟩
  availableMemoryBytes := info.availableMemoryBytes
  availableVramBytes := info.availableVramBytes
  networkBandwidthMbps := info.networkBandwidthMbps
  latencyMs := info.latencyMs
  reputationScore := info.reputationScore
  latencyMap := info.latencyMap.pairs

namespace Coordinator

open Mesh Mesh.Discovery

/-- A node on the dashboard. -/
structure DashboardNode where
  nodeId : String
  addr : SocketAddr
  tier : MeshTier
  ramBytes : UInt64
  vramBytes : UInt64
  karma : ℤ

/-- What the dashboard shows. -/
structure Dashboard where
  totalActiveNodes : ℕ
  totalNetworkRamBytes : UInt64
  totalNetworkVramBytes : UInt64
  nodes : List DashboardNode

/-- The records of the registered nodes. -/
def infos (nodes : Nodes F) : List (Mesh.Discovery.PeerInfo F) := nodes.pairs.map fun e => e.2.info

/-- The dashboard of the registered nodes and the karma they have. -/
def dashboard (nodes : Nodes F) (karma : String → Option ℤ) : Dashboard where
  totalActiveNodes := nodes.pairs.length
  totalNetworkRamBytes := ((infos nodes).map fun p => p.availableMemoryBytes).sum
  totalNetworkVramBytes := ((infos nodes).map fun p => p.availableVramBytes).sum
  nodes := (infos nodes).map fun p =>
    { nodeId := p.nodeId.toHex
      addr := p.addr
      tier := p.tier
      ramBytes := p.availableMemoryBytes
      vramBytes := p.availableVramBytes
      karma := (karma p.nodeId.toHex).getD 0 }

/-- The dashboard with checked additions. -/
def dashboardChecked (nodes : Nodes F) (karma : String → Option ℤ) : Option Dashboard :=
  (checkedSum ((infos nodes).map fun p => p.availableMemoryBytes)).bind fun _ =>
    (checkedSum ((infos nodes).map fun p => p.availableVramBytes)).map fun _ => dashboard nodes karma

/-- The dashboard adds up RAM and VRAM apart. -/
theorem dashboardChecked_isSome_iff (nodes : Nodes F) (karma : String → Option ℤ) :
    (dashboardChecked nodes karma).isSome ↔
      ((infos nodes).map fun p => p.availableMemoryBytes.toNat).sum < 2 ^ 64 ∧
        ((infos nodes).map fun p => p.availableVramBytes.toNat).sum < 2 ^ 64 := by
  have hsum : ∀ f : Mesh.Discovery.PeerInfo F → UInt64,
      checkedSum ((infos nodes).map f) =
        if ((infos nodes).map fun p => (f p).toNat).sum < 2 ^ 64 then
          some ((infos nodes).map f).sum else none := by
    intro f
    rw [checkedSum_eq, List.map_map]
    rfl
  rw [dashboardChecked, hsum, hsum]
  split
  · rename_i hram
    rw [Option.bind_some, Option.isSome_map, and_iff_right hram]
    split
    · rename_i hvram
      exact iff_of_true rfl hvram
    · rename_i hvram
      exact iff_of_false Bool.false_ne_true hvram
  · rename_i hram
    exact iff_of_false Bool.false_ne_true fun h => hram h.1

/-- No addition of capacities overflows for these records: not in the formation of swarms, not in
the schedulers, and not on a dashboard that shows some of them. -/
structure Admitted [FloatOps F] (peers : List (Mesh.Discovery.PeerInfo F)) : Prop where
  formation : ∀ (config : Formation.FormationConfig F) models swarmIds,
    (Formation.formSwarmsChecked config models swarmIds
      (peers.map Mesh.Discovery.PeerInfo.scheduled)).isSome
  greedy : ∀ sessionId modelId totalLayers modelSizeBytes,
    (GreedyScheduler.planChecked sessionId modelId totalLayers modelSizeBytes
      (peers.map Mesh.Discovery.PeerInfo.scheduled)).isSome
  swarmAware : ∀ (scheduler : SwarmAwareScheduler F) sessionId modelId totalLayers modelSizeBytes,
    (scheduler.planChecked sessionId modelId totalLayers modelSizeBytes
      (peers.map Mesh.Discovery.PeerInfo.scheduled)).isSome
  dashboard : ∀ (nodes : Nodes F) karma, (infos nodes).Subperm peers →
    (dashboardChecked nodes karma).isSome

/-- The memory of all records together, in bytes. -/
def memoryOf (peers : List (Mesh.Discovery.PeerInfo F)) : ℕ :=
  (peers.map fun p => p.availableVramBytes.toNat + p.availableMemoryBytes.toNat).sum

theorem capacityFits_scheduled_iff (peers : List (Mesh.Discovery.PeerInfo F)) :
    PeerInfo.CapacityFits (peers.map Mesh.Discovery.PeerInfo.scheduled) ↔
      memoryOf peers < 2 ^ 64 := by
  rw [PeerInfo.CapacityFits, List.map_map]
  rfl

/-- **Capacities of any size.** No addition overflows for a list of records if and only if the
memory of all of them together is less than `2 ^ 64` bytes. -/
theorem admitted_iff [FloatOps F] (peers : List (Mesh.Discovery.PeerInfo F)) :
    Admitted peers ↔ memoryOf peers < 2 ^ 64 := by
  rw [← capacityFits_scheduled_iff]
  constructor
  · intro h
    have hplan := (GreedyScheduler.planChecked_isSome_iff _ _ _ _ _).mp (h.greedy 0 "" 1 0)
    exact hplan.resolve_left Nat.one_ne_zero
  · intro hfits
    constructor
    · intro config models swarmIds
      rw [Formation.formSwarmsChecked_of_capacityFits hfits]
      rfl
    · intro sessionId modelId totalLayers modelSizeBytes
      exact (GreedyScheduler.planChecked_isSome_iff _ _ _ _ _).mpr (Or.inr hfits)
    · intro scheduler sessionId modelId totalLayers modelSizeBytes
      rw [scheduler.planChecked_of_capacityFits _ _ _ _ hfits]
      rfl
    · intro nodes karma hsub
      rw [dashboardChecked_isSome_iff]
      rw [capacityFits_scheduled_iff, memoryOf] at hfits
      have hle : ∀ f : Mesh.Discovery.PeerInfo F → ℕ,
          (∀ p, f p ≤ p.availableVramBytes.toNat + p.availableMemoryBytes.toNat) →
            ((infos nodes).map f).sum < 2 ^ 64 := by
        intro f hf
        obtain ⟨kept, hperm, hkept⟩ := hsub
        apply lt_of_le_of_lt _ hfits
        calc ((infos nodes).map f).sum = (kept.map f).sum := ((hperm.map f).sum_eq).symm
          _ ≤ (peers.map f).sum := (hkept.map f).sum_le_sum fun _ _ => Nat.zero_le _
          _ ≤ _ := List.sum_le_sum fun p _ => hf p
      exact ⟨hle _ fun p => Nat.le_add_left _ _, hle _ fun p => Nat.le_add_right _ _⟩

/-- A record that claims half of what 64 bits can count as RAM, and as much as VRAM. -/
def hostile : Mesh.Discovery.PeerInfo ℚ :=
  { PeerInfo.plain 0 (NodeId.ofByte 1) with
    availableMemoryBytes := 0x8000000000000000
    availableVramBytes := 0x8000000000000000 }

/-- **One such record** overflows the formation of swarms and both schedulers. -/
theorem hostile_not_admitted :
    Formation.formSwarmsChecked Formation.defaultConfig [] (fun _ => ⟨0⟩) [hostile.scheduled] =
        none ∧
      GreedyScheduler.planChecked 7 "model" 8 1024 [hostile.scheduled] = none ∧
      (SwarmAwareScheduler.new : SwarmAwareScheduler ℚ).planChecked 7 "model" 8 1024
        [hostile.scheduled] = none ∧
      ¬ Admitted [hostile] := by
  have hgreedy : GreedyScheduler.planChecked 7 "model" 8 1024 [hostile.scheduled] = none := rfl
  refine ⟨rfl, hgreedy, by decide +kernel, fun h => ?_⟩
  have hplan := h.greedy 7 "model" 8 1024
  rw [List.map_singleton, hgreedy] at hplan
  cases hplan

end Coordinator

end HiveBear
