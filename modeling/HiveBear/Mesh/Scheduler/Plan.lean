/-
# Inference plans

A plan says which peer runs which range of model layers. `WellFormed` is what
every consumer of a plan relies on: the ranges tile `0..total_layers` in the
order in which they are stored, and no peer holds two of them.
-/

import HiveBear.Library.StableSort
import HiveBear.Library.Tiling
import HiveBear.Mesh.Peer

namespace HiveBear.Mesh

open IntervalTiling

/-- Assignment of a range of model layers to a specific peer. -/
structure LayerAssignment (F : Type*) where
  peerId : NodeId
  layerRange : Range
  estimatedComputeMs : F
  estimatedTransferMs : F
  deriving DecidableEq

/-- A plan describing how to distribute a model across mesh peers. -/
structure InferencePlan (F : Type*) where
  sessionId : Uuid
  modelId : String
  totalLayers : ℕ
  assignments : List (LayerAssignment F)
  estimatedLatencyMs : F
  estimatedThroughputTokS : F
  deriving DecidableEq

namespace InferencePlan

variable {F : Type*}

/-- The peers in layer order. -/
def pipelineOrder (plan : InferencePlan F) : List NodeId :=
  (StableSort.sortBy (fun a b => compare a.layerRange.start b.layerRange.start)
    plan.assignments).map LayerAssignment.peerId

/-- Total number of peers involved. -/
def peerCount (plan : InferencePlan F) : ℕ := plan.assignments.length

/-- The stored ranges tile the model and belong to distinct peers. -/
structure WellFormed (plan : InferencePlan F) : Prop where
  tiles : Tiles 0 (plan.assignments.map LayerAssignment.layerRange) plan.totalLayers
  distinct : (plan.assignments.map LayerAssignment.peerId).Nodup

end InferencePlan

end HiveBear.Mesh
