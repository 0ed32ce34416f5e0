/-
# Pipeline initiators

The initiator turns a plan into a chain of workers: each assignment names the peer
of the next one, and the last one names nobody. It then waits until as many ready
acknowledgements have arrived as the plan has peers.
-/

import HiveBear.Mesh.Pipeline.Worker
import HiveBear.Mesh.Scheduler.Plan

namespace HiveBear.Mesh

/-- The initiator of a distributed inference pipeline. -/
structure PipelineInitiator (F : Type*) where
  plan : InferencePlan F
  localId : NodeId

namespace PipelineInitiator

variable {F : Type*} (initiator : PipelineInitiator F)

/-- The session of the pipeline. -/
def sessionId : Uuid := initiator.plan.sessionId

/-- The message that assigns its layers to the `i`-th peer of the plan. -/
def assignMessage (modelSource : String) (i : ℕ) (assignment : LayerAssignment F) : MeshMessage :=
  let nextPeer := initiator.plan.assignments[i + 1]?.map LayerAssignment.peerId
  .assignLayers initiator.sessionId initiator.plan.modelId assignment.layerRange
    initiator.plan.totalLayers modelSource nextPeer initiator.localId

/-- The messages that setup sends, in order. -/
def setupMessages (modelSource : String) : List Envelope :=
  initiator.plan.assignments.mapIdx fun i assignment =>
    (assignment.peerId, initiator.assignMessage modelSource i assignment)

/-- The reaction of the acknowledgement loop to one message: the number of
acknowledgements received, or the error that ends setup. -/
def setupReceive (acksReceived : ℕ) (envelope : Envelope) : Except MeshError ℕ :=
  match envelope with
  | (peerId, .assignLayersAck sessionId ready error) =>
      if sessionId = initiator.sessionId then
        if ready then .ok (acksReceived + 1)
        else
          let errMsg := error.getD "unknown"
          .error (.pipeline s!"Peer {peerId} failed to set up: {errMsg}")
      else .ok acksReceived
  | (peerId, .error sessionId message) =>
      if sessionId = some initiator.sessionId then
        .error (.pipeline s!"Peer {peerId} error: {message}")
      else .ok acksReceived
  | _ => .ok acksReceived

/-- An activation of the initiator's session. -/
def activationMessage (tokenPosition : ℕ) (data : List UInt8) (shape : List ℕ)
    (dtype : TensorDtype) : MeshMessage :=
  .activationTensor initiator.sessionId tokenPosition data shape dtype

/-- The release messages of a teardown, in plan order. -/
def releaseMessages : List Envelope :=
  initiator.plan.assignments.map fun a => (a.peerId, .releaseSession initiator.sessionId)

end PipelineInitiator

end HiveBear.Mesh
