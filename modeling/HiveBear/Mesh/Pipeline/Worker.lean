/-
# Pipeline workers

A worker keeps routing information for each session and hands the actual work to
a pipeline handler. `PipelineWorker.handle` is its reaction to one message: the
new state, the messages it sends and the events it emits, in order.

The handler is a record of state-passing functions, so that one model of the
worker serves every handler. Its functions are not told which session they run
for; that is how the interface is in the source.
-/

import HiveBear.Mesh.Transport.Protocol

namespace HiveBear.Mesh

open IntervalTiling

/-- Handler for pipeline-parallel inference on a worker node, over its state. -/
structure MeshPipelineHandler (H : Type*) where
  /-- Load only the specified layer range from a model. -/
  loadLayers : H → String → Range → ℕ → Except String Unit × H
  /-- Run a forward pass through loaded layers: output data, shape and dtype tag. -/
  forwardLayers : H → List UInt8 → List ℕ → UInt8 → ℕ →
    Except String (List UInt8 × List ℕ × UInt8) × H
  /-- Unload layers and free resources. -/
  unloadLayers : H → Except String Unit × H

/-- State for an active worker session. -/
structure WorkerSession where
  sessionId : Uuid
  modelId : String
  layerRange : Range
  totalLayers : ℕ
  modelSource : String
  /-- Next peer in the pipeline (`none` when this worker is the final stage). -/
  nextPeer : Option NodeId
  /-- The initiator peer that receives the final logits. -/
  initiatorPeer : NodeId
  deriving DecidableEq

/-- Details for a full-model replication inference request. -/
structure InferenceRequest where
  sessionId : Uuid
  modelId : String
  messagesJson : String
  maxTokens : ℕ
  temperature : UInt32
  topP : UInt32
  sender : NodeId

/-- Events emitted by a worker for the host node to handle. -/
inductive WorkerEvent
  | sessionStarted (session : WorkerSession)
  | activationReceived (sessionId : Uuid) (tokenPosition : ℕ) (sender : NodeId)
  | inferenceRequested (request : InferenceRequest)
  | sessionReleased (sessionId : Uuid)

/-- A mesh worker. The hash function is a parameter. -/
structure PipelineWorker (H : Type*) where
  localId : NodeId
  pipelineHandler : Option (MeshPipelineHandler H)
  sha256 : List UInt8 → List UInt8

/-- What a worker keeps between messages. -/
structure WorkerState (H : Type*) where
  handler : H
  sessions : Uuid → Option WorkerSession

/-- What a worker does in reaction to a message. -/
structure WorkerReaction (H : Type*) where
  state : WorkerState H
  sends : List Envelope
  events : List WorkerEvent

namespace PipelineWorker

variable {H : Type*} (worker : PipelineWorker H) (state : WorkerState H)

/-- Load the assigned layers, store the session, and acknowledge. The session is
stored even when loading fails. -/
def onAssignLayers (sender : NodeId) (session : WorkerSession) : WorkerReaction H :=
  let loaded : Except String Unit × H :=
    match worker.pipelineHandler with
    | some handler => handler.loadLayers state.handler session.modelSource session.layerRange
        session.totalLayers
    | none => (.ok (), state.handler)
  let loadError : Option String :=
    match loaded.1 with
    | .ok _ => none
    | .error e => some e
  { state := ⟨loaded.2, Function.update state.sessions session.sessionId (some session)⟩
    sends := [(sender, .assignLayersAck session.sessionId loadError.isNone loadError)]
    events := [.sessionStarted session] }

/-- Where the output of a forward pass goes: logits to the initiator from the last
stage, an activation to the next peer otherwise. -/
def routeOutput (session : WorkerSession) (tokenPosition : ℕ) (dtype : TensorDtype)
    (output : List UInt8 × List ℕ × UInt8) : List Envelope :=
  if session.layerRange.stop = session.totalLayers then
    let vocabSize := output.2.1.getLast?.getD 0 % 2 ^ 32
    [(session.initiatorPeer, .logits session.sessionId tokenPosition output.1 vocabSize)]
  else
    match session.nextPeer with
    | some next =>
        let outDtype := (TensorDtype.fromU8 output.2.2).getD dtype
        [(next, .activationTensor session.sessionId tokenPosition output.1 output.2.1 outDtype)]
    | none => []

/-- Run the forward pass and route what comes out of it. -/
def onActivationTensor (sender : NodeId) (sessionId : Uuid) (tokenPosition : ℕ)
    (data : List UInt8) (shape : List ℕ) (dtype : TensorDtype) : WorkerReaction H :=
  let sessionInfo := state.sessions sessionId
  match worker.pipelineHandler with
  | none => ⟨state, [], [.activationReceived sessionId tokenPosition sender]⟩
  | some handler =>
      let forwarded :=
        handler.forwardLayers state.handler data shape dtype.toU8 tokenPosition
      let state := { state with handler := forwarded.2 }
      match forwarded.1, sessionInfo with
      | .ok output, some session => ⟨state, routeOutput session tokenPosition dtype output, []⟩
      | .ok _, none => ⟨state, [], []⟩
      | .error e, some session =>
          ⟨state, [(session.initiatorPeer, .error (some sessionId)
            s!"Forward pass failed on node {worker.localId}: {e}")], []⟩
      | .error _, none => ⟨state, [], []⟩

/-- A stage passes a token position on as it got it, so all stages of a pipeline index
their caches by the position the initiator chose. -/
theorem tokenPosition_of_mem_sends {sender peer : NodeId} {sessionId : Uuid}
    {tokenPosition position : ℕ} {data : List UInt8} {shape : List ℕ} {dtype : TensorDtype}
    {message : MeshMessage}
    (hmem : (peer, message) ∈ (worker.onActivationTensor state sender sessionId tokenPosition data
      shape dtype).sends)
    (hposition : message.tokenPosition = some position) : position = tokenPosition := by
  unfold onActivationTensor routeOutput at hmem
  split at hmem
  · simp at hmem
  dsimp only at hmem
  split at hmem
  · split_ifs at hmem
    · simp only [List.mem_singleton, Prod.mk.injEq] at hmem
      simpa [hmem.2, MeshMessage.tokenPosition] using hposition.symm
    · split at hmem
      · simp only [List.mem_singleton, Prod.mk.injEq] at hmem
        simpa [hmem.2, MeshMessage.tokenPosition] using hposition.symm
      · simp at hmem
  · simp at hmem
  · simp only [List.mem_singleton, Prod.mk.injEq] at hmem
    simp [hmem.2, MeshMessage.tokenPosition] at hposition
  · simp at hmem

/-- Unload the layers and forget the session. An unload error is only logged. -/
def onReleaseSession (sessionId : Uuid) : WorkerReaction H :=
  let handler :=
    match worker.pipelineHandler with
    | some handler => (handler.unloadLayers state.handler).2
    | none => state.handler
  { state := ⟨handler, Function.update state.sessions sessionId none⟩
    sends := []
    events := [.sessionReleased sessionId] }

/-- The response to a verification challenge: a hash of the challenge and the
session's assignment. -/
def verificationHash (sessionId : Uuid) (layerIndex : ℕ) (inputHash : List UInt8) : List UInt8 :=
  match state.sessions sessionId with
  | some session =>
      worker.sha256 (inputHash ++ toLeBytes session.layerRange.start ++
        toLeBytes session.layerRange.stop ++ toLeBytes layerIndex ++
        session.modelId.toUTF8.toList)
  | none => List.replicate 32 0

/-- The reaction to one message from a peer. -/
def handle (sender : NodeId) : MeshMessage → WorkerReaction H
  | .assignLayers sessionId modelId layerRange totalLayers modelSource nextPeer initiatorPeer =>
      worker.onAssignLayers state sender
        ⟨sessionId, modelId, layerRange, totalLayers, modelSource, nextPeer, initiatorPeer⟩
  | .activationTensor sessionId tokenPosition data shape dtype =>
      worker.onActivationTensor state sender sessionId tokenPosition data shape dtype
  | .inferenceRequest sessionId modelId messagesJson maxTokens temperature topP =>
      ⟨state, [], [.inferenceRequested
        ⟨sessionId, modelId, messagesJson, maxTokens, temperature, topP, sender⟩]⟩
  | .releaseSession sessionId => worker.onReleaseSession state sessionId
  | .ping timestampMs => ⟨state, [(sender, .pong timestampMs)], []⟩
  | .verifyChallenge sessionId layerIndex inputHash =>
      ⟨state, [(sender, .verifyResponse sessionId
        (worker.verificationHash state sessionId layerIndex inputHash) true)], []⟩
  | _ => ⟨state, [], []⟩

/-- A worker without sessions. -/
def initialState (handler : H) : WorkerState H := ⟨handler, fun _ => none⟩

end PipelineWorker

end HiveBear.Mesh
