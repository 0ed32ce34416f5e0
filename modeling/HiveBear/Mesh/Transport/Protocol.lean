/-
# Messages between mesh nodes

The messages of the wire protocol. Most of them belong to the inference pipeline; the
receive loops see all the others too, and pass over them. A tensor's data type travels
as an enumeration between peers and as a one-byte tag across the handler boundary; the
two encodings must be inverse to each other on every hop, which is what `fromU8_toU8`
says.
-/

import HiveBear.Library.Tiling
import HiveBear.Mesh.Peer

namespace HiveBear.Mesh

open IntervalTiling

/-- Data type of tensor elements transferred between nodes. -/
inductive TensorDtype
  | f16
  | f32
  | bf16
  deriving DecidableEq, Repr

namespace TensorDtype

/-- Encode as a tag for the pipeline handler boundary. -/
def toU8 : TensorDtype → UInt8
  | .f32 => 0
  | .f16 => 1
  | .bf16 => 2

/-- Decode a tag from the pipeline handler boundary. -/
def fromU8 (v : UInt8) : Option TensorDtype :=
  if v = 0 then some .f32
  else if v = 1 then some .f16
  else if v = 2 then some .bf16
  else none

@[simp]
theorem fromU8_toU8 (dtype : TensorDtype) : fromU8 dtype.toU8 = some dtype := by
  cases dtype <;> rfl

end TensorDtype

/-- Compression method for tensor data transfer. -/
inductive CompressionMethod
  | none
  | lz4
  | zstd (level : UInt8)
  deriving DecidableEq, Repr

/-- Messages exchanged between mesh nodes. Sampling parameters are carried as the
bits of 32-bit floats, throughput as the bits of a 64-bit one. -/
inductive MeshMessage
  /-- Handshake: exchange node identity. -/
  | hello (nodeId : NodeId) (protocolVersion : ℕ)
  /-- Acknowledge a handshake. -/
  | helloAck (nodeId : NodeId) (accepted : Bool)
  /-- Layer assignment from the initiator to a worker. -/
  | assignLayers (sessionId : Uuid) (modelId : String) (layerRange : Range) (totalLayers : ℕ)
      (modelSource : String) (nextPeer : Option NodeId) (initiatorPeer : NodeId)
  /-- Worker acknowledges layer assignment and readiness. -/
  | assignLayersAck (sessionId : Uuid) (ready : Bool) (error : Option String)
  /-- Activation tensor flowing through the pipeline. -/
  | activationTensor (sessionId : Uuid) (tokenPosition : ℕ) (data : List UInt8)
      (shape : List ℕ) (dtype : TensorDtype)
  /-- Final logits returned to the initiator from the last worker. -/
  | logits (sessionId : Uuid) (tokenPosition : ℕ) (data : List UInt8) (vocabSize : ℕ)
  /-- Request to verify a specific layer's computation. -/
  | verifyChallenge (sessionId : Uuid) (layerIndex : ℕ) (inputHash : List UInt8)
  /-- Response to a verification challenge. -/
  | verifyResponse (sessionId : Uuid) (outputHash : List UInt8) (passed : Bool)
  /-- Session teardown: release model and resources. -/
  | releaseSession (sessionId : Uuid)
  /-- Heartbeat. -/
  | ping (timestampMs : UInt64)
  /-- Heartbeat response. -/
  | pong (timestampMs : UInt64)
  /-- Error from a peer. -/
  | error (sessionId : Option Uuid) (message : String)
  /-- Request a peer to run full-model inference. -/
  | inferenceRequest (sessionId : Uuid) (modelId messagesJson : String) (maxTokens : ℕ)
      (temperature topP : UInt32)
  /-- Streamed token from a peer running inference. -/
  | inferenceToken (sessionId : Uuid) (text : String) (tokenId : ℕ) (isDone : Bool)
  /-- Final response or error from replication inference. -/
  | inferenceComplete (sessionId : Uuid) (fullText : String) (tokensGenerated : ℕ)
      (error : Option String)
  /-- Heartbeat within an active pipeline session. -/
  | pipelineHeartbeat (sessionId : Uuid) (stageIndex tokensProcessed : ℕ)
  /-- A peer is leaving the pipeline gracefully. -/
  | peerLeaving (sessionId : Uuid) (reason : String) (departureInSecs : ℕ)
  /-- Activation tensor with compressed data. -/
  | compressedActivationTensor (sessionId : Uuid) (tokenPosition : ℕ) (data : List UInt8)
      (shape : List ℕ) (dtype : TensorDtype) (compression : CompressionMethod)
  /-- Invite a peer to join a swarm. -/
  | swarmInvite (swarmId : Uuid) (modelId : String) (role : UInt8) (layerRange : Range)
      (totalLayers : ℕ) (modelSource : String) (members : List (NodeId × ℕ × ℕ))
  /-- Acknowledge a swarm invitation. -/
  | swarmInviteAck (swarmId : Uuid) (accepted : Bool) (error : Option String)
  /-- Periodic swarm health status from the leader. -/
  | swarmHeartbeat (swarmId : Uuid) (activeRequests : ℕ) (avgTokS : UInt64)
  /-- Notify all swarm members of a layer reassignment. -/
  | swarmRebalance (swarmId : Uuid) (newAssignments : List (NodeId × ℕ × ℕ)) (reason : String)
  /-- Draft tokens generated by a speculative decoding drafter. -/
  | draftTokens (sessionId : Uuid) (tokens : List ℕ) (draftModelId : String)
  /-- Verification result from the target model swarm. -/
  | verifyDraft (sessionId : Uuid) (acceptedCount : ℕ) (correctionToken : Option ℕ)
  deriving DecidableEq

/-- The token position that a message of a forward pass carries. -/
def MeshMessage.tokenPosition : MeshMessage → Option ℕ
  | .activationTensor _ tokenPosition .. => some tokenPosition
  | .logits _ tokenPosition .. => some tokenPosition
  | _ => none

/-- The message carries final logits. -/
def MeshMessage.isLogits : MeshMessage → Bool
  | .logits .. => true
  | _ => false

/-- The session a message carries the identity of. An error report may leave it out. -/
def MeshMessage.session : MeshMessage → Option Uuid
  | .hello .. | .helloAck .. | .ping .. | .pong .. => none
  | .swarmInvite .. | .swarmInviteAck .. | .swarmHeartbeat .. | .swarmRebalance .. => none
  | .error sessionId _ => sessionId
  | .assignLayers sessionId .. | .assignLayersAck sessionId .. | .activationTensor sessionId ..
  | .logits sessionId .. | .verifyChallenge sessionId .. | .verifyResponse sessionId ..
  | .releaseSession sessionId | .inferenceRequest sessionId .. | .inferenceToken sessionId ..
  | .inferenceComplete sessionId .. | .pipelineHeartbeat sessionId .. | .peerLeaving sessionId ..
  | .compressedActivationTensor sessionId .. | .draftTokens sessionId ..
  | .verifyDraft sessionId .. => some sessionId

/-- A message with the peer it comes from or goes to. -/
abbrev Envelope := NodeId × MeshMessage

/-- A generated token. The log probability is carried as the bits of a 32-bit
float. -/
structure Token where
  text : String
  id : ℕ
  logprob : Option UInt32
  isSpecial : Bool
  deriving DecidableEq

/-- The bytes of a 32-bit word, least significant first. -/
def toLeBytes (n : ℕ) : List UInt8 :=
  [.ofNat n, .ofNat (n / 2 ^ 8), .ofNat (n / 2 ^ 16), .ofNat (n / 2 ^ 24)]

end HiveBear.Mesh
