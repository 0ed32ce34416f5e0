/-
# Messages on the wire

A message travels as its tag and its fields, in the binary form of `Library.Bincode`. Numbers
have a width there, hashes have a length, and a handshake carries the hardware of its sender:
`WireMessage` is a message with all of this, and `WireMessage.message` is what the receive loops
read of it.

A message has at most sixteen megabytes. One that has is read back as it was written; no part
of it is taken for a message, and nothing may follow it. Whatever is read could have been sent,
even if it was written with longer words than it needs, so that a message that has arrived can
always be passed on.
-/

import HiveBear.Mesh.Discovery.PeerInfo
import HiveBear.Mesh.Transport.Protocol

namespace HiveBear.Mesh

open Bincode IntervalTiling

/-! ## The parts of messages -/

/-- The data types in the order of their tags. -/
def TensorDtype.bincode : Codec TensorDtype :=
  Discovery.unitEnum [.f16, .f32, .bf16] (by decide) (fun dtype => by cases dtype <;> decide)

/-- The compression methods in the order of their tags. -/
inductive CompressionKind
  | none
  | lz4
  | zstd
  deriving DecidableEq

def CompressionKind.bincode : Codec CompressionKind :=
  Discovery.unitEnum [.none, .lz4, .zstd] (by decide) (fun kind => by cases kind <;> decide)

/-- What a compression method carries behind its tag. -/
def CompressionKind.Payload : CompressionKind → Type
  | .zstd => UInt8
  | _ => Unit

def CompressionKind.payloadBincode : (kind : CompressionKind) → Codec kind.Payload
  | .none => Codec.unit
  | .lz4 => Codec.unit
  | .zstd => Codec.byte

def CompressionMethod.bincode : Codec CompressionMethod :=
  (Codec.sigma CompressionKind.bincode CompressionKind.payloadBincode).refine
    (fun
      | .none => ⟨.none, ()⟩
      | .lz4 => ⟨.lz4, ()⟩
      | .zstd level => ⟨.zstd, level⟩)
    (fun
      | ⟨.none, _⟩ => some .none
      | ⟨.lz4, _⟩ => some .lz4
      | ⟨.zstd, level⟩ => some (.zstd level))
    (fun method => by cases method <;> rfl)

/-- A hash of a layer's input or output. -/
abbrev Hash := {bytes : List UInt8 // bytes.length = 32}

/-- The layers from the first number up to the second. -/
abbrev WireRange := UInt32 × UInt32

/-- A member of a swarm and its layers. -/
abbrev WireMember := NodeId × UInt32 × UInt32

def WireMember.bincode : Codec WireMember :=
  Discovery.NodeId.bincode.pair (Codec.u32.pair Codec.u32)

theorem WireMember.length_bincode (member : WireMember) :
    1 ≤ (WireMember.bincode.encode member).length :=
  Codec.room_pair _ Discovery.NodeId.length_bincode member

theorem length_u32 (n : UInt32) : 1 ≤ (Codec.u32.encode n).length :=
  Codec.room_refine Codec.length_varint n

/-! ## The messages -/

/-- The variants of a message, in the order of their tags. -/
inductive MessageKind
  | hello
  | helloAck
  | assignLayers
  | assignLayersAck
  | activationTensor
  | logits
  | verifyChallenge
  | verifyResponse
  | releaseSession
  | ping
  | pong
  | error
  | inferenceRequest
  | inferenceToken
  | inferenceComplete
  | pipelineHeartbeat
  | peerLeaving
  | compressedActivationTensor
  | swarmInvite
  | swarmInviteAck
  | swarmHeartbeat
  | swarmRebalance
  | draftTokens
  | verifyDraft
  deriving DecidableEq

namespace MessageKind

def all : List MessageKind :=
  [.hello, .helloAck, .assignLayers, .assignLayersAck, .activationTensor, .logits,
    .verifyChallenge, .verifyResponse, .releaseSession, .ping, .pong, .error, .inferenceRequest,
    .inferenceToken, .inferenceComplete, .pipelineHeartbeat, .peerLeaving,
    .compressedActivationTensor, .swarmInvite, .swarmInviteAck, .swarmHeartbeat, .swarmRebalance,
    .draftTokens, .verifyDraft]

def bincode : Codec MessageKind :=
  Discovery.unitEnum all (by decide) (fun kind => by cases kind <;> decide)

/-- The fields behind a tag. Floats are their bits. -/
def Payload : MessageKind → Type
  | .hello => NodeId × Discovery.HardwareProfile UInt64 × UInt32
  | .helloAck => NodeId × Bool
  | .assignLayers => Uuid × String × WireRange × UInt32 × String × Option NodeId × NodeId
  | .assignLayersAck => Uuid × Bool × Option String
  | .activationTensor => Uuid × UInt32 × List UInt8 × List UInt64 × TensorDtype
  | .logits => Uuid × UInt32 × List UInt8 × UInt32
  | .verifyChallenge => Uuid × UInt32 × Hash
  | .verifyResponse => Uuid × Hash × Bool
  | .releaseSession => Uuid
  | .ping => UInt64
  | .pong => UInt64
  | .error => Option Uuid × String
  | .inferenceRequest => Uuid × String × String × UInt32 × UInt32 × UInt32
  | .inferenceToken => Uuid × String × UInt32 × Bool
  | .inferenceComplete => Uuid × String × UInt32 × Option String
  | .pipelineHeartbeat => Uuid × UInt32 × UInt32
  | .peerLeaving => Uuid × String × UInt32
  | .compressedActivationTensor =>
      Uuid × UInt32 × List UInt8 × List UInt64 × TensorDtype × CompressionMethod
  | .swarmInvite => Uuid × String × UInt8 × WireRange × UInt32 × String × List WireMember
  | .swarmInviteAck => Uuid × Bool × Option String
  | .swarmHeartbeat => Uuid × UInt32 × UInt64
  | .swarmRebalance => Uuid × List WireMember × String
  | .draftTokens => Uuid × List UInt32 × String
  | .verifyDraft => Uuid × UInt32 × Option UInt32

open Codec Discovery in
/-- The fields one after the other. Floats are words of their width, all other numbers have the
length they need. -/
def payloadBincode : (kind : MessageKind) → Codec kind.Payload
  | .hello => NodeId.bincode.pair ((HardwareProfile.bincode word64).pair u32)
  | .helloAck => NodeId.bincode.pair bool
  | .assignLayers =>
      Uuid.bincode.pair <| string.pair <| (u32.pair u32).pair <| u32.pair <| string.pair <|
        NodeId.bincode.option.pair NodeId.bincode
  | .assignLayersAck => Uuid.bincode.pair (bool.pair string.option)
  | .activationTensor =>
      Uuid.bincode.pair <| u32.pair <| bytes.pair <| (seq varint length_varint).pair
        TensorDtype.bincode
  | .logits => Uuid.bincode.pair (u32.pair (bytes.pair u32))
  | .verifyChallenge => Uuid.bincode.pair (u32.pair (fixed 32))
  | .verifyResponse => Uuid.bincode.pair ((fixed 32).pair bool)
  | .releaseSession => Uuid.bincode
  | .ping => varint
  | .pong => varint
  | .error => Uuid.bincode.option.pair string
  | .inferenceRequest =>
      Uuid.bincode.pair <| string.pair <| string.pair <| u32.pair <| word32.pair word32
  | .inferenceToken => Uuid.bincode.pair (string.pair (u32.pair bool))
  | .inferenceComplete => Uuid.bincode.pair (string.pair (u32.pair string.option))
  | .pipelineHeartbeat => Uuid.bincode.pair (u32.pair u32)
  | .peerLeaving => Uuid.bincode.pair (string.pair u32)
  | .compressedActivationTensor =>
      Uuid.bincode.pair <| u32.pair <| bytes.pair <| (seq varint length_varint).pair <|
        TensorDtype.bincode.pair CompressionMethod.bincode
  | .swarmInvite =>
      Uuid.bincode.pair <| string.pair <| byte.pair <| (u32.pair u32).pair <| u32.pair <|
        string.pair (seq WireMember.bincode WireMember.length_bincode)
  | .swarmInviteAck => Uuid.bincode.pair (bool.pair string.option)
  | .swarmHeartbeat => Uuid.bincode.pair (u32.pair word64)
  | .swarmRebalance =>
      Uuid.bincode.pair ((seq WireMember.bincode WireMember.length_bincode).pair string)
  | .draftTokens => Uuid.bincode.pair ((seq u32 length_u32).pair string)
  | .verifyDraft => Uuid.bincode.pair (u32.pair u32.option)

end MessageKind

/-- A message with the width of its fields. -/
abbrev WireMessage := Σ kind : MessageKind, kind.Payload

namespace WireMessage

def bincode : Codec WireMessage := Codec.sigma MessageKind.bincode MessageKind.payloadBincode

/-- Maximum serialized message size (16 MiB). -/
def maxMessageSize : ℕ := 16 * 1024 * 1024

/-- Serialize a message. -/
def encode (msg : WireMessage) : Option (List UInt8) := bincode.serialize maxMessageSize msg

/-- Read a message. Longer data is not looked at. -/
def decode (data : List UInt8) : Option WireMessage := bincode.deserialize maxMessageSize data

def members (wire : List WireMember) : List (NodeId × ℕ × ℕ) :=
  wire.map fun member => (member.1, member.2.1.toNat, member.2.2.toNat)

def range (wire : WireRange) : Range := ⟨wire.1.toNat, wire.2.toNat⟩

/-- What the receive loops read. -/
def message : WireMessage → MeshMessage
  | ⟨.hello, nodeId, _, protocolVersion⟩ => .hello nodeId protocolVersion.toNat
  | ⟨.helloAck, nodeId, accepted⟩ => .helloAck nodeId accepted
  | ⟨.assignLayers, sessionId, modelId, layerRange, totalLayers, modelSource, nextPeer, initiator⟩ =>
      .assignLayers sessionId modelId (range layerRange) totalLayers.toNat modelSource nextPeer
        initiator
  | ⟨.assignLayersAck, sessionId, ready, error⟩ => .assignLayersAck sessionId ready error
  | ⟨.activationTensor, sessionId, tokenPosition, data, shape, dtype⟩ =>
      .activationTensor sessionId tokenPosition.toNat data (shape.map UInt64.toNat) dtype
  | ⟨.logits, sessionId, tokenPosition, data, vocabSize⟩ =>
      .logits sessionId tokenPosition.toNat data vocabSize.toNat
  | ⟨.verifyChallenge, sessionId, layerIndex, inputHash⟩ =>
      .verifyChallenge sessionId layerIndex.toNat inputHash.val
  | ⟨.verifyResponse, sessionId, outputHash, passed⟩ =>
      .verifyResponse sessionId outputHash.val passed
  | ⟨.releaseSession, sessionId⟩ => .releaseSession sessionId
  | ⟨.ping, timestampMs⟩ => .ping timestampMs
  | ⟨.pong, timestampMs⟩ => .pong timestampMs
  | ⟨.error, sessionId, message⟩ => .error sessionId message
  | ⟨.inferenceRequest, sessionId, modelId, messagesJson, maxTokens, temperature, topP⟩ =>
      .inferenceRequest sessionId modelId messagesJson maxTokens.toNat temperature topP
  | ⟨.inferenceToken, sessionId, text, tokenId, isDone⟩ =>
      .inferenceToken sessionId text tokenId.toNat isDone
  | ⟨.inferenceComplete, sessionId, fullText, tokensGenerated, error⟩ =>
      .inferenceComplete sessionId fullText tokensGenerated.toNat error
  | ⟨.pipelineHeartbeat, sessionId, stageIndex, tokensProcessed⟩ =>
      .pipelineHeartbeat sessionId stageIndex.toNat tokensProcessed.toNat
  | ⟨.peerLeaving, sessionId, reason, departureInSecs⟩ =>
      .peerLeaving sessionId reason departureInSecs.toNat
  | ⟨.compressedActivationTensor, sessionId, tokenPosition, data, shape, dtype, compression⟩ =>
      .compressedActivationTensor sessionId tokenPosition.toNat data (shape.map UInt64.toNat) dtype
        compression
  | ⟨.swarmInvite, swarmId, modelId, role, layerRange, totalLayers, modelSource, wire⟩ =>
      .swarmInvite swarmId modelId role (range layerRange) totalLayers.toNat modelSource
        (members wire)
  | ⟨.swarmInviteAck, swarmId, accepted, error⟩ => .swarmInviteAck swarmId accepted error
  | ⟨.swarmHeartbeat, swarmId, activeRequests, avgTokS⟩ =>
      .swarmHeartbeat swarmId activeRequests.toNat avgTokS
  | ⟨.swarmRebalance, swarmId, wire, reason⟩ => .swarmRebalance swarmId (members wire) reason
  | ⟨.draftTokens, sessionId, tokens, draftModelId⟩ =>
      .draftTokens sessionId (tokens.map UInt32.toNat) draftModelId
  | ⟨.verifyDraft, sessionId, acceptedCount, correctionToken⟩ =>
      .verifyDraft sessionId acceptedCount.toNat (correctionToken.map UInt32.toNat)

end WireMessage

/-! ## What is read can be sent -/

section Sparing

open Codec Discovery

theorem unitEnum_sparing {α : Type} [DecidableEq α] {variants : List α}
    {hcount : variants.length ≤ 2 ^ 32} {hall : ∀ a, a ∈ variants} (hdistinct : variants.Nodup) :
    (unitEnum variants hcount hall).Sparing :=
  (Sparing.variant _ hcount).refine fun {i a} h => by
    cases h
    exact Fin.ext (hdistinct.idxOf_getElem i.val i.isLt)

theorem nodeId_sparing : NodeId.bincode.Sparing := Sparing.bytes.refine fun {raw id} h => by
  split at h
  · cases h
    rfl
  · cases h

theorem uuid_sparing : Uuid.bincode.Sparing := Sparing.bytes.refine fun {raw uuid} h => by
  split at h
  · rename_i hlen
    cases h
    rw [← List.length_reverse] at hlen
    have hlt : LittleEndian.ofBytes raw.reverse < 2 ^ 128 := by
      have hraw := LittleEndian.ofBytes_lt raw.reverse
      rw [hlen] at hraw
      exact hraw.trans_le (by norm_num)
    have hnumber := BitVec.toNat_ofNat (LittleEndian.ofBytes raw.reverse) 128
    rw [Nat.mod_eq_of_lt hlt] at hnumber
    rw [Sparing.toBytes_eq hlen hnumber, List.reverse_reverse]
  · cases h

theorem dtype_sparing : TensorDtype.bincode.Sparing := unitEnum_sparing (by decide)

theorem compression_sparing : CompressionMethod.bincode.Sparing := by
  have hkind : CompressionKind.bincode.Sparing := unitEnum_sparing (by decide)
  have hpayload : ∀ kind, (CompressionKind.payloadBincode kind).Sparing := by
    intro kind
    cases kind with
    | none => exact Sparing.unit
    | lz4 => exact Sparing.unit
    | zstd => exact Sparing.byte
  refine (hkind.sigma hpayload).refine ?_
  rintro ⟨kind, payload⟩ method h
  cases kind <;> (cases h; rfl)

theorem power_sparing : PowerSource.bincode.Sparing := by
  have hpayload : ∀ tag, (PowerSource.payloadBincode tag).Sparing := by
    intro tag
    match tag with
    | 0 => exact Sparing.unit
    | 1 => exact Sparing.byte
    | 2 => exact Sparing.unit
  refine ((Sparing.variant 3 _).sigma hpayload).refine ?_
  rintro ⟨tag, payload⟩ source h
  match tag, payload with
  | 0, _ => cases h; rfl
  | 1, _ => cases h; rfl
  | 2, _ => cases h; rfl

theorem member_sparing : WireMember.bincode.Sparing :=
  nodeId_sparing.pair (Sparing.u32.pair Sparing.u32)

theorem hardware_sparing : (HardwareProfile.bincode word64).Sparing := by
  have hcpu : CpuInfo.bincode.Sparing :=
    (Sparing.string.pair <| Sparing.u32.pair <| Sparing.u32.pair <|
      Sparing.string.seq.pair Sparing.varint).refine fun h => by cases h; rfl
  have hmemory : (MemoryInfo.bincode word64).Sparing :=
    (Sparing.varint.pair <| Sparing.varint.pair Sparing.word64).refine fun h => by cases h; rfl
  have hgpu : GpuInfo.bincode.Sparing :=
    (Sparing.string.pair <| Sparing.varint.pair <|
      (unitEnum_sparing (by decide)).pair Sparing.string.option).refine fun h => by cases h; rfl
  have hstorage : (StorageInfo.bincode word64).Sparing :=
    (Sparing.varint.pair Sparing.word64).refine fun h => by cases h; rfl
  have hplatform : PlatformInfo.bincode.Sparing :=
    (Sparing.string.pair <| Sparing.string.pair <| Sparing.bool.pair power_sparing).refine
      fun h => by cases h; rfl
  exact (hcpu.pair <| hmemory.pair <| hgpu.seq.pair <| hstorage.pair hplatform).refine
    fun h => by cases h; rfl

theorem MessageKind.payload_sparing (kind : MessageKind) : kind.payloadBincode.Sparing := by
  cases kind <;> simp only [payloadBincode] <;>
    apply_rules [Sparing.pair, Sparing.option, Sparing.seq, Sparing.fixed, Sparing.byte,
      Sparing.bytes, Sparing.string, Sparing.bool, Sparing.varint, Sparing.u32, Sparing.word32,
      Sparing.word64, nodeId_sparing, uuid_sparing, dtype_sparing, compression_sparing,
      member_sparing, hardware_sparing]

theorem WireMessage.bincode_sparing : WireMessage.bincode.Sparing :=
  Sparing.sigma (unitEnum_sparing (by decide)) MessageKind.payload_sparing

end Sparing

/-! ## Messages whose fields fit -/

/-- The fields of a message fit their widths. -/
def MeshMessage.Fits : MeshMessage → Prop
  | .hello _ protocolVersion => protocolVersion < 2 ^ 32
  | .assignLayers _ _ layerRange totalLayers .. =>
      layerRange.start < 2 ^ 32 ∧ layerRange.stop < 2 ^ 32 ∧ totalLayers < 2 ^ 32
  | .activationTensor _ tokenPosition _ shape _
  | .compressedActivationTensor _ tokenPosition _ shape _ _ =>
      tokenPosition < 2 ^ 32 ∧ ∀ n ∈ shape, n < 2 ^ 64
  | .logits _ tokenPosition _ vocabSize => tokenPosition < 2 ^ 32 ∧ vocabSize < 2 ^ 32
  | .verifyChallenge _ layerIndex inputHash => layerIndex < 2 ^ 32 ∧ inputHash.length = 32
  | .verifyResponse _ outputHash _ => outputHash.length = 32
  | .inferenceRequest _ _ _ maxTokens .. => maxTokens < 2 ^ 32
  | .inferenceToken _ _ tokenId _ => tokenId < 2 ^ 32
  | .inferenceComplete _ _ tokensGenerated _ => tokensGenerated < 2 ^ 32
  | .pipelineHeartbeat _ stageIndex tokensProcessed =>
      stageIndex < 2 ^ 32 ∧ tokensProcessed < 2 ^ 32
  | .peerLeaving _ _ departureInSecs => departureInSecs < 2 ^ 32
  | .swarmInvite _ _ _ layerRange totalLayers _ members =>
      layerRange.start < 2 ^ 32 ∧ layerRange.stop < 2 ^ 32 ∧ totalLayers < 2 ^ 32 ∧
        ∀ member ∈ members, member.2.1 < 2 ^ 32 ∧ member.2.2 < 2 ^ 32
  | .swarmHeartbeat _ activeRequests _ => activeRequests < 2 ^ 32
  | .swarmRebalance _ newAssignments _ =>
      ∀ member ∈ newAssignments, member.2.1 < 2 ^ 32 ∧ member.2.2 < 2 ^ 32
  | .draftTokens _ tokens _ => ∀ token ∈ tokens, token < 2 ^ 32
  | .verifyDraft _ acceptedCount correctionToken =>
      acceptedCount < 2 ^ 32 ∧ ∀ token ∈ correctionToken, token < 2 ^ 32
  | _ => True

theorem exists_u32 {n : ℕ} (h : n < 2 ^ 32) : ∃ w : UInt32, w.toNat = n :=
  ⟨.ofNat n, UInt32.toNat_ofNat_of_lt' h⟩

theorem exists_u64 {n : ℕ} (h : n < 2 ^ 64) : ∃ w : UInt64, w.toNat = n :=
  ⟨.ofNat n, UInt64.toNat_ofNat_of_lt' h⟩

theorem exists_map {α β : Type} {f : α → β} {values : List β} (h : ∀ b ∈ values, ∃ a, f a = b) :
    ∃ raw : List α, raw.map f = values := by
  have hrange : values ∈ Set.range (List.map f) := by
    rw [Set.range_list_map]
    exact h
  exact hrange

theorem exists_range {range : Range} (hstart : range.start < 2 ^ 32) (hstop : range.stop < 2 ^ 32) :
    ∃ wire, WireMessage.range wire = range := by
  obtain ⟨start, hstart⟩ := exists_u32 hstart
  obtain ⟨stop, hstop⟩ := exists_u32 hstop
  refine ⟨(start, stop), ?_⟩
  rw [WireMessage.range, hstart, hstop]

theorem exists_members {members : List (NodeId × ℕ × ℕ)}
    (h : ∀ member ∈ members, member.2.1 < 2 ^ 32 ∧ member.2.2 < 2 ^ 32) :
    ∃ wire, WireMessage.members wire = members := by
  apply exists_map
  intro member hmember
  obtain ⟨hstart, hstop⟩ := h member hmember
  obtain ⟨start, hstart⟩ := exists_u32 hstart
  obtain ⟨stop, hstop⟩ := exists_u32 hstop
  refine ⟨(member.1, start, stop), ?_⟩
  rw [hstart, hstop]

theorem lt_of_mem_map {α : Type} {f : α → ℕ} {bound : ℕ} (h : ∀ a, f a < bound) (values : List α) :
    ∀ n ∈ values.map f, n < bound := by
  intro n hn
  obtain ⟨a, -, rfl⟩ := List.mem_map.mp hn
  exact h a

theorem lt_of_mem_members (wire : List WireMember) :
    ∀ member ∈ WireMessage.members wire, member.2.1 < 2 ^ 32 ∧ member.2.2 < 2 ^ 32 := by
  intro member hmember
  obtain ⟨raw, -, rfl⟩ := List.mem_map.mp hmember
  exact ⟨raw.2.1.toNat_lt, raw.2.2.toNat_lt⟩

theorem WireMessage.fits (msg : WireMessage) : msg.message.Fits := by
  obtain ⟨kind, payload⟩ := msg
  cases kind with
  | hello => exact payload.2.2.toNat_lt
  | helloAck | assignLayersAck | releaseSession | ping | pong | error | swarmInviteAck =>
      exact trivial
  | assignLayers =>
      exact ⟨payload.2.2.1.1.toNat_lt, payload.2.2.1.2.toNat_lt, payload.2.2.2.1.toNat_lt⟩
  | activationTensor | compressedActivationTensor =>
      exact ⟨payload.2.1.toNat_lt, lt_of_mem_map UInt64.toNat_lt _⟩
  | logits => exact ⟨payload.2.1.toNat_lt, payload.2.2.2.toNat_lt⟩
  | verifyChallenge => exact ⟨payload.2.1.toNat_lt, payload.2.2.property⟩
  | verifyResponse => exact payload.2.1.property
  | inferenceRequest => exact payload.2.2.2.1.toNat_lt
  | inferenceToken | inferenceComplete => exact payload.2.2.1.toNat_lt
  | pipelineHeartbeat => exact ⟨payload.2.1.toNat_lt, payload.2.2.toNat_lt⟩
  | peerLeaving => exact payload.2.2.toNat_lt
  | swarmInvite =>
      exact ⟨payload.2.2.2.1.1.toNat_lt, payload.2.2.2.1.2.toNat_lt, payload.2.2.2.2.1.toNat_lt,
        lt_of_mem_members _⟩
  | swarmHeartbeat => exact payload.2.1.toNat_lt
  | swarmRebalance => exact lt_of_mem_members _
  | draftTokens => exact lt_of_mem_map UInt32.toNat_lt _
  | verifyDraft =>
      refine ⟨payload.2.1.toNat_lt, ?_⟩
      intro token htoken
      obtain ⟨raw, -, rfl⟩ := Option.map_eq_some_iff.mp htoken
      exact raw.toNat_lt

/-- A message can be written down just if its fields fit. -/
theorem MeshMessage.fits_iff {m : MeshMessage} : m.Fits ↔ ∃ msg : WireMessage, msg.message = m := by
  constructor
  · intro h
    cases m with
    | hello nodeId protocolVersion =>
        obtain ⟨version, rfl⟩ := exists_u32 h
        exact ⟨⟨.hello, nodeId, (Discovery.PeerInfo.plain 0 nodeId).hardware, version⟩, rfl⟩
    | helloAck nodeId accepted => exact ⟨⟨.helloAck, nodeId, accepted⟩, rfl⟩
    | assignLayers sessionId modelId layerRange totalLayers modelSource nextPeer initiatorPeer =>
        obtain ⟨hstart, hstop, htotal⟩ := h
        obtain ⟨wire, rfl⟩ := exists_range hstart hstop
        obtain ⟨total, rfl⟩ := exists_u32 htotal
        exact ⟨⟨.assignLayers, sessionId, modelId, wire, total, modelSource, nextPeer,
          initiatorPeer⟩, rfl⟩
    | assignLayersAck sessionId ready error =>
        exact ⟨⟨.assignLayersAck, sessionId, ready, error⟩, rfl⟩
    | activationTensor sessionId tokenPosition data shape dtype =>
        obtain ⟨hposition, hshape⟩ := h
        obtain ⟨position, rfl⟩ := exists_u32 hposition
        obtain ⟨sizes, rfl⟩ := exists_map fun n hn => exists_u64 (hshape n hn)
        exact ⟨⟨.activationTensor, sessionId, position, data, sizes, dtype⟩, rfl⟩
    | logits sessionId tokenPosition data vocabSize =>
        obtain ⟨hposition, hsize⟩ := h
        obtain ⟨position, rfl⟩ := exists_u32 hposition
        obtain ⟨size, rfl⟩ := exists_u32 hsize
        exact ⟨⟨.logits, sessionId, position, data, size⟩, rfl⟩
    | verifyChallenge sessionId layerIndex inputHash =>
        obtain ⟨hindex, hhash⟩ := h
        obtain ⟨index, rfl⟩ := exists_u32 hindex
        exact ⟨⟨.verifyChallenge, sessionId, index, inputHash, hhash⟩, rfl⟩
    | verifyResponse sessionId outputHash passed =>
        exact ⟨⟨.verifyResponse, sessionId, ⟨outputHash, h⟩, passed⟩, rfl⟩
    | releaseSession sessionId => exact ⟨⟨.releaseSession, sessionId⟩, rfl⟩
    | ping timestampMs => exact ⟨⟨.ping, timestampMs⟩, rfl⟩
    | pong timestampMs => exact ⟨⟨.pong, timestampMs⟩, rfl⟩
    | error sessionId message => exact ⟨⟨.error, sessionId, message⟩, rfl⟩
    | inferenceRequest sessionId modelId messagesJson maxTokens temperature topP =>
        obtain ⟨most, rfl⟩ := exists_u32 h
        exact ⟨⟨.inferenceRequest, sessionId, modelId, messagesJson, most, temperature, topP⟩, rfl⟩
    | inferenceToken sessionId text tokenId isDone =>
        obtain ⟨token, rfl⟩ := exists_u32 h
        exact ⟨⟨.inferenceToken, sessionId, text, token, isDone⟩, rfl⟩
    | inferenceComplete sessionId fullText tokensGenerated error =>
        obtain ⟨generated, rfl⟩ := exists_u32 h
        exact ⟨⟨.inferenceComplete, sessionId, fullText, generated, error⟩, rfl⟩
    | pipelineHeartbeat sessionId stageIndex tokensProcessed =>
        obtain ⟨hindex, hprocessed⟩ := h
        obtain ⟨index, rfl⟩ := exists_u32 hindex
        obtain ⟨processed, rfl⟩ := exists_u32 hprocessed
        exact ⟨⟨.pipelineHeartbeat, sessionId, index, processed⟩, rfl⟩
    | peerLeaving sessionId reason departureInSecs =>
        obtain ⟨seconds, rfl⟩ := exists_u32 h
        exact ⟨⟨.peerLeaving, sessionId, reason, seconds⟩, rfl⟩
    | compressedActivationTensor sessionId tokenPosition data shape dtype compression =>
        obtain ⟨hposition, hshape⟩ := h
        obtain ⟨position, rfl⟩ := exists_u32 hposition
        obtain ⟨sizes, rfl⟩ := exists_map fun n hn => exists_u64 (hshape n hn)
        exact ⟨⟨.compressedActivationTensor, sessionId, position, data, sizes, dtype, compression⟩,
          rfl⟩
    | swarmInvite swarmId modelId role layerRange totalLayers modelSource members =>
        obtain ⟨hstart, hstop, htotal, hmembers⟩ := h
        obtain ⟨wire, rfl⟩ := exists_range hstart hstop
        obtain ⟨total, rfl⟩ := exists_u32 htotal
        obtain ⟨wireMembers, rfl⟩ := exists_members hmembers
        exact ⟨⟨.swarmInvite, swarmId, modelId, role, wire, total, modelSource, wireMembers⟩, rfl⟩
    | swarmInviteAck swarmId accepted error =>
        exact ⟨⟨.swarmInviteAck, swarmId, accepted, error⟩, rfl⟩
    | swarmHeartbeat swarmId activeRequests avgTokS =>
        obtain ⟨active, rfl⟩ := exists_u32 h
        exact ⟨⟨.swarmHeartbeat, swarmId, active, avgTokS⟩, rfl⟩
    | swarmRebalance swarmId newAssignments reason =>
        obtain ⟨wireMembers, rfl⟩ := exists_members h
        exact ⟨⟨.swarmRebalance, swarmId, wireMembers, reason⟩, rfl⟩
    | draftTokens sessionId tokens draftModelId =>
        obtain ⟨drafted, rfl⟩ := exists_map fun n hn => exists_u32 (h n hn)
        exact ⟨⟨.draftTokens, sessionId, drafted, draftModelId⟩, rfl⟩
    | verifyDraft sessionId acceptedCount correctionToken =>
        obtain ⟨haccepted, hcorrection⟩ := h
        obtain ⟨accepted, rfl⟩ := exists_u32 haccepted
        cases correctionToken with
        | none => exact ⟨⟨.verifyDraft, sessionId, accepted, none⟩, rfl⟩
        | some token =>
            obtain ⟨correction, rfl⟩ := exists_u32 (hcorrection token rfl)
            exact ⟨⟨.verifyDraft, sessionId, accepted, some correction⟩, rfl⟩
  · rintro ⟨msg, rfl⟩
    exact msg.fits

/-! ## The whole format -/

namespace WireMessage

theorem maxMessageSize_lt : maxMessageSize < 2 ^ 64 := by decide

/-- A message is read if all of its data is there. -/
theorem decode_take {msg : WireMessage} {data : List UInt8} (h : msg.encode = some data) (n : ℕ) :
    decode (data.take n) = if data.length ≤ n then some msg else none := by
  split_ifs with hwhole
  · rw [List.take_of_length_le hwhole]
    exact Codec.deserialize_serialize bincode maxMessageSize_lt h
  · have hmore : data.drop n ≠ [] := by
      rw [Ne, List.drop_eq_nil_iff]
      exact hwhole
    rw [← List.take_append_drop n data] at h
    exact Codec.deserialize_truncated bincode maxMessageSize_lt h hmore maxMessageSize

theorem eq_of_encode {msg : WireMessage} {data : List UInt8} (h : msg.encode = some data) :
    data = bincode.encode msg ∧ data.length ≤ maxMessageSize := by
  rw [encode, Codec.serialize] at h
  split at h
  · rename_i hlimit
    cases h
    exact ⟨rfl, hlimit⟩
  · cases h

/-- Nothing may follow a message. -/
theorem decode_append {msg : WireMessage} {data more : List UInt8} (h : msg.encode = some data)
    (hmore : more ≠ []) : decode (data ++ more) = none := by
  obtain ⟨rfl, hlimit⟩ := eq_of_encode h
  rw [decode, Codec.deserialize,
    bincode.decode_encode more (lt_of_le_of_lt hlimit maxMessageSize_lt)]
  cases more with
  | nil => exact absurd rfl hmore
  | cons byte more => rfl

end WireMessage

end HiveBear.Mesh
