/-
# Peer records

What a node advertises about itself, with everything that travels: to the coordinator as
JSON, over the local network in binary. The schedulers read only part of it, which is
`Mesh.PeerInfo`.

The binary form is given here. It is a codec: it reads back what it writes, whatever the
record holds, and never takes a record that is cut short for a whole one.
-/

import HiveBear.Library.Bincode
import HiveBear.Mesh.Swarm.Formation

namespace HiveBear.Mesh.Discovery

open Bincode Formation

/-! ## The record -/

/-- An address and a port of version 4 or 6 of the internet protocol. -/
inductive SocketAddr
  | v4 (ip : {bytes : List UInt8 // bytes.length = 4}) (port : UInt16)
  | v6 (ip : {bytes : List UInt8 // bytes.length = 16}) (port : UInt16)
  deriving DecidableEq

/-- A port of the node's own machine. -/
def SocketAddr.localhost (port : UInt16) : SocketAddr := .v4 ⟨[127, 0, 0, 1], rfl⟩ port

/-- Mesh tier: free (volunteer) or paid (priority). -/
inductive MeshTier
  | free
  | paid
  deriving DecidableEq, Repr

/-- Detected NAT type of a node. -/
inductive NatType
  | openNet
  | fullCone
  | restrictedCone
  | portRestricted
  | symmetric
  | unknown
  deriving DecidableEq, Repr

/-- Where a device gets its power from. -/
inductive PowerSource
  | ac
  | battery (chargePercent : UInt8)
  | unknown
  deriving DecidableEq, Repr

/-- The interface through which a graphics processor computes. -/
inductive ComputeApi
  | vulkan
  | cuda
  | metal
  | openCl
  | webGpu
  | directX12
  | none
  deriving DecidableEq, Repr

structure CpuInfo where
  modelName : String
  physicalCores : UInt32
  logicalCores : UInt32
  isaExtensions : List String
  cacheSizeBytes : UInt64
  deriving DecidableEq

structure MemoryInfo (F : Type) where
  totalBytes : UInt64
  availableBytes : UInt64
  estimatedBandwidthGbps : F
  deriving DecidableEq

structure GpuInfo where
  name : String
  vramBytes : UInt64
  computeApi : ComputeApi
  driverVersion : Option String
  deriving DecidableEq

structure StorageInfo (F : Type) where
  availableBytes : UInt64
  estimatedReadSpeedMbps : F
  deriving DecidableEq

structure PlatformInfo where
  os : String
  arch : String
  isMobile : Bool
  powerSource : PowerSource
  deriving DecidableEq

/-- The hardware of a node. -/
structure HardwareProfile (F : Type) where
  cpu : CpuInfo
  memory : MemoryInfo F
  gpus : List GpuInfo
  storage : StorageInfo F
  platform : PlatformInfo
  deriving DecidableEq

/-- Information about a peer node in the mesh. -/
structure PeerInfo (F : Type) where
  nodeId : NodeId
  hardware : HardwareProfile F
  availableMemoryBytes : UInt64
  availableVramBytes : UInt64
  networkBandwidthMbps : F
  latencyMs : Option F
  tier : MeshTier
  reputationScore : F
  addr : SocketAddr
  /-- External (NAT-mapped) address, if known. -/
  externalAddr : Option SocketAddr
  natType : NatType
  /-- Measured round-trip times (ms) to known peers. -/
  latencyMap : AList fun _ : NodeId => F
  /-- Model this peer is currently serving. -/
  servingModelId : Option String
  /-- Swarm this peer currently belongs to. -/
  swarmId : Option Uuid
  /-- If set, this peer can serve as a speculative decoding drafter. -/
  draftCapability : Option (DraftCapability F)

/-- The record of a node that has nothing to offer, for concrete examples. -/
def PeerInfo.plain {F : Type} (zero : F) (nodeId : NodeId) : PeerInfo F where
  nodeId := nodeId
  hardware :=
    { cpu := ⟨"", 1, 1, [], 0⟩
      memory := ⟨0, 0, zero⟩
      gpus := []
      storage := ⟨0, zero⟩
      platform := ⟨"", "", false, .unknown⟩ }
  availableMemoryBytes := 0
  availableVramBytes := 0
  networkBandwidthMbps := zero
  latencyMs := none
  tier := .free
  reputationScore := zero
  addr := .localhost 7878
  externalAddr := none
  natType := .unknown
  latencyMap := ∅
  servingModelId := none
  swarmId := none
  draftCapability := none

/-! ## The binary form -/

/-- An enumeration without payloads, given its variants in order. -/
def unitEnum {α : Type} [DecidableEq α] (variants : List α) (hcount : variants.length ≤ 2 ^ 32)
    (hall : ∀ a, a ∈ variants) : Codec α :=
  (Codec.variant variants.length hcount).refine
    (fun a => ⟨variants.idxOf a, List.idxOf_lt_length_iff.mpr (hall a)⟩)
    (fun i => some (variants.get i))
    (fun _ => congrArg some (List.idxOf_get _))

def MeshTier.bincode : Codec MeshTier :=
  unitEnum [.free, .paid] (by decide) (fun tier => by cases tier <;> decide)

def NatType.bincode : Codec NatType :=
  unitEnum [.openNet, .fullCone, .restrictedCone, .portRestricted, .symmetric, .unknown]
    (by decide) (fun natType => by cases natType <;> decide)

def ComputeApi.bincode : Codec ComputeApi :=
  unitEnum [.vulkan, .cuda, .metal, .openCl, .webGpu, .directX12, .none]
    (by decide) (fun api => by cases api <;> decide)

/-- The key bytes behind their length. -/
def NodeId.bincode : Codec NodeId :=
  Codec.bytes.refine NodeId.bytes (fun bytes => if h : bytes.length = 32 then some ⟨bytes, h⟩ else none)
    (fun id => dif_pos id.length_bytes)

/-- The sixteen bytes of an identifier, highest first, behind their length. -/
def Uuid.bincode : Codec Uuid :=
  Codec.bytes.refine (fun uuid => (LittleEndian.toBytes 16 uuid.toNat).reverse)
    (fun bytes =>
      if bytes.length = 16 then some (BitVec.ofNat 128 (LittleEndian.ofBytes bytes.reverse)) else none)
    (fun uuid => by
      rw [List.length_reverse, LittleEndian.length_toBytes, if_pos rfl, List.reverse_reverse,
        LittleEndian.ofBytes_toBytes uuid.isLt, BitVec.ofNat_toNat, BitVec.setWidth_eq])

/-- The version of an address. -/
inductive IpVersion
  | v4
  | v6
  deriving DecidableEq

def IpVersion.bincode : Codec IpVersion :=
  unitEnum [.v4, .v6] (by decide) (fun version => by cases version <;> decide)

/-- How many bytes an address has. -/
def IpVersion.size : IpVersion → ℕ
  | .v4 => 4
  | .v6 => 16

/-- A tag for the version, the address, the port. -/
def SocketAddr.bincode : Codec SocketAddr :=
  (Codec.sigma IpVersion.bincode fun version => (Codec.fixed version.size).pair Codec.u16).refine
    (fun
      | .v4 ip port => ⟨.v4, ip, port⟩
      | .v6 ip port => ⟨.v6, ip, port⟩)
    (fun
      | ⟨.v4, ip, port⟩ => some (.v4 ip port)
      | ⟨.v6, ip, port⟩ => some (.v6 ip port))
    (fun addr => by cases addr <;> rfl)

/-- What a power source carries behind its tag. -/
def PowerSource.Payload : Fin 3 → Type
  | 1 => UInt8
  | _ => Unit

def PowerSource.payloadBincode : (tag : Fin 3) → Codec (PowerSource.Payload tag)
  | 0 => Codec.unit
  | 1 => Codec.byte
  | 2 => Codec.unit

def PowerSource.bincode : Codec PowerSource :=
  (Codec.sigma (Codec.variant 3 (by decide)) PowerSource.payloadBincode).refine
    (fun
      | .ac => ⟨0, ()⟩
      | .battery chargePercent => ⟨1, chargePercent⟩
      | .unknown => ⟨2, ()⟩)
    (fun
      | ⟨0, _⟩ => some .ac
      | ⟨1, chargePercent⟩ => some (.battery chargePercent)
      | ⟨2, _⟩ => some .unknown)
    (fun source => by cases source <;> rfl)

def CpuInfo.bincode : Codec CpuInfo :=
  (Codec.string.pair <| Codec.u32.pair <| Codec.u32.pair <|
    (Codec.seq Codec.string Codec.length_string).pair Codec.varint).refine
    (fun cpu => (cpu.modelName, cpu.physicalCores, cpu.logicalCores, cpu.isaExtensions,
      cpu.cacheSizeBytes))
    (fun (modelName, physicalCores, logicalCores, isaExtensions, cacheSizeBytes) =>
      some ⟨modelName, physicalCores, logicalCores, isaExtensions, cacheSizeBytes⟩)
    (fun _ => rfl)

def GpuInfo.bincode : Codec GpuInfo :=
  (Codec.string.pair <| Codec.varint.pair <|
    ComputeApi.bincode.pair Codec.string.option).refine
    (fun gpu => (gpu.name, gpu.vramBytes, gpu.computeApi, gpu.driverVersion))
    (fun (name, vramBytes, computeApi, driverVersion) =>
      some ⟨name, vramBytes, computeApi, driverVersion⟩)
    (fun _ => rfl)

theorem GpuInfo.length_bincode (gpu : GpuInfo) : 1 ≤ (GpuInfo.bincode.encode gpu).length :=
  Codec.room_refine (Codec.room_pair _ Codec.length_string) gpu

def PlatformInfo.bincode : Codec PlatformInfo :=
  (Codec.string.pair <| Codec.string.pair <| Codec.bool.pair PowerSource.bincode).refine
    (fun platform => (platform.os, platform.arch, platform.isMobile, platform.powerSource))
    (fun (os, arch, isMobile, powerSource) => some ⟨os, arch, isMobile, powerSource⟩)
    (fun _ => rfl)

section Floats

variable {F : Type} (float : Codec F)

def MemoryInfo.bincode : Codec (MemoryInfo F) :=
  (Codec.varint.pair <| Codec.varint.pair float).refine
    (fun memory => (memory.totalBytes, memory.availableBytes, memory.estimatedBandwidthGbps))
    (fun (totalBytes, availableBytes, estimatedBandwidthGbps) =>
      some ⟨totalBytes, availableBytes, estimatedBandwidthGbps⟩)
    (fun _ => rfl)

def StorageInfo.bincode : Codec (StorageInfo F) :=
  (Codec.varint.pair float).refine
    (fun storage => (storage.availableBytes, storage.estimatedReadSpeedMbps))
    (fun (availableBytes, estimatedReadSpeedMbps) => some ⟨availableBytes, estimatedReadSpeedMbps⟩)
    (fun _ => rfl)

def HardwareProfile.bincode : Codec (HardwareProfile F) :=
  (CpuInfo.bincode.pair <| (MemoryInfo.bincode float).pair <|
    (Codec.seq GpuInfo.bincode GpuInfo.length_bincode).pair <|
    (StorageInfo.bincode float).pair PlatformInfo.bincode).refine
    (fun hardware => (hardware.cpu, hardware.memory, hardware.gpus, hardware.storage,
      hardware.platform))
    (fun (cpu, memory, gpus, storage, platform) => some ⟨cpu, memory, gpus, storage, platform⟩)
    (fun _ => rfl)

def DraftCapability.bincode : Codec (DraftCapability F) :=
  (Codec.string.pair <| Codec.varint.pair float).refine
    (fun capability => (capability.draftModelId, capability.draftModelSizeBytes,
      capability.estimatedDraftTokS))
    (fun (draftModelId, draftModelSizeBytes, estimatedDraftTokS) =>
      some ⟨draftModelId, draftModelSizeBytes, estimatedDraftTokS⟩)
    (fun _ => rfl)

theorem NodeId.length_bincode (id : NodeId) : 1 ≤ (NodeId.bincode.encode id).length :=
  Codec.room_refine (c := Codec.bytes) Codec.length_seq id

/-- The record in binary, field by field. -/
def PeerInfo.bincode : Codec (PeerInfo F) :=
  (NodeId.bincode.pair <| (HardwareProfile.bincode float).pair <| Codec.varint.pair <|
    Codec.varint.pair <| float.pair <| float.option.pair <| MeshTier.bincode.pair <|
    float.pair <| SocketAddr.bincode.pair <| SocketAddr.bincode.option.pair <|
    NatType.bincode.pair <|
    (Codec.map (NodeId.bincode.pair float) (Codec.room_pair float NodeId.length_bincode)).pair <|
    Codec.string.option.pair <| Uuid.bincode.option.pair
    (DraftCapability.bincode float).option).refine
    (fun peer => (peer.nodeId, peer.hardware, peer.availableMemoryBytes, peer.availableVramBytes,
      peer.networkBandwidthMbps, peer.latencyMs, peer.tier, peer.reputationScore, peer.addr,
      peer.externalAddr, peer.natType, peer.latencyMap, peer.servingModelId, peer.swarmId,
      peer.draftCapability))
    (fun (nodeId, hardware, availableMemoryBytes, availableVramBytes, networkBandwidthMbps,
        latencyMs, tier, reputationScore, addr, externalAddr, natType, latencyMap, servingModelId,
        swarmId, draftCapability) =>
      some ⟨nodeId, hardware, availableMemoryBytes, availableVramBytes, networkBandwidthMbps,
        latencyMs, tier, reputationScore, addr, externalAddr, natType, latencyMap, servingModelId,
        swarmId, draftCapability⟩)
    (fun _ => rfl)

end Floats

end HiveBear.Mesh.Discovery
