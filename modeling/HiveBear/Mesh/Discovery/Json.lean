/-
# Peer records as JSON

The form in which records travel between a node and the coordinator. A record reads back
if and only if its latency map is empty and its floats and its texts for addresses and for
the swarm's identity do: the keys of the map are node identities, which are sequences of
bytes, and JSON has no such keys.
-/

import HiveBear.Library.Json
import HiveBear.Mesh.Discovery.PeerInfo

namespace HiveBear.Mesh.Discovery

open Formation Json

/-- How floats, addresses and identities are written in text and read from it. -/
structure Texts (F : Type) where
  floats : Json.Floats F
  showAddr : SocketAddr → String
  readAddr : String → Option SocketAddr
  showUuid : Uuid → String
  readUuid : String → Option Uuid

variable {F : Type}

/-! ## Enumerations -/

def MeshTier.json : Json.Codec F MeshTier :=
  Codec.unitEnum [.free, .paid] fun
    | .free => "Free"
    | .paid => "Paid"

def NatType.json : Json.Codec F NatType :=
  Codec.unitEnum [.openNet, .fullCone, .restrictedCone, .portRestricted, .symmetric, .unknown] fun
    | .openNet => "Open"
    | .fullCone => "FullCone"
    | .restrictedCone => "RestrictedCone"
    | .portRestricted => "PortRestricted"
    | .symmetric => "Symmetric"
    | .unknown => "Unknown"

def ComputeApi.json : Json.Codec F ComputeApi :=
  Codec.unitEnum [.vulkan, .cuda, .metal, .openCl, .webGpu, .directX12, .none] fun
    | .vulkan => "Vulkan"
    | .cuda => "Cuda"
    | .metal => "Metal"
    | .openCl => "OpenCl"
    | .webGpu => "WebGpu"
    | .directX12 => "DirectX12"
    | .none => "None"

/-- The payload of a battery. -/
def chargePercent : Json.Codec F UInt8 := (Fields.field "charge_percent" Codec.uint8 none).object

def PowerSource.json : Json.Codec F PowerSource where
  write
    | .ac => some (.str "Ac")
    | .battery percent =>
        (chargePercent.write percent).map fun payload => .obj [("Battery", payload)]
    | .unknown => some (.str "Unknown")
  read
    | .str "Ac" => some .ac
    | .str "Unknown" => some .unknown
    | .obj [("Battery", payload)] => (chargePercent.read payload).map .battery
    | _ => none

theorem readsBack_tier (tier : MeshTier) : (MeshTier.json : Json.Codec F _).ReadsBack tier :=
  Codec.readsBack_unitEnum (fun tier => by cases tier <;> decide) tier

theorem readsBack_natType (natType : NatType) :
    (NatType.json : Json.Codec F _).ReadsBack natType :=
  Codec.readsBack_unitEnum (fun natType => by cases natType <;> decide) natType

theorem readsBack_computeApi (api : ComputeApi) :
    (ComputeApi.json : Json.Codec F _).ReadsBack api :=
  Codec.readsBack_unitEnum (fun api => by cases api <;> decide) api

theorem readsBack_powerSource (source : PowerSource) :
    (PowerSource.json : Json.Codec F _).ReadsBack source := by
  cases source with
  | ac => rfl
  | battery percent =>
      have hpayload : (chargePercent : Json.Codec F UInt8).ReadsBack percent := by
        rw [chargePercent, Fields.readsBack_object, Fields.readsBack_field]
        exact Codec.readsBack_uint8 percent
      obtain ⟨payload, hwrite, hread⟩ := Codec.readsBack_iff.mp hpayload
      rw [Codec.readsBack_iff]
      refine ⟨.obj [("Battery", payload)], ?_, ?_⟩
      · simp only [PowerSource.json, hwrite, Option.map_some]
      · simp only [PowerSource.json, hread, Option.map_some]
  | unknown => rfl

/-! ## Identities and addresses -/

/-- The key bytes as a sequence of numbers. -/
def NodeId.json : Json.Codec F NodeId :=
  Codec.uint8.seq.refine NodeId.bytes fun bytes =>
    if h : bytes.length = 32 then some ⟨bytes, h⟩ else none

/-- A value given by its text. -/
def viaText {α : Type} (print : α → String) (read : String → Option α) : Json.Codec F α :=
  Codec.string.refine print read

theorem readsBack_nodeId (id : NodeId) : (NodeId.json : Json.Codec F NodeId).ReadsBack id := by
  apply (Codec.readsBack_refine _ id).mpr
  · rw [Codec.readsBack_seq]
    intro b _
    exact Codec.readsBack_uint8 b
  · intro bytes id
    constructor
    · intro h
      split at h
      · cases h
        rfl
      · cases h
    · rintro rfl
      exact dif_pos id.length_bytes

theorem readsBack_viaText {α : Type} (print : α → String) (read : String → Option α) (a : α) :
    (viaText print read : Json.Codec F α).ReadsBack a ↔ read (print a) = some a := Iff.rfl

/-! ## Records -/

section Records

variable (texts : Texts F)

def addrJson : Json.Codec F SocketAddr := viaText texts.showAddr texts.readAddr

def floatJson : Json.Codec F F := Codec.float texts.floats

open Fields

def CpuInfo.json : Json.Codec F CpuInfo :=
  ((field "model_name" Codec.string none).both <|
    (field "physical_cores" Codec.uint32 none).both <|
    (field "logical_cores" Codec.uint32 none).both <|
    (field "isa_extensions" Codec.string.seq none).both <|
    field "cache_size_bytes" Codec.uint64 none).object.refine
    (fun cpu => (cpu.modelName, cpu.physicalCores, cpu.logicalCores, cpu.isaExtensions,
      cpu.cacheSizeBytes))
    (fun (modelName, physicalCores, logicalCores, isaExtensions, cacheSizeBytes) =>
      some ⟨modelName, physicalCores, logicalCores, isaExtensions, cacheSizeBytes⟩)

def MemoryInfo.json : Json.Codec F (MemoryInfo F) :=
  ((field "total_bytes" Codec.uint64 none).both <|
    (field "available_bytes" Codec.uint64 none).both <|
    field "estimated_bandwidth_gbps" (floatJson texts) none).object.refine
    (fun memory => (memory.totalBytes, memory.availableBytes, memory.estimatedBandwidthGbps))
    (fun (totalBytes, availableBytes, estimatedBandwidthGbps) =>
      some ⟨totalBytes, availableBytes, estimatedBandwidthGbps⟩)

def GpuInfo.json : Json.Codec F GpuInfo :=
  ((field "name" Codec.string none).both <|
    (field "vram_bytes" Codec.uint64 none).both <|
    (field "compute_api" ComputeApi.json none).both <|
    field "driver_version" Codec.string.option (some none)).object.refine
    (fun gpu => (gpu.name, gpu.vramBytes, gpu.computeApi, gpu.driverVersion))
    (fun (name, vramBytes, computeApi, driverVersion) =>
      some ⟨name, vramBytes, computeApi, driverVersion⟩)

def StorageInfo.json : Json.Codec F (StorageInfo F) :=
  ((field "available_bytes" Codec.uint64 none).both <|
    field "estimated_read_speed_mbps" (floatJson texts) none).object.refine
    (fun storage => (storage.availableBytes, storage.estimatedReadSpeedMbps))
    (fun (availableBytes, estimatedReadSpeedMbps) => some ⟨availableBytes, estimatedReadSpeedMbps⟩)

def PlatformInfo.json : Json.Codec F PlatformInfo :=
  ((field "os" Codec.string none).both <|
    (field "arch" Codec.string none).both <|
    (field "is_mobile" Codec.bool none).both <|
    field "power_source" PowerSource.json none).object.refine
    (fun platform => (platform.os, platform.arch, platform.isMobile, platform.powerSource))
    (fun (os, arch, isMobile, powerSource) => some ⟨os, arch, isMobile, powerSource⟩)

def HardwareProfile.json : Json.Codec F (HardwareProfile F) :=
  ((field "cpu" CpuInfo.json none).both <|
    (field "memory" (MemoryInfo.json texts) none).both <|
    (field "gpus" GpuInfo.json.seq none).both <|
    (field "storage" (StorageInfo.json texts) none).both <|
    field "platform" PlatformInfo.json none).object.refine
    (fun hardware => (hardware.cpu, hardware.memory, hardware.gpus, hardware.storage,
      hardware.platform))
    (fun (cpu, memory, gpus, storage, platform) => some ⟨cpu, memory, gpus, storage, platform⟩)

def DraftCapability.json : Json.Codec F (DraftCapability F) :=
  ((field "draft_model_id" Codec.string none).both <|
    (field "draft_model_size_bytes" Codec.uint64 none).both <|
    field "estimated_draft_tok_s" (floatJson texts) none).object.refine
    (fun capability => (capability.draftModelId, capability.draftModelSizeBytes,
      capability.estimatedDraftTokS))
    (fun (draftModelId, draftModelSizeBytes, estimatedDraftTokS) =>
      some ⟨draftModelId, draftModelSizeBytes, estimatedDraftTokS⟩)

/-- The record as JSON. The latency map has node identities as its keys. -/
def PeerInfo.json : Json.Codec F (PeerInfo F) :=
  ((field "node_id" NodeId.json none).both <|
    (field "hardware" (HardwareProfile.json texts) none).both <|
    (field "available_memory_bytes" Codec.uint64 none).both <|
    (field "available_vram_bytes" Codec.uint64 none).both <|
    (field "network_bandwidth_mbps" (floatJson texts) none).both <|
    (field "latency_ms" (floatJson texts).option (some none)).both <|
    (field "tier" MeshTier.json none).both <|
    (field "reputation_score" (floatJson texts) none).both <|
    (field "addr" (addrJson texts) none).both <|
    (field "external_addr" (addrJson texts).option (some none)).both <|
    (field "nat_type" NatType.json none).both <|
    (field "latency_map" Codec.otherMap (some ∅)).both <|
    (field "serving_model_id" Codec.string.option (some none)).both <|
    (field "swarm_id" (viaText texts.showUuid texts.readUuid).option (some none)).both <|
    field "draft_capability" (DraftCapability.json texts).option (some none)).object.refine
    (fun peer => (peer.nodeId, peer.hardware, peer.availableMemoryBytes, peer.availableVramBytes,
      peer.networkBandwidthMbps, peer.latencyMs, peer.tier, peer.reputationScore, peer.addr,
      peer.externalAddr, peer.natType, peer.latencyMap, peer.servingModelId, peer.swarmId,
      peer.draftCapability))
    (fun (nodeId, hardware, availableMemoryBytes, availableVramBytes, networkBandwidthMbps,
        latencyMs, tier, reputationScore, addr, externalAddr, natType, latencyMap, servingModelId,
        swarmId, draftCapability) =>
      some ⟨nodeId, hardware, availableMemoryBytes, availableVramBytes, networkBandwidthMbps,
        latencyMs, tier, reputationScore, addr, externalAddr, natType, latencyMap, servingModelId,
        swarmId, draftCapability⟩)

end Records

/-! ## What reads back -/

section ReadsBack

variable (texts : Texts F)

open Fields

theorem readsBack_cpu (cpu : CpuInfo) : (CpuInfo.json : Json.Codec F CpuInfo).ReadsBack cpu := by
  apply (Codec.readsBack_refine _ cpu).mpr
  · rw [readsBack_object]
    repeat rw [readsBack_both rfl]
    simp only [readsBack_field, Codec.readsBack_string, Codec.readsBack_uint32,
      Codec.readsBack_uint64, Codec.readsBack_seq, implies_true, and_self]
  · rintro ⟨modelName, physicalCores, logicalCores, isaExtensions, cacheSizeBytes⟩ cpu
    cases cpu
    simp

theorem readsBack_gpu (gpu : GpuInfo) : (GpuInfo.json : Json.Codec F GpuInfo).ReadsBack gpu := by
  apply (Codec.readsBack_refine _ gpu).mpr
  · rw [readsBack_object]
    repeat rw [readsBack_both rfl]
    simp only [readsBack_field, Codec.readsBack_string, Codec.readsBack_uint64,
      readsBack_computeApi, Codec.readsBack_option (c := Codec.string) rfl, implies_true, and_self]
  · rintro ⟨name, vramBytes, computeApi, driverVersion⟩ gpu
    cases gpu
    simp

theorem readsBack_platform (platform : PlatformInfo) :
    (PlatformInfo.json : Json.Codec F PlatformInfo).ReadsBack platform := by
  apply (Codec.readsBack_refine _ platform).mpr
  · rw [readsBack_object]
    repeat rw [readsBack_both rfl]
    simp only [readsBack_field, Codec.readsBack_string, Codec.readsBack_bool,
      readsBack_powerSource, and_self]
  · rintro ⟨os, arch, isMobile, powerSource⟩ platform
    cases platform
    simp

theorem readsBack_memory (memory : MemoryInfo F) :
    (MemoryInfo.json texts).ReadsBack memory ↔
      texts.floats.Kept memory.estimatedBandwidthGbps := by
  rw [MemoryInfo.json, Codec.readsBack_refine, readsBack_object]
  · repeat rw [readsBack_both rfl]
    simp only [readsBack_field, Codec.readsBack_uint64, floatJson, Codec.readsBack_float,
      true_and]
  · rintro ⟨totalBytes, availableBytes, estimatedBandwidthGbps⟩ memory
    cases memory
    simp

theorem readsBack_storage (storage : StorageInfo F) :
    (StorageInfo.json texts).ReadsBack storage ↔
      texts.floats.Kept storage.estimatedReadSpeedMbps := by
  rw [StorageInfo.json, Codec.readsBack_refine, readsBack_object]
  · rw [readsBack_both rfl]
    simp only [readsBack_field, Codec.readsBack_uint64, floatJson, Codec.readsBack_float,
      true_and]
  · rintro ⟨availableBytes, estimatedReadSpeedMbps⟩ storage
    cases storage
    simp

theorem readsBack_hardware (hardware : HardwareProfile F) :
    (HardwareProfile.json texts).ReadsBack hardware ↔
      texts.floats.Kept hardware.memory.estimatedBandwidthGbps ∧
        texts.floats.Kept hardware.storage.estimatedReadSpeedMbps := by
  rw [HardwareProfile.json, Codec.readsBack_refine, readsBack_object]
  · repeat rw [readsBack_both rfl]
    simp only [readsBack_field, readsBack_cpu, readsBack_memory, Codec.readsBack_seq, readsBack_gpu,
      readsBack_storage, readsBack_platform, implies_true, true_and, and_true]
  · rintro ⟨cpu, memory, gpus, storage, platform⟩ hardware
    cases hardware
    simp

theorem readsBack_draftCapability (capability : DraftCapability F) :
    (DraftCapability.json texts).ReadsBack capability ↔
      texts.floats.Kept capability.estimatedDraftTokS := by
  rw [DraftCapability.json, Codec.readsBack_refine, readsBack_object]
  · repeat rw [readsBack_both rfl]
    simp only [readsBack_field, Codec.readsBack_string, Codec.readsBack_uint64, floatJson,
      Codec.readsBack_float, true_and]
  · rintro ⟨draftModelId, draftModelSizeBytes, estimatedDraftTokS⟩ capability
    cases capability
    simp

/-- The floats of a record outside of its latency map. -/
def PeerInfo.floats (peer : PeerInfo F) : List F :=
  [peer.hardware.memory.estimatedBandwidthGbps, peer.hardware.storage.estimatedReadSpeedMbps,
    peer.networkBandwidthMbps, peer.reputationScore] ++
  peer.latencyMs.toList ++ (peer.draftCapability.map DraftCapability.estimatedDraftTokS).toList

/-- The addresses of a record. -/
def PeerInfo.addrs (peer : PeerInfo F) : List SocketAddr := peer.addr :: peer.externalAddr.toList

/-- The record has no latencies to report, and what else is a text in JSON reads back. -/
structure PeerInfo.Portable (peer : PeerInfo F) : Prop where
  latencyMap : peer.latencyMap = ∅
  floats : ∀ x ∈ peer.floats, texts.floats.Kept x
  addrs : ∀ addr ∈ peer.addrs, texts.readAddr (texts.showAddr addr) = some addr
  swarmId : ∀ swarmId, peer.swarmId = some swarmId →
    texts.readUuid (texts.showUuid swarmId) = some swarmId

/-- **A record reads back exactly if it is portable.** -/
theorem readsBack_peer (peer : PeerInfo F) :
    (PeerInfo.json texts).ReadsBack peer ↔ peer.Portable texts := by
  rw [PeerInfo.json, Codec.readsBack_refine, readsBack_object]
  · repeat rw [readsBack_both rfl]
    simp only [readsBack_field, readsBack_nodeId, readsBack_hardware, Codec.readsBack_uint64,
      floatJson, addrJson, Codec.readsBack_float, readsBack_tier, readsBack_natType,
      readsBack_viaText, Codec.readsBack_otherMap, Codec.readsBack_option (c := Codec.string) rfl,
      Codec.readsBack_option (c := Codec.float texts.floats) rfl,
      Codec.readsBack_option (c := viaText texts.showAddr texts.readAddr) rfl,
      Codec.readsBack_option (c := viaText texts.showUuid texts.readUuid) rfl,
      Codec.readsBack_option (c := DraftCapability.json texts) rfl, readsBack_draftCapability,
      Codec.readsBack_string, implies_true, true_and]
    constructor
    · rintro ⟨⟨hmemory, hstorage⟩, hbandwidth, hlatency, hreputation, haddr, hexternal, hmap,
        hswarm, hdraft⟩
      refine ⟨hmap, ?_, ?_, hswarm⟩
      · simp only [PeerInfo.floats, List.mem_append, List.mem_cons, List.not_mem_nil, or_false,
          Option.mem_toList, Option.map_eq_some_iff]
        rintro x (((rfl | rfl | rfl | rfl) | hx) | ⟨capability, hcapability, rfl⟩)
        · exact hmemory
        · exact hstorage
        · exact hbandwidth
        · exact hreputation
        · exact hlatency x hx
        · exact hdraft capability hcapability
      · simp only [PeerInfo.addrs, List.mem_cons, Option.mem_toList]
        rintro addr (rfl | haddr')
        · exact haddr
        · exact hexternal addr haddr'
    · rintro ⟨hmap, hfloats, haddrs, hswarm⟩
      simp only [PeerInfo.floats, List.mem_append, List.mem_cons, List.not_mem_nil, or_false,
        Option.mem_toList, Option.map_eq_some_iff] at hfloats
      simp only [PeerInfo.addrs, List.mem_cons, Option.mem_toList] at haddrs
      refine ⟨⟨hfloats _ ?_, hfloats _ ?_⟩, hfloats _ ?_, fun x hx => hfloats x ?_, hfloats _ ?_,
        haddrs _ (Or.inl rfl), fun addr haddr => haddrs addr (Or.inr haddr), hmap, hswarm,
        fun capability hcapability => hfloats _ (Or.inr ⟨capability, hcapability, rfl⟩)⟩
      · exact Or.inl (Or.inl (Or.inl rfl))
      · exact Or.inl (Or.inl (Or.inr (Or.inl rfl)))
      · exact Or.inl (Or.inl (Or.inr (Or.inr (Or.inl rfl))))
      · exact Or.inl (Or.inr hx)
      · exact Or.inl (Or.inl (Or.inr (Or.inr (Or.inr rfl))))
  · rintro ⟨nodeId, hardware, availableMemoryBytes, availableVramBytes, networkBandwidthMbps,
        latencyMs, tier, reputationScore, addr, externalAddr, natType, latencyMap, servingModelId,
        swarmId, draftCapability⟩ peer
    cases peer
    simp

end ReadsBack

end HiveBear.Mesh.Discovery
