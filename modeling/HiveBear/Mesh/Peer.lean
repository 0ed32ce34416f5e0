/-
# Mesh peers

The identity of a mesh node, what a node advertises about itself, and the errors
mesh operations report. Byte counts are 64-bit words and wrap as the release
build's do; `exactCapacity` is the same sum over the natural numbers, so that a
result which needs the sum not to overflow can say so.
-/

import HiveBear.Library.FloatOps
import HiveBear.Library.Words
import Mathlib.Algebra.Order.BigOperators.Group.List

namespace HiveBear.Mesh

/-- A universally unique identifier. -/
abbrev Uuid := BitVec 128

/-- Hexadecimal digits of a byte string, two for each byte. -/
def hexEncode (bytes : List UInt8) : String :=
  let digit (n : ℕ) : Char := "0123456789abcdef".toList.getD n '0'
  String.ofList (bytes.flatMap fun b => [digit (b.toNat / 16), digit (b.toNat % 16)])

/-- The cryptographic identity of a mesh node: the 32 bytes of its key. -/
structure NodeId where
  bytes : List UInt8
  length_bytes : bytes.length = 32
  deriving DecidableEq

namespace NodeId

theorem eq_of_bytes {first second : NodeId} (h : first.bytes = second.bytes) :
    first = second := by
  cases first
  cases second
  cases h
  rfl

/-- Hex-encoded short identity (first 8 bytes) for display. -/
def shortId (id : NodeId) : String := hexEncode (id.bytes.take 8)

/-- Full hex-encoded public key. -/
def toHex (id : NodeId) : String := hexEncode id.bytes

instance : ToString NodeId := ⟨shortId⟩

/-- The key that repeats one byte, for concrete examples. -/
def ofByte (b : UInt8) : NodeId := ⟨List.replicate 32 b, List.length_replicate⟩

end NodeId

/-- Errors that mesh operations report. -/
inductive MeshError
  | transport (message : String)
  | scheduling (message : String)
  | pipeline (message : String)
  | peerDisconnected (peer : String)
  deriving DecidableEq, Repr

instance : ToString MeshError where
  toString
    | .transport message => s!"Transport error: {message}"
    | .scheduling message => s!"Scheduling error: {message}"
    | .pipeline message => s!"Pipeline error: {message}"
    | .peerDisconnected peer => s!"Peer disconnected: {peer}"

/-- Reported memory characteristics. -/
structure MemoryInfo (F : Type*) where
  estimatedBandwidthGbps : F

/-- The part of a hardware profile that scheduling reads. -/
structure HardwareProfile (F : Type*) where
  memory : MemoryInfo F

/-- What a peer advertises about itself. -/
structure PeerInfo (F : Type*) where
  nodeId : NodeId
  hardware : HardwareProfile F
  availableMemoryBytes : UInt64
  availableVramBytes : UInt64
  networkBandwidthMbps : F
  latencyMs : Option F
  reputationScore : F
  /-- Measured round-trip times (ms) to known peers. -/
  latencyMap : List (NodeId × F)

namespace PeerInfo

variable {F : Type*}

/-- Total usable memory, VRAM and RAM, as the machine adds it. -/
def capacity (peer : PeerInfo F) : UInt64 :=
  peer.availableVramBytes + peer.availableMemoryBytes

/-- Total usable memory over the natural numbers. -/
def exactCapacity (peer : PeerInfo F) : ℕ :=
  peer.availableVramBytes.toNat + peer.availableMemoryBytes.toNat

/-- The capacities of these peers, and their sum, do not overflow. -/
def CapacityFits (peers : List (PeerInfo F)) : Prop :=
  (peers.map exactCapacity).sum < 2 ^ 64

instance (peers : List (PeerInfo F)) : Decidable (CapacityFits peers) :=
  inferInstanceAs (Decidable (_ < _))

theorem capacityFits_cons {peer : PeerInfo F} {peers : List (PeerInfo F)} :
    CapacityFits (peer :: peers) ↔
      peer.exactCapacity + (peers.map exactCapacity).sum < 2 ^ 64 := by
  rw [CapacityFits, List.map_cons, List.sum_cons]

/-- Reordering peers does not change whether their capacities fit. -/
theorem CapacityFits.perm {first second : List (PeerInfo F)}
    (hfits : CapacityFits first) (hperm : second.Perm first) : CapacityFits second := by
  rw [CapacityFits, (hperm.map exactCapacity).sum_eq]
  exact hfits

/-- Dropping peers keeps their capacities in range. -/
theorem CapacityFits.sublist {first second : List (PeerInfo F)}
    (hfits : CapacityFits first) (hsub : second.Sublist first) : CapacityFits second :=
  lt_of_le_of_lt ((hsub.map exactCapacity).sum_le_sum fun _ _ => Nat.zero_le _) hfits

theorem toNat_capacity {peer : PeerInfo F} (h : peer.exactCapacity < 2 ^ 64) :
    peer.capacity.toNat = peer.exactCapacity := by
  rw [capacity, UInt64.toNat_add]
  exact Nat.mod_eq_of_lt h

/-- Without overflow the machine's capacities are the exact ones. -/
theorem map_toNat_capacity {peers : List (PeerInfo F)} (hfits : CapacityFits peers) :
    (peers.map capacity).map UInt64.toNat = peers.map exactCapacity := by
  induction peers with
  | nil => rfl
  | cons peer peers ih =>
      rw [capacityFits_cons] at hfits
      have hrest : CapacityFits peers := lt_of_le_of_lt (Nat.le_add_left _ _) hfits
      rw [List.map_cons, List.map_cons, List.map_cons, ih hrest,
        toNat_capacity (lt_of_le_of_lt (Nat.le_add_right _ _) hfits)]

/-- Without overflow the machine's total capacity is the exact one. -/
theorem toNat_sum_capacity {peers : List (PeerInfo F)} (hfits : CapacityFits peers) :
    (peers.map capacity).sum.toNat = (peers.map exactCapacity).sum := by
  have hmap := map_toNat_capacity hfits
  rw [MachineWord.toNat_sum_of_lt (by rw [hmap]; exact hfits), hmap]

/-- Peers with something to offer have a nonzero total capacity. -/
theorem sum_capacity_ne_zero {peers : List (PeerInfo F)} (hfits : CapacityFits peers)
    (hpos : 0 < (peers.map exactCapacity).sum) : (peers.map capacity).sum ≠ 0 := by
  intro hzero
  have htoNat := toNat_sum_capacity hfits
  rw [hzero] at htoNat
  exact absurd htoNat.symm hpos.ne'

/-- A peer that offers nothing but RAM, for concrete examples. -/
def ramOnly (key : UInt8) (bytes : UInt64) : PeerInfo ℚ where
  nodeId := .ofByte key
  hardware := ⟨⟨30⟩⟩
  availableMemoryBytes := bytes
  availableVramBytes := 0
  networkBandwidthMbps := 1000
  latencyMs := some 5
  reputationScore := 9 / 10
  latencyMap := []

end PeerInfo

end HiveBear.Mesh
