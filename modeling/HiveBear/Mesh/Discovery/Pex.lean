/-
# Peer exchange

Peers tell each other which peers they know. What a node was told is kept in a cache with a
limit on the number of records, and of the cache it passes on the records whose reputation is
not too low.

The limit is looked at before it is known whether a record is new. A record that a node
registers again is therefore not taken over while the cache is full, although it would take the
place of one that is there; and the node is told that it is registered.

Calls are served one at a time, and the cache is scanned in any order.
-/

import HiveBear.Library.Entries
import HiveBear.Library.Run
import HiveBear.Mesh.Discovery.PeerInfo

namespace HiveBear.Mesh.Discovery

open AList (Listing)
open LabelledRun

/-- The known peers, by the bytes of their keys. -/
abbrev KnownPeers (F : Type) := AList fun _ : List UInt8 => PeerInfo F

namespace Pex

/-- Maximum number of peers to track in the cache. -/
def maxPeers : ℕ := 200

/-- Minimum reputation to share a peer. -/
def minReputationToShare : ℚ := 3 / 10

variable {F : Type}

/-- Add a peer to the known peers cache. -/
def addPeer (known : KnownPeers F) (peer : PeerInfo F) : KnownPeers F :=
  if maxPeers ≤ known.pairs.length then
    known -- cache full
  else
    known.insert peer.nodeId.bytes peer

/-- Register a peer, which always succeeds. -/
def register (known : KnownPeers F) (info : PeerInfo F) : KnownPeers F := addPeer known info

/-- Remove a peer from the cache. -/
def removePeer (known : KnownPeers F) (nodeId : NodeId) : KnownPeers F :=
  known.erase nodeId.bytes

/-- Merge peers received from another node into our cache. -/
def mergePeers (known : KnownPeers F) : List (PeerInfo F) → KnownPeers F
  | [] => known
  | peer :: rest =>
      if maxPeers ≤ known.pairs.length then known
      else
        match known.lookup peer.nodeId.bytes with
        | some _ => mergePeers known rest
        | none => mergePeers (known.insert peer.nodeId.bytes peer) rest

/-- Forget all peers. -/
def deregister (_ : KnownPeers F) : KnownPeers F := ∅

section Sharing

variable [FloatOps F]

/-- The peer has a reputation above the sharing threshold. -/
def isShareable (peer : PeerInfo F) : Bool :=
  FloatOps.le (FloatOps.literal minReputationToShare) peer.reputationScore

/-- Get all known peers with reputation above the sharing threshold. -/
def shareablePeers (known : KnownPeers F) (listing : Listing (List UInt8) (PeerInfo F)) :
    List (PeerInfo F) :=
  ((listing.entries known).map Prod.snd).filter isShareable

/-- Handle an incoming request by returning our known peers. -/
def handleExchangeRequest (known : KnownPeers F) (listing : Listing (List UInt8) (PeerInfo F))
    (numPeers : UInt32) : List (PeerInfo F) :=
  (shareablePeers known listing).take numPeers.toNat

end Sharing

/-- A call that changes the cache. -/
inductive Call (F : Type)
  | addPeer (peer : PeerInfo F)
  | register (info : PeerInfo F)
  | mergePeers (peers : List (PeerInfo F))
  | removePeer (nodeId : NodeId)
  | deregister

/-- The record a call is to put into the cache in any case. -/
def Call.offered : Call F → Option (PeerInfo F)
  | .addPeer peer => some peer
  | .register info => some info
  | _ => none

/-- The cache behind a call. -/
def next (known : KnownPeers F) : Call F → KnownPeers F
  | .addPeer peer => addPeer known peer
  | .register info => register known info
  | .mergePeers peers => mergePeers known peers
  | .removePeer nodeId => removePeer known nodeId
  | .deregister => deregister known

/-- The cache behind these calls. -/
def after (calls : List (Call F)) : KnownPeers F := exec next ∅ calls

/-- The cache holds this record for its node. -/
def Holds (known : KnownPeers F) (peer : PeerInfo F) : Prop :=
  known.lookup peer.nodeId.bytes = some peer

/-- Every record is stored under the key of its own node, and there are not too many. -/
structure WellKept (known : KnownPeers F) : Prop where
  bounded : known.pairs.length ≤ maxPeers
  own : ∀ key peer, known.lookup key = some peer → key = peer.nodeId.bytes

/-- A reply to a request for `limit` peers. -/
structure IsReply [FloatOps F] (known : KnownPeers F) (limit : ℕ) (reply : List (PeerInfo F)) :
    Prop where
  length_le : reply.length ≤ limit
  distinct : (reply.map PeerInfo.nodeId).Nodup
  holds : ∀ peer ∈ reply, Holds known peer ∧ isShareable peer = true
  all : ((known.pairs.map Prod.snd).filter isShareable).length ≤ limit →
    ∀ peer, Holds known peer → isShareable peer = true → peer ∈ reply

/-- What the cache should do in a run. -/
structure Keeps [FloatOps F] (calls : List (Call F)) : Prop where
  wellKept : ∀ before, before <+: calls → WellKept (after before)
  refreshed : ∀ before call peer, before ++ [call] <+: calls → call.offered = some peer →
    peer.nodeId.bytes ∈ after before → Holds (next (after before) call) peer
  merged : ∀ before peers, before ++ [.mergePeers peers] <+: calls →
    ∀ key peer, (after before).lookup key = some peer →
      (next (after before) (.mergePeers peers)).lookup key = some peer
  replies : ∀ before, before <+: calls → ∀ listing limit,
    IsReply (after before) limit.toNat (handleExchangeRequest (after before) listing limit)

/-- The cache has room, or holds the record already. -/
def CanRefresh (known : KnownPeers F) (peer : PeerInfo F) : Prop :=
  known.pairs.length < maxPeers ∨ Holds known peer

/-! ## One call -/

variable {known : KnownPeers F} {peer : PeerInfo F} {peers : List (PeerInfo F)}

theorem after_snoc (calls : List (Call F)) (call : Call F) :
    after (calls ++ [call]) = next (after calls) call :=
  exec_snoc next ∅ calls call

theorem next_of_offered {call : Call F} (h : call.offered = some peer) :
    next known call = addPeer known peer := by
  cases call with
  | addPeer other => cases h; rfl
  | register other => cases h; rfl
  | mergePeers peers => cases h
  | removePeer nodeId => cases h
  | deregister => cases h

theorem wellKept_empty : WellKept (∅ : KnownPeers F) where
  bounded := Nat.zero_le _
  own key peer h := by
    rw [AList.lookup_empty] at h
    cases h

/-- A record can be inserted as long as there is room. -/
theorem WellKept.insert (h : WellKept known) (hroom : known.pairs.length < maxPeers)
    (peer : PeerInfo F) : WellKept (known.insert peer.nodeId.bytes peer) := by
  constructor
  · by_cases hmem : peer.nodeId.bytes ∈ known
    · rw [AList.length_pairs_insert_of_mem hmem]
      exact h.bounded
    · rw [AList.length_pairs_insert_of_notMem hmem]
      exact hroom
  · intro key other hother
    by_cases hkey : key = peer.nodeId.bytes
    · rw [hkey, AList.lookup_insert] at hother
      cases hother
      exact hkey
    · rw [AList.lookup_insert_ne hkey] at hother
      exact h.own key other hother

theorem WellKept.addPeer (h : WellKept known) (peer : PeerInfo F) :
    WellKept (addPeer known peer) := by
  rw [Pex.addPeer]
  split_ifs with hfull
  · exact h
  · exact h.insert (Nat.not_le.mp hfull) peer

theorem WellKept.mergePeers (h : WellKept known) (peers : List (PeerInfo F)) :
    WellKept (mergePeers known peers) := by
  induction peers generalizing known with
  | nil => exact h
  | cons peer rest ih =>
      rw [Pex.mergePeers]
      split_ifs with hfull
      · exact h
      · split
        · exact ih h
        · exact ih (h.insert (Nat.not_le.mp hfull) peer)

theorem WellKept.removePeer (h : WellKept known) (nodeId : NodeId) :
    WellKept (removePeer known nodeId) := by
  constructor
  · exact (AList.length_pairs_erase_le known nodeId.bytes).trans h.bounded
  · intro key peer hpeer
    rw [Pex.removePeer] at hpeer
    by_cases hkey : key = nodeId.bytes
    · rw [hkey, AList.lookup_erase] at hpeer
      cases hpeer
    · rw [AList.lookup_erase_ne hkey] at hpeer
      exact h.own key peer hpeer

theorem WellKept.next (h : WellKept known) (call : Call F) : WellKept (next known call) := by
  cases call with
  | addPeer peer => exact h.addPeer peer
  | register info => exact h.addPeer info
  | mergePeers peers => exact h.mergePeers peers
  | removePeer nodeId => exact h.removePeer nodeId
  | deregister => exact wellKept_empty

theorem wellKept_after (calls : List (Call F)) : WellKept (after calls) := by
  induction calls using List.reverseRecOn with
  | nil => exact wellKept_empty
  | append_singleton calls call ih =>
      rw [after_snoc]
      exact ih.next call

/-- Merging leaves what is known as it is. -/
theorem lookup_mergePeers {key : List UInt8} (h : known.lookup key = some peer) :
    (mergePeers known peers).lookup key = some peer := by
  induction peers generalizing known with
  | nil => exact h
  | cons other rest ih =>
      rw [mergePeers]
      split_ifs
      · exact h
      · split
        · exact ih h
        · rename_i hnew
          apply ih
          have hkey : key ≠ other.nodeId.bytes := by
            rintro rfl
            rw [hnew] at h
            cases h
          rw [AList.lookup_insert_ne hkey, h]

/-- When an offered record is in the cache afterwards. -/
theorem holds_addPeer_iff : Holds (addPeer known peer) peer ↔ CanRefresh known peer := by
  rw [addPeer, CanRefresh]
  split_ifs with hfull
  · rw [or_iff_right (Nat.not_lt.mpr hfull)]
  · exact iff_of_true (AList.lookup_insert known) (Or.inl (Nat.not_le.mp hfull))

/-! ## Replies -/

section Sharing

variable [FloatOps F]

theorem mem_shareablePeers (h : WellKept known) {listing : Listing (List UInt8) (PeerInfo F)} :
    peer ∈ shareablePeers known listing ↔ Holds known peer ∧ isShareable peer = true := by
  rw [shareablePeers, List.mem_filter, List.mem_map]
  apply and_congr_left'
  constructor
  · rintro ⟨⟨key, other⟩, hmem, rfl⟩
    have hlookup := listing.mem_entries.mp hmem
    rwa [h.own key other hlookup] at hlookup
  · intro hholds
    exact ⟨(peer.nodeId.bytes, peer), listing.mem_entries.mpr hholds, rfl⟩

/-- The shared records are of different nodes. -/
theorem nodup_shareablePeers (h : WellKept known) (listing : Listing (List UInt8) (PeerInfo F)) :
    ((shareablePeers known listing).map PeerInfo.nodeId).Nodup := by
  have hkeys : ((listing.entries known).map Prod.fst).Nodup :=
    ((listing.perm known).map Prod.fst).nodup_iff.mpr known.nodup_pairs
  have hbytes : (listing.entries known).map Prod.fst =
      ((listing.entries known).map fun e => e.2.nodeId).map NodeId.bytes := by
    rw [List.map_map]
    apply List.map_congr_left
    rintro ⟨key, other⟩ hmem
    exact h.own key other (listing.mem_entries.mp hmem)
  rw [hbytes] at hkeys
  have hnodes := List.Nodup.of_map NodeId.bytes hkeys
  have hsub : ((shareablePeers known listing).map PeerInfo.nodeId).Sublist
      (((listing.entries known).map Prod.snd).map PeerInfo.nodeId) :=
    List.filter_sublist.map PeerInfo.nodeId
  rw [List.map_map] at hsub
  exact hnodes.sublist hsub

theorem length_shareablePeers (listing : Listing (List UInt8) (PeerInfo F)) :
    (shareablePeers known listing).length =
      ((known.pairs.map Prod.snd).filter isShareable).length :=
  (((listing.perm known).map Prod.snd).filter isShareable).length_eq

/-- **Every reply is right**, in whatever order the cache is scanned. -/
theorem isReply_handleExchangeRequest (h : WellKept known)
    (listing : Listing (List UInt8) (PeerInfo F)) (limit : UInt32) :
    IsReply known limit.toNat (handleExchangeRequest known listing limit) where
  length_le := List.length_take_le _ _
  distinct := by
    rw [handleExchangeRequest, List.map_take]
    exact (nodup_shareablePeers h listing).sublist (List.take_sublist _ _)
  holds peer hpeer := (mem_shareablePeers h).mp ((List.take_sublist _ _).mem hpeer)
  all hfew peer hholds hshareable := by
    rw [← length_shareablePeers listing] at hfew
    rw [handleExchangeRequest, List.take_of_length_le hfew]
    exact (mem_shareablePeers h).mpr ⟨hholds, hshareable⟩

/-- **The cache keeps its records as it should if and only if every record that is offered
again for a known node finds room or is there already.** -/
theorem keeps_iff (calls : List (Call F)) :
    Keeps calls ↔ ∀ before call peer, before ++ [call] <+: calls → call.offered = some peer →
      peer.nodeId.bytes ∈ after before → CanRefresh (after before) peer := by
  constructor
  · intro hkeeps before call peer hpart hoffered hknown
    have hholds := hkeeps.refreshed before call peer hpart hoffered hknown
    rw [next_of_offered hoffered] at hholds
    exact holds_addPeer_iff.mp hholds
  · intro hrefresh
    refine ⟨fun before _ => wellKept_after before, ?_, ?_, ?_⟩
    · intro before call peer hpart hoffered hknown
      rw [next_of_offered hoffered]
      exact holds_addPeer_iff.mpr (hrefresh before call peer hpart hoffered hknown)
    · intro before peers _ key peer hlookup
      exact lookup_mergePeers hlookup
    · intro before _ listing limit
      exact isReply_handleExchangeRequest (wellKept_after before) listing limit

end Sharing

/-! ## A full cache -/

/-- Peers that are not too many are all in the cache, each once. -/
theorem pairs_after_addPeers (hnodes : (peers.map fun peer => peer.nodeId.bytes).Nodup)
    (hlength : peers.length ≤ maxPeers) :
    (after (peers.map Call.addPeer)).pairs = peers.map fun peer => (peer.nodeId.bytes, peer) := by
  induction peers using List.reverseRecOn with
  | nil => rfl
  | append_singleton peers peer ih =>
      rw [List.length_append, List.length_singleton] at hlength
      rw [List.map_append, List.map_singleton, List.nodup_append] at hnodes
      obtain ⟨hbefore, -, hfresh⟩ := hnodes
      have hpairs := ih hbefore (by omega)
      have hroom : ¬ maxPeers ≤ (after (peers.map Call.addPeer)).pairs.length := by
        rw [hpairs, List.length_map]
        omega
      have hnew : peer.nodeId.bytes ∉ after (peers.map Call.addPeer) := by
        intro hmem
        obtain ⟨other, hother⟩ := Option.isSome_iff_exists.mp (AList.lookup_isSome.mpr hmem)
        rw [← AList.mem_pairs, hpairs, List.mem_map] at hother
        obtain ⟨other, hmember, hentry⟩ := hother
        exact hfresh _ (List.mem_map.mpr ⟨other, hmember, rfl⟩) _ (List.mem_singleton.mpr rfl)
          (Prod.mk.inj hentry).1
      rw [List.map_append, List.map_singleton, after_snoc, next, addPeer, if_neg hroom,
        AList.pairs_insert_of_notMem hnew, hpairs, List.map_append, List.map_singleton]

/-- A node without anything to offer, numbered by a byte. -/
def numbered (n : ℕ) : PeerInfo ℚ := .plain 0 (.ofByte (UInt8.ofNat n))

/-- As many nodes as the cache can hold. -/
def crowd : List (PeerInfo ℚ) := (List.range maxPeers).map numbered

theorem pairs_after_crowd :
    (after (crowd.map Call.addPeer)).pairs = crowd.map fun peer => (peer.nodeId.bytes, peer) := by
  apply pairs_after_addPeers
  · rw [crowd, List.map_map]
    apply List.Nodup.map_on _ List.nodup_range
    intro n hn m hm hbytes
    rw [List.mem_range, maxPeers] at hn hm
    have hbyte : UInt8.ofNat n = UInt8.ofNat m := (List.replicate_right_inj (by decide)).mp hbytes
    have hnat := congrArg UInt8.toNat hbyte
    rw [UInt8.toNat_ofNat', UInt8.toNat_ofNat'] at hnat
    omega
  · rw [crowd, List.length_map, List.length_range]

/-- One of these nodes, with more memory. -/
def upgraded : PeerInfo ℚ := { numbered 7 with availableMemoryBytes := 1 }

/-- A node that is known to a full cache registers with more memory than before. -/
theorem full_cache_is_not_refreshed : ¬ ∀ calls : List (Call ℚ), Keeps calls := by
  intro h
  have hold : (after (crowd.map Call.addPeer)).lookup upgraded.nodeId.bytes =
      some (numbered 7) := by
    rw [← AList.mem_pairs, pairs_after_crowd, crowd, List.map_map]
    exact List.mem_map.mpr ⟨7, List.mem_range.mpr (by decide), rfl⟩
  have hknown : upgraded.nodeId.bytes ∈ after (crowd.map Call.addPeer) := by
    rw [← AList.lookup_isSome, hold]
    rfl
  have hfull : maxPeers ≤ (after (crowd.map Call.addPeer)).pairs.length := by
    rw [pairs_after_crowd, List.length_map, crowd, List.length_map, List.length_range]
  have hnew := (h (crowd.map Call.addPeer ++ [.register upgraded])).refreshed
    (crowd.map Call.addPeer) (.register upgraded) upgraded (List.prefix_refl _) rfl hknown
  rw [next, register, addPeer, if_pos hfull, Holds, hold, Option.some_inj] at hnew
  exact absurd (congrArg PeerInfo.availableMemoryBytes hnew) (by decide)

end Pex

end HiveBear.Mesh.Discovery
