/-
# Discovery from several sources

All sources are asked for peers, and their answers are merged in the order in which the sources
were added. A node that several of them report is returned once, with the record of the first
one. A source that fails is passed over; the call fails only when all of them do.
-/

import HiveBear.Library.Firsts
import HiveBear.Mesh.Discovery.PeerInfo
import HiveBear.Mesh.Transport.Tofu

namespace HiveBear.Mesh.Discovery

open Firsts

variable {E : Type*} {F : Type}

/-- Asking a source for the peers that serve a model and have this much memory. -/
abbrev PeerSource (E : Type*) (F : Type) := String → UInt64 → Except E (List (PeerInfo F))

/-- Composite discovery that queries multiple sources and deduplicates results. -/
structure CompositeDiscovery (E : Type*) (F : Type) where
  sources : List (PeerSource E F)
  /-- The primary source (coordination server) for registration and heartbeat. -/
  primary : PeerSource E F
  sources_ne : sources ≠ []

namespace CompositeDiscovery

/-- Discovery from the primary source alone. -/
def new (primary : PeerSource E F) : CompositeDiscovery E F where
  sources := [primary]
  primary := primary
  sources_ne := List.cons_ne_nil _ _

/-- Add an additional discovery source. -/
def addSource (discovery : CompositeDiscovery E F) (source : PeerSource E F) :
    CompositeDiscovery E F where
  sources := discovery.sources ++ [source]
  primary := discovery.primary
  sources_ne := List.append_ne_nil_of_left_ne_nil discovery.sources_ne _

/-- What the answers so far come to. -/
structure Merging (E : Type*) (F : Type) where
  allPeers : List (PeerInfo F)
  seenIds : Finset String
  errors : List E
  anyOk : Bool

/-- A peer is taken unless its node was seen. -/
def takePeer (merging : Merging E F) (peer : PeerInfo F) : Merging E F :=
  let key := peer.nodeId.toHex
  if key ∈ merging.seenIds then merging
  else
    { merging with
      allPeers := merging.allPeers ++ [peer]
      seenIds := insert key merging.seenIds }

/-- The answer of one more source. -/
def takeResult (merging : Merging E F) : Except E (List (PeerInfo F)) → Merging E F
  | .ok peers => peers.foldl takePeer { merging with anyOk := true }
  | .error e => { merging with errors := merging.errors ++ [e] }

/-- What all sources answer. -/
def results (discovery : CompositeDiscovery E F) (modelId : String) (minMemoryBytes : UInt64) :
    List (Except E (List (PeerInfo F))) :=
  discovery.sources.map fun source => source modelId minMemoryBytes

/-- Ask all sources and merge what they answer. Fails only when every source failed, for the
first reason. -/
def findPeers (discovery : CompositeDiscovery E F) (modelId : String) (minMemoryBytes : UInt64) :
    Except E (List (PeerInfo F)) :=
  let merging := (discovery.results modelId minMemoryBytes).foldl takeResult ⟨[], ∅, [], false⟩
  match merging.anyOk, merging.errors with
  | false, e :: _ => .error e
  | _, _ => .ok merging.allPeers

/-- These peers are the merged answers of some sources. -/
structure Merges (answers : List (Except E (List (PeerInfo F)))) (peers : List (PeerInfo F)) :
    Prop where
  once : (peers.map PeerInfo.nodeId).Nodup
  found : ∀ nodeId, nodeId ∈ peers.map PeerInfo.nodeId ↔
    ∃ reported, .ok reported ∈ answers ∧ nodeId ∈ reported.map PeerInfo.nodeId
  first : ∀ peer ∈ peers, ∃ before reported after,
    answers = before ++ .ok reported :: after ∧
      (∀ earlier, .ok earlier ∈ before → peer.nodeId ∉ earlier.map PeerInfo.nodeId) ∧
        IsFirst PeerInfo.nodeId reported peer

/-! ## Merging -/

/-- The peers of an answer, none if it is a failure. -/
def reportedPeers : Except E (List (PeerInfo F)) → List (PeerInfo F)
  | .ok peers => peers
  | .error _ => []

/-- The errors of some answers. -/
def failures : List (Except E (List (PeerInfo F))) → List E
  | [] => []
  | .ok _ :: rest => failures rest
  | .error e :: rest => e :: failures rest

/-- The key of a record, as a scan for new nodes takes it. -/
def hexKey (peer : PeerInfo F) : String := peer.nodeId.toHex

/-- Different nodes have different keys. -/
theorem toHex_injective : Function.Injective NodeId.toHex := by
  intro first second hhex
  have hsame : some first.bytes = some second.bytes := by
    rw [← hexDecode_hexEncode first.bytes, ← hexDecode_hexEncode second.bytes]
    exact congrArg hexDecode hhex
  exact NodeId.eq_of_bytes (Option.some.inj hsame)

theorem foldl_takePeer (merging : Merging E F) (peers : List (PeerInfo F)) :
    peers.foldl takePeer merging =
      { merging with
        allPeers := (peers.foldl (keep hexKey) (merging.allPeers, merging.seenIds)).1
        seenIds := (peers.foldl (keep hexKey) (merging.allPeers, merging.seenIds)).2 } := by
  induction peers generalizing merging with
  | nil => rfl
  | cons peer rest ih =>
      rw [List.foldl_cons, List.foldl_cons, takePeer, keep, hexKey]
      split_ifs
      · exact ih merging
      · exact ih _

/-- Merging is one scan of all the reported peers. -/
theorem foldl_takeResult (merging : Merging E F) (answers : List (Except E (List (PeerInfo F)))) :
    answers.foldl takeResult merging =
      { allPeers := ((answers.flatMap reportedPeers).foldl (keep hexKey)
          (merging.allPeers, merging.seenIds)).1
        seenIds := ((answers.flatMap reportedPeers).foldl (keep hexKey)
          (merging.allPeers, merging.seenIds)).2
        errors := merging.errors ++ failures answers
        anyOk := merging.anyOk || answers.any Except.isOk } := by
  induction answers generalizing merging with
  | nil =>
      rw [failures, List.append_nil, List.any_nil, Bool.or_false]
      rfl
  | cons answer rest ih =>
      rw [List.foldl_cons, ih, List.flatMap_cons, List.foldl_append, List.any_cons]
      cases answer with
      | ok peers =>
          rw [takeResult, foldl_takePeer, failures, reportedPeers]
          simp [Except.isOk, Except.toBool]
      | error e =>
          rw [takeResult, failures, reportedPeers, List.append_assoc, List.singleton_append]
          rfl

/-- What finding peers comes to. -/
theorem findPeers_eq (discovery : CompositeDiscovery E F) (modelId : String)
    (minMemoryBytes : UInt64) :
    discovery.findPeers modelId minMemoryBytes =
      match (discovery.results modelId minMemoryBytes).any Except.isOk,
        failures (discovery.results modelId minMemoryBytes) with
      | false, e :: _ => .error e
      | _, _ => .ok (((discovery.results modelId minMemoryBytes).flatMap reportedPeers).foldl
          (keep hexKey) ([], ∅)).1 := by
  rw [findPeers, foldl_takeResult]
  rfl

variable {answers : List (Except E (List (PeerInfo F)))}

/-- The scan merges the answers. -/
theorem merges_foldl (answers : List (Except E (List (PeerInfo F)))) :
    Merges answers ((answers.flatMap reportedPeers).foldl (keep hexKey) ([], ∅)).1 := by
  have hkey : ∀ p q : PeerInfo F, hexKey p = hexKey q ↔ p.nodeId = q.nodeId :=
    fun p q => toHex_injective.eq_iff
  have hmem : ∀ reported (nodeId : NodeId), .ok reported ∈ answers →
      nodeId ∈ reported.map PeerInfo.nodeId →
        nodeId ∈ (answers.flatMap reportedPeers).map PeerInfo.nodeId := by
    intro reported nodeId hanswer hnode
    obtain ⟨peer, hpeer, rfl⟩ := List.mem_map.mp hnode
    exact List.mem_map.mpr ⟨peer, List.mem_flatMap.mpr ⟨.ok reported, hanswer, hpeer⟩, rfl⟩
  refine ⟨?_, ?_, ?_⟩
  · have hnodup := @nodup_foldl_keep _ _ hexKey _ (answers.flatMap reportedPeers)
    rw [show hexKey = NodeId.toHex ∘ PeerInfo.nodeId from rfl, ← List.map_map] at hnodup
    exact List.Nodup.of_map _ hnodup
  · intro nodeId
    constructor
    · intro hnode
      obtain ⟨peer, hpeer, rfl⟩ := List.mem_map.mp hnode
      obtain ⟨answer, hanswer, hreported⟩ := List.mem_flatMap.mp (mem_foldl_keep.mp hpeer).mem
      cases answer with
      | ok reported => exact ⟨reported, hanswer, List.mem_map.mpr ⟨peer, hreported, rfl⟩⟩
      | error e => cases hreported
    · rintro ⟨reported, hanswer, hnode⟩
      obtain ⟨peer, hpeer, rfl⟩ := List.mem_map.mp (hmem reported nodeId hanswer hnode)
      obtain ⟨first, hfirst, hsame⟩ := @exists_isFirst _ _ hexKey _ _ hpeer
      exact List.mem_map.mpr ⟨first, mem_foldl_keep.mpr hfirst, (hkey _ _).mp hsame⟩
  · intro peer hpeer
    obtain ⟨before, found, after, hsplit, hothers, hfound⟩ := (mem_foldl_keep.mp hpeer).flatMap
    cases found with
    | error e => exact absurd hfound.mem List.not_mem_nil
    | ok reported =>
        refine ⟨before, reported, after, hsplit, ?_, ?_⟩
        · intro earlier hearlier hnode
          obtain ⟨other, hother, hsame⟩ := List.mem_map.mp hnode
          exact hothers (.ok earlier) hearlier other hother ((hkey _ _).mpr hsame)
        · obtain ⟨front, back, hback, hfront⟩ := hfound
          exact ⟨front, back, hback, fun other hother hsame =>
            hfront other hother ((hkey _ _).mpr hsame)⟩

/-- No answer is a success if every one has an error. -/
theorem any_isOk_eq_false_iff :
    answers.any Except.isOk = false ↔ ∀ answer ∈ answers, ∃ e, answer = .error e := by
  rw [List.any_eq_false]
  apply forall_congr'
  intro answer
  apply imp_congr_right
  intro _
  cases answer with
  | ok peers => simp [Except.isOk, Except.toBool]
  | error e => simp [Except.isOk, Except.toBool]

/-- Where every answer is a failure, the first one comes first. -/
theorem exists_failures (hsome : answers ≠ []) (h : answers.any Except.isOk = false) :
    ∃ e rest, failures answers = e :: rest := by
  cases answers with
  | nil => exact absurd rfl hsome
  | cons answer rest =>
      obtain ⟨e, rfl⟩ := any_isOk_eq_false_iff.mp h answer List.mem_cons_self
      exact ⟨e, failures rest, rfl⟩

theorem results_ne (discovery : CompositeDiscovery E F) (modelId : String)
    (minMemoryBytes : UInt64) : discovery.results modelId minMemoryBytes ≠ [] := by
  rw [results, Ne, List.map_eq_nil_iff]
  exact discovery.sources_ne

/-- **Finding peers merges the sources.** It fails just if all of them do, and otherwise returns
every reported node once, with the record of the first source that reports it. -/
theorem findPeers_merges (discovery : CompositeDiscovery E F) (modelId : String)
    (minMemoryBytes : UInt64) :
    ((∃ e, discovery.findPeers modelId minMemoryBytes = .error e) ↔
        ∀ source ∈ discovery.sources, ∃ e, source modelId minMemoryBytes = .error e) ∧
      ∀ peers, discovery.findPeers modelId minMemoryBytes = .ok peers →
        Merges (discovery.results modelId minMemoryBytes) peers := by
  have hfailed : (∀ source ∈ discovery.sources, ∃ e, source modelId minMemoryBytes = .error e) ↔
      (discovery.results modelId minMemoryBytes).any Except.isOk = false := by
    rw [any_isOk_eq_false_iff, results, List.forall_mem_map]
  rw [hfailed, findPeers_eq]
  cases hany : (discovery.results modelId minMemoryBytes).any Except.isOk with
  | true =>
      refine ⟨iff_of_false ?_ Bool.noConfusion, ?_⟩
      · rintro ⟨e, he⟩
        cases he
      · intro peers hpeers
        cases hpeers
        exact merges_foldl _
  | false =>
      obtain ⟨e, rest, hfailures⟩ := exists_failures (discovery.results_ne _ _) hany
      rw [hfailures]
      refine ⟨iff_of_true ⟨e, rfl⟩ rfl, ?_⟩
      intro peers hpeers
      cases hpeers

end CompositeDiscovery

end HiveBear.Mesh.Discovery
