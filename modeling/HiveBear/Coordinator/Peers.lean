/-
# The coordinator's table of peers

Nodes register with the coordinator and refresh their records with heartbeats; everybody can
ask for the records it has. Records travel as JSON in both directions.

A record arrives as it was sent if and only if it is portable. One with a latency map that is
not empty is not even sent: the request fails before it leaves the node.
-/

import HiveBear.Mesh.Discovery.Json

namespace HiveBear.Coordinator

open Mesh Mesh.Discovery

variable {F : Type}

/-- A registered node, and when it was last heard of. -/
structure NodeEntry (F : Type) where
  info : Mesh.Discovery.PeerInfo F
  lastSeen : ℕ

/-- The registered nodes, by the hex form of their keys. -/
abbrev Nodes (F : Type) := AList fun _ : String => NodeEntry F

/-- What to list: nodes that serve a model, or none yet, with this much memory. -/
structure PeersQuery where
  model : Option String
  minMemory : Option UInt64

section Requests

variable (texts : Texts F)

/-- What a client sends to register or as a heartbeat. -/
def requestBody (info : Mesh.Discovery.PeerInfo F) : Option (Json.Value F) :=
  (PeerInfo.json texts).write info

/-- The record in the body of a request. -/
def extract (body : Json.Value F) : Option (Mesh.Discovery.PeerInfo F) :=
  (PeerInfo.json texts).read body

/-- Register the node of a request. -/
def registerNode (nodes : Nodes F) (now : ℕ) (body : Json.Value F) : Option (Nodes F) := do
  let info ← extract texts body
  return nodes.insert info.nodeId.toHex ⟨info, now⟩

/-- Refresh the record of a node. One that is missing is registered. -/
def heartbeatNode (nodes : Nodes F) (now : ℕ) (body : Json.Value F) : Option (Nodes F) := do
  let info ← extract texts body
  match nodes.lookup info.nodeId.toHex with
  | some entry => return nodes.insert info.nodeId.toHex { entry with info := info, lastSeen := now }
  | none => return nodes.insert info.nodeId.toHex ⟨info, now⟩

/-- The records that a query asks for. -/
def selectPeers (nodes : Nodes F) (query : PeersQuery) : List (Mesh.Discovery.PeerInfo F) :=
  let minMem := query.minMemory.getD 0
  let targetModel := query.model.getD ""
  (nodes.pairs.map fun e => e.2.info).filter fun info =>
    minMem ≤ info.availableMemoryBytes ∧
      (targetModel = "" ∨ ∀ model ∈ info.servingModelId, targetModel.toList <:+: model.toList)

/-- Answer a query. -/
def listPeers (nodes : Nodes F) (query : PeersQuery) : Option (Json.Value F) :=
  (PeerInfo.json texts).seq.write (selectPeers nodes query)

/-- What a client makes of the answer. -/
def findPeers (answer : Json.Value F) : Option (List (Mesh.Discovery.PeerInfo F)) :=
  (PeerInfo.json texts).seq.read answer

/-- A heartbeat does what a registration does. -/
theorem heartbeatNode_eq_registerNode : heartbeatNode texts = registerNode texts := by
  funext nodes now body
  rw [heartbeatNode, registerNode]
  congr 1
  funext info
  split <;> rfl

/-- A portable record is registered as it is. -/
theorem registerNode_requestBody {info : Mesh.Discovery.PeerInfo F} (h : info.Portable texts)
    (nodes : Nodes F) (now : ℕ) :
    ((requestBody texts info).bind (registerNode texts nodes now)) =
      some (nodes.insert info.nodeId.toHex ⟨info, now⟩) := by
  obtain ⟨body, hwrite, hread⟩ := Json.Codec.readsBack_iff.mp ((readsBack_peer texts info).mpr h)
  rw [requestBody, hwrite, Option.bind_some, registerNode, extract, hread]
  rfl

/-- **Records arrive as they were sent exactly if they are portable**, on their way to the
coordinator and on their way back. -/
theorem coordinator_wire_exact_iff :
    (∀ info, (requestBody texts info).bind (extract texts) = some info ↔ info.Portable texts) ∧
      ∀ nodes query, (listPeers texts nodes query).bind (findPeers texts) =
          some (selectPeers nodes query) ↔
        ∀ info ∈ selectPeers nodes query, info.Portable texts := by
  refine ⟨readsBack_peer texts, ?_⟩
  intro nodes query
  have hlist := Json.Codec.readsBack_seq (PeerInfo.json texts) (selectPeers nodes query)
  simp only [readsBack_peer] at hlist
  exact hlist

end Requests

/-! ## A measured latency -/

/-- Texts for a node on its own machine, with exact numbers. -/
def localTexts : Texts ℚ where
  floats := ⟨fun _ => true, id, fun n => n⟩
  showAddr _ := "127.0.0.1:7878"
  readAddr text := if text = "127.0.0.1:7878" then some (.localhost 7878) else none
  showUuid _ := ""
  readUuid _ := none

/-- A node that has measured its latency to a peer. -/
def measured : Mesh.Discovery.PeerInfo ℚ :=
  { PeerInfo.plain 0 (NodeId.ofByte 1) with
    latencyMap := AList.singleton (NodeId.ofByte 2) 5 }

/-- It cannot be registered, though its record without the latency arrives. -/
theorem measured_is_not_sent :
    requestBody localTexts measured = none ∧
      (requestBody localTexts { measured with latencyMap := ∅ }).bind (extract localTexts) =
        some { measured with latencyMap := ∅ } := by
  constructor
  · rfl
  · apply (readsBack_peer localTexts _).mpr
    refine ⟨rfl, fun x _ => ⟨rfl, rfl⟩, ?_, fun swarmId hswarm => by cases hswarm⟩
    intro addr haddr
    obtain rfl : addr = .localhost 7878 := List.mem_singleton.mp haddr
    rfl

end HiveBear.Coordinator
