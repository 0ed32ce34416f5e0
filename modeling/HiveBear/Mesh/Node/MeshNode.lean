/-
# A mesh node

A node registers with its discovery sources, keeps the registration up, connects to the peers
that are discovered, and pings those it is connected to. Registering, heartbeats and
deregistering wait for an answer of the coordination server, and other calls can be made
meanwhile: a call in progress is kept with what it still has to do.

A pass over the discovered peers is taken peer by peer. What the network does with each
attempt to connect, and what the sources answer, is part of the event.
-/

import HiveBear.Library.Run
import HiveBear.Mesh.Discovery.PeerInfo
import HiveBear.Mesh.Trust.Reputation

namespace HiveBear.Mesh

open Discovery (SocketAddr)
open IntervalTiling (Range)

/-! ## Registering with several sources -/

namespace CompositeDiscovery

/-- One more source has answered: whether any has accepted, and the last error. -/
def collect (answers : Bool × Option String) (answer : Except String Unit) :
    Bool × Option String :=
  match answer with
  | .ok () => (true, answers.2)
  | .error e => (answers.1, some e)

/-- Every source gets a chance to register. The call succeeds when at least one accepted. -/
def register (answers : List (Except String Unit)) : Except String Unit :=
  match answers.foldl collect (false, none) with
  | (true, _) => .ok ()
  | (false, some e) => .error e
  | (false, none) => .ok ()

theorem foldl_collect (answers : List (Except String Unit)) (seen : Bool × Option String) :
    (answers.foldl collect seen).1 = (seen.1 || answers.any Except.isOk) ∧
      ((answers.foldl collect seen).2 = none ↔ seen.2 = none ∧ answers.all Except.isOk) := by
  induction answers generalizing seen with
  | nil => simp
  | cons answer answers ih =>
      rw [List.foldl_cons, (ih _).1, (ih _).2]
      cases answer <;> simp [collect, Except.isOk, Except.toBool]

/-- Among some sources one accepted, just if the call succeeds. -/
theorem isOk_register {answers : List (Except String Unit)} (hsome : answers ≠ []) :
    (register answers).isOk = answers.any Except.isOk := by
  obtain ⟨hany, hlast⟩ := foldl_collect answers (false, none)
  rw [Bool.false_or] at hany
  rw [register]
  split
  · next h =>
      rw [h] at hany
      exact hany
  · next h =>
      rw [h] at hany
      exact hany
  · next h =>
      rw [h] at hany hlast
      have hall := (hlast.mp rfl).2
      cases answers with
      | nil => exact absurd rfl hsome
      | cons answer answers =>
          rw [List.all_cons, Bool.and_eq_true] at hall
          rw [List.any_cons, hall.1, Bool.true_or] at hany
          cases hany

end CompositeDiscovery

/-! ## The node -/

/-- Lifecycle state of a peer connection. -/
inductive PeerState
  /-- Discovered, not yet connected. -/
  | discovered
  /-- Connection established, ready for work. -/
  | connected
  /-- Actively processing layers for a session. -/
  | active (sessionId : Uuid) (assignedLayers : Range)
  /-- Connection lost. -/
  | disconnected
  /-- Reputation too low, blocked from mesh. -/
  | banned
  deriving DecidableEq

/-- The states of a peer that a health check pings. -/
def PeerState.isLive : PeerState → Bool
  | .connected => true
  | .active _ _ => true
  | _ => false

/-- The peers that a node knows about, by the bytes of a key. -/
abbrev PeerTable (F : Type) := AList fun _ : List UInt8 => Discovery.PeerInfo F × PeerState

/-- A node, and the record that its client of the coordination server keeps for heartbeats. -/
structure MeshNode (F : Type) where
  localId : NodeId
  peers : PeerTable F
  reputation : ReputationManager F
  /-- Our external address. -/
  externalAddr : Option SocketAddr
  /-- Relay servers for symmetric NAT fallback. -/
  relayServers : List String
  /-- True once the coordination server accepted this node's registration. -/
  registered : Bool
  /-- Our own advertised record, kept so registration can be retried. -/
  localInfo : Option (Discovery.PeerInfo F)
  running : Bool
  nodeInfo : Option (Discovery.PeerInfo F)

/-- Who asked for a registration. -/
inductive Caller
  | start
  | maintenance
  deriving DecidableEq

/-- A call to the node that waits for the coordination server. -/
inductive Call
  | registering (caller : Caller)
  | beating
  | deregistering
  | returned

/-- What the coordination server was asked, and whether it accepted. A deregistration is
recorded only when the server has removed the node. -/
inductive Exchange
  | registration (accepted : Bool)
  | heartbeat (accepted : Bool)
  | deregistration
  deriving DecidableEq

/-- What the network does while a node tries to reach a peer: the node that answers each
attempt in time, if one does, and what the relay server says. -/
structure Network where
  direct : Option NodeId
  external : Option NodeId
  holePunch : Option NodeId
  /-- The answer to the attempt behind a hole punch that succeeded. -/
  punched : Option NodeId
  relayAvailable : Bool
  relayAddr : Option SocketAddr
  relayed : Option NodeId

namespace MeshNode

variable {F : Type} (node : MeshNode F)

/-- A node that has not been started. -/
def new (localId : NodeId) (reputation : ReputationManager F) (relayServers : List String) :
    MeshNode F where
  localId := localId
  peers := ∅
  reputation := reputation
  externalAddr := none
  relayServers := relayServers
  registered := false
  localInfo := none
  running := false
  nodeInfo := none

/-- True once the coordination server accepted this node's registration. -/
def isRegistered : Bool := node.registered

/-! ## Registration -/

/-- Register with every source. The coordinator's client keeps the record before it asks. -/
def register (caller : Caller) (info : Discovery.PeerInfo F) : MeshNode F × Call :=
  ({ node with nodeInfo := some info }, .registering caller)

/-- Register with the record that is kept, if there is one. -/
def reregister : MeshNode F × Call :=
  match node.localInfo with
  | none => (node, .returned)
  | some info => node.register .maintenance info

/-- Start the mesh node: listen for connections and register with discovery. -/
def start (stun : Option SocketAddr) (listening : Bool) (info : Discovery.PeerInfo F) :
    MeshNode F × Call :=
  let found : MeshNode F × Discovery.PeerInfo F :=
    match stun with
    | some addr => ({ node with externalAddr := some addr }, { info with externalAddr := some addr })
    | none => (node, info)
  if listening then
    { found.1 with running := true, localInfo := some found.2 }.register .start found.2
  else (found.1, .returned)

/-- Send a heartbeat, re-registering when the coordinator does not know us. -/
def maintainRegistration : MeshNode F × Call :=
  if node.registered then (node, .beating) else node.reregister

/-- Stop the mesh node: forget all peers, and deregister from all sources. -/
def stop : MeshNode F × Call := ({ node with running := false, peers := ∅ }, .deregistering)

/-- The sources have answered a registration. -/
def endRegistration (caller : Caller) (coordinator lan : Except String Unit) :
    Option Exchange × MeshNode F × Call :=
  let asked := some (.registration coordinator.isOk)
  match CompositeDiscovery.register [coordinator, lan] with
  | .ok () => (asked, { node with registered := true }, .returned)
  | .error _ =>
      match caller with
      | .start => (asked, { node with registered := false }, .returned)
      | .maintenance => (asked, node, .returned)

/-- The coordinator has answered a heartbeat. Without a record to send, the client fails and does
not ask. -/
def endHeartbeat (coordinator : Except String Unit) : Option Exchange × MeshNode F × Call :=
  match node.nodeInfo with
  | none => (none, { node with registered := false }.reregister)
  | some _ =>
      match coordinator with
      | .ok () => (some (.heartbeat true), node, .returned)
      | .error _ => (some (.heartbeat false), { node with registered := false }.reregister)

/-- The coordinator has answered a deregistration. Its client gives the record up either way. -/
def endDeregistration (coordinator : Except String Unit) : Option Exchange × MeshNode F × Call :=
  match node.nodeInfo with
  | none => (none, node, .returned)
  | some _ =>
      (if coordinator.isOk then some .deregistration else none, { node with nodeInfo := none },
        .returned)

/-- Take the answers of the coordinator and of LAN discovery: what the coordinator was asked, and
how the call goes on. -/
def resume (coordinator lan : Except String Unit) : Call → Option Exchange × MeshNode F × Call
  | .registering caller => node.endRegistration caller coordinator lan
  | .beating => node.endHeartbeat coordinator
  | .deregistering => node.endDeregistration coordinator
  | .returned => (none, node, .returned)

/-! ## Connecting -/

/-- Direct connection to the advertised address. -/
def directConnect (peer : Discovery.PeerInfo F) (network : Network) :
    List SocketAddr × Option NodeId :=
  ([peer.addr], network.direct)

/-- Connection to the peer's external address. -/
def externalConnect (peer : Discovery.PeerInfo F) (network : Network) :
    List SocketAddr × Option NodeId :=
  match peer.externalAddr with
  | some addr => ([addr], network.external)
  | none => ([], none)

/-- Hole punch: one attempt to get through, and another one to connect. -/
def holePunch (peer : Discovery.PeerInfo F) (network : Network) :
    List SocketAddr × Option NodeId :=
  if node.externalAddr.isSome || peer.externalAddr.isSome then
    match network.holePunch with
    | some _ => ([peer.addr, peer.externalAddr.getD peer.addr], network.punched)
    | none => ([peer.addr], none)
  else ([], none)

/-- Relay server fallback. -/
def relayConnect (network : Network) : List SocketAddr × Option NodeId :=
  if !node.relayServers.isEmpty && network.relayAvailable then
    match network.relayAddr with
    | some addr => ([addr], network.relayed)
    | none => ([], none)
  else ([], none)

/-- Try each strategy in order, falling through to the next on failure. -/
def tryEach : List (List SocketAddr × Option NodeId) → List SocketAddr × Option NodeId
  | [] => ([], none)
  | (addrs, some id) :: _ => (addrs, some id)
  | (addrs, none) :: rest => (addrs ++ (tryEach rest).1, (tryEach rest).2)

/-- Attempt to connect to a peer using a tiered NAT traversal strategy. The addresses are those
that the transport is asked to connect to. -/
def connectWithNatTraversal (peer : Discovery.PeerInfo F) (network : Network) :
    List SocketAddr × Except MeshError NodeId :=
  match tryEach [directConnect peer network, externalConnect peer network,
    node.holePunch peer network, node.relayConnect network] with
  | (addrs, some id) => (addrs, .ok id)
  | (addrs, none) =>
      (addrs, .error (.transport s!"All connection strategies exhausted for peer {peer.nodeId}"))

/-! ## Discovery passes and health checks -/

variable [ReputationOps F]

/-- What a pass does with one discovered peer, and the addresses that it tries. -/
def visit (peer : Discovery.PeerInfo F) (network : Network) : MeshNode F × List SocketAddr :=
  if peer.nodeId = node.localId then (node, [])
  else if (node.peers.lookup peer.nodeId.bytes).isSome then (node, [])
  else if node.reputation.isBanned peer.nodeId then (node, [])
  else
    match node.connectWithNatTraversal peer network with
    | (addrs, .ok connectedId) =>
        ({ node with peers := node.peers.insert connectedId.bytes (peer, .connected) }, addrs)
    | (addrs, .error _) => (node, addrs)

omit [ReputationOps F] in
/-- Mark the entry under a key as disconnected, if there is one. -/
def markDisconnected (key : List UInt8) : MeshNode F :=
  match node.peers.lookup key with
  | some (info, _) => { node with peers := node.peers.insert key (info, .disconnected) }
  | none => node

omit [ReputationOps F] in
/-- Ping all connected peers and disconnect those that are unresponsive. -/
def checkPeerHealth (reachable : ℕ → Bool) : MeshNode F :=
  let peerIds := (node.peers.pairs.filter fun e => e.2.2.isLive).map fun e => e.2.1.nodeId
  peerIds.zipIdx.foldl
    (fun node ping => if reachable ping.2 then node else node.markDisconnected ping.1.bytes) node

/-! ## What is left alone -/

/-- A visit changes nothing but the peers. -/
theorem visit_eq (peer : Discovery.PeerInfo F) (network : Network) :
    ∃ peers, (node.visit peer network).1 = { node with peers := peers } := by
  rw [visit]
  split_ifs
  · exact ⟨node.peers, rfl⟩
  · exact ⟨node.peers, rfl⟩
  · exact ⟨node.peers, rfl⟩
  · split
    · exact ⟨_, rfl⟩
    · exact ⟨node.peers, rfl⟩

omit [ReputationOps F] in
theorem markDisconnected_eq (key : List UInt8) :
    ∃ peers, node.markDisconnected key = { node with peers := peers } := by
  rw [markDisconnected]
  split
  · exact ⟨_, rfl⟩
  · exact ⟨node.peers, rfl⟩

omit [ReputationOps F] in
/-- What marking an entry keeps, a health check keeps. -/
theorem checkPeerHealth_induction {P : MeshNode F → Prop}
    (hmark : ∀ {node : MeshNode F} (key), P node → P (node.markDisconnected key))
    (hnode : P node) (reachable : ℕ → Bool) : P (node.checkPeerHealth reachable) := by
  rw [checkPeerHealth]
  refine List.foldlRecOn _ _ hnode fun current hcurrent ping _ => ?_
  split
  · exact hcurrent
  · exact hmark _ hcurrent

omit [ReputationOps F] in
/-- A health check changes nothing but the peers. -/
theorem checkPeerHealth_eq (reachable : ℕ → Bool) :
    ∃ peers, node.checkPeerHealth reachable = { node with peers := peers } :=
  node.checkPeerHealth_induction (P := fun node' => ∃ peers, node' = { node with peers := peers })
    (by
      rintro _ key ⟨peers, rfl⟩
      obtain ⟨marked, hmarked⟩ := markDisconnected_eq { node with peers := peers } key
      exact ⟨marked, hmarked⟩)
    ⟨node.peers, rfl⟩ reachable

end MeshNode

/-! ## Runs -/

/-- Something that a node is asked to do, or that it goes on with. Passes and health checks are
made by one loop, one after the other. -/
inductive NodeEvent (F : Type)
  | start (stun : Option SocketAddr) (listening : Bool) (info : Discovery.PeerInfo F)
  | maintainRegistration
  | stop
  /-- The sources answer a call in progress. -/
  | answer (call : ℕ) (coordinator lan : Except String Unit)
  /-- A pass begins with what the sources have found. -/
  | discover (found : Except String (List (Discovery.PeerInfo F)))
  /-- The pass goes on to the next of its peers. -/
  | visit (network : Network)
  | checkPeerHealth (reachable : ℕ → Bool)

/-- A node at work: its calls, the peers that its pass has still to visit, and what the
coordination server has been asked so far. -/
structure NodeRun (F : Type) where
  node : MeshNode F
  calls : List Call
  pending : List (Discovery.PeerInfo F)
  exchanges : List Exchange

namespace NodeRun

variable {F : Type}

/-- A node that nothing has been asked of. -/
def fresh (localId : NodeId) (reputation : ReputationManager F) (relayServers : List String) :
    NodeRun F :=
  ⟨.new localId reputation relayServers, [], [], []⟩

/-- A call begins. -/
def begin (s : NodeRun F) (called : MeshNode F × Call) : NodeRun F :=
  { s with node := called.1, calls := s.calls ++ [called.2] }

/-- A call goes on. -/
def goOn (s : NodeRun F) (i : ℕ) (resumed : Option Exchange × MeshNode F × Call) : NodeRun F :=
  { s with
    node := resumed.2.1
    calls := s.calls.set i resumed.2.2
    exchanges := s.exchanges ++ resumed.1.toList }

/-- The sources answer a call. -/
def answerCall (s : NodeRun F) (i : ℕ) (coordinator lan : Except String Unit) : NodeRun F :=
  match s.calls[i]? with
  | some call => s.goOn i (s.node.resume coordinator lan call)
  | none => s

/-- The loop begins a pass, unless it is at one. -/
def beginPass (s : NodeRun F) (found : Except String (List (Discovery.PeerInfo F))) : NodeRun F :=
  match s.pending, found with
  | [], .ok peers => { s with pending := peers }
  | _, _ => s

/-- The loop checks the health of all peers, unless it is at a pass. -/
def checkHealth (s : NodeRun F) (reachable : ℕ → Bool) : NodeRun F :=
  match s.pending with
  | [] => { s with node := s.node.checkPeerHealth reachable }
  | _ :: _ => s

variable [ReputationOps F] (s : NodeRun F)

/-- The pass visits its next peer. -/
def visitNext (network : Network) : NodeRun F :=
  match s.pending with
  | [] => s
  | peer :: rest => { s with node := (s.node.visit peer network).1, pending := rest }

/-- What an event leads to. -/
def next : NodeEvent F → NodeRun F
  | .start stun listening info => s.begin (s.node.start stun listening info)
  | .maintainRegistration => s.begin s.node.maintainRegistration
  | .stop => s.begin s.node.stop
  | .answer i coordinator lan => s.answerCall i coordinator lan
  | .discover found => s.beginPass found
  | .visit network => s.visitNext network
  | .checkPeerHealth reachable => s.checkHealth reachable

/-- A node behind these events. -/
def after (events : List (NodeEvent F)) : NodeRun F := LabelledRun.exec next s events

end NodeRun

end HiveBear.Mesh
