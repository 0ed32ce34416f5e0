/-
# The table of peers

A pass connects to the discovered peers that have no entry, whatever the state of the entry,
and a health check leaves the entry of a lost peer in place. So a lost peer is not tried again,
as long as the table is not cleared.

An entry describes the peer that was advertised, and is kept under the key of the node that
answered. The two agree throughout a run if and only if each node that answers first is
the one that was advertised. Then nobody is in the table who is banned, nor the node itself.
-/

import HiveBear.Mesh.Node.MeshNode

namespace HiveBear.Mesh

variable {F : Type}

namespace MeshNode

variable (node : MeshNode F)

/-! ## Who answers -/

/-- The node that answers first, of those that the strategies reach. -/
def answerer (peer : Discovery.PeerInfo F) (network : Network) : Option NodeId :=
  network.direct <|>
    (peer.externalAddr.bind fun _ => network.external) <|>
    (if node.externalAddr.isSome || peer.externalAddr.isSome then
      network.holePunch.bind fun _ => network.punched else none) <|>
    (if !node.relayServers.isEmpty && network.relayAvailable then
      network.relayAddr.bind fun _ => network.relayed else none)

theorem snd_externalConnect (peer : Discovery.PeerInfo F) (network : Network) :
    (externalConnect peer network).2 = peer.externalAddr.bind fun _ => network.external := by
  rw [externalConnect]
  cases peer.externalAddr <;> rfl

theorem snd_holePunch (peer : Discovery.PeerInfo F) (network : Network) :
    (node.holePunch peer network).2 =
      if node.externalAddr.isSome || peer.externalAddr.isSome then
        network.holePunch.bind fun _ => network.punched else none := by
  rw [holePunch]
  split
  · cases network.holePunch <;> rfl
  · rfl

theorem snd_relayConnect (network : Network) :
    (node.relayConnect network).2 =
      if !node.relayServers.isEmpty && network.relayAvailable then
        network.relayAddr.bind fun _ => network.relayed else none := by
  rw [relayConnect]
  split
  · cases network.relayAddr <;> rfl
  · rfl

/-- Connecting tries the advertised address first, and ends with the node that answers first. -/
theorem connectWithNatTraversal_eq (peer : Discovery.PeerInfo F) (network : Network) :
    ∃ addrs, node.connectWithNatTraversal peer network = (peer.addr :: addrs,
      match node.answerer peer network with
      | some id => .ok id
      | none => .error
          (.transport s!"All connection strategies exhausted for peer {peer.nodeId}")) := by
  have hanswer : node.answerer peer network =
      (network.direct <|> (externalConnect peer network).2 <|> (node.holePunch peer network).2 <|>
        (node.relayConnect network).2) := by
    rw [snd_externalConnect, snd_holePunch, snd_relayConnect, answerer]
  rw [hanswer, connectWithNatTraversal, directConnect]
  cases network.direct with
  | some id => exact ⟨[], rfl⟩
  | none =>
      obtain ⟨externalAddrs, external⟩ := externalConnect peer network
      obtain ⟨punchAddrs, punched⟩ := node.holePunch peer network
      obtain ⟨relayAddrs, relayed⟩ := node.relayConnect network
      cases external with
      | some id => exact ⟨externalAddrs, rfl⟩
      | none =>
          cases punched with
          | some id => exact ⟨externalAddrs ++ punchAddrs, rfl⟩
          | none =>
              cases relayed with
              | some id => exact ⟨externalAddrs ++ (punchAddrs ++ relayAddrs), rfl⟩
              | none => exact ⟨externalAddrs ++ (punchAddrs ++ (relayAddrs ++ [])), rfl⟩

/-! ## What a visit does -/

variable [ReputationOps F]

/-- A pass tries to connect to a peer other than itself that has no entry and is not banned. -/
structure Tries (peer : Discovery.PeerInfo F) : Prop where
  notSelf : peer.nodeId ≠ node.localId
  noEntry : node.peers.lookup peer.nodeId.bytes = none
  notBanned : node.reputation.isBanned peer.nodeId = false

variable {node} {peer : Discovery.PeerInfo F} {network : Network}

theorem visit_of_not_tries (h : ¬ node.Tries peer) : node.visit peer network = (node, []) := by
  rw [visit]
  split_ifs with hself hentry hbanned
  · rfl
  · rfl
  · rfl
  · exfalso
    exact h ⟨hself, Option.not_isSome_iff_eq_none.mp hentry, Bool.eq_false_iff.mpr hbanned⟩

/-- A visit that tries to connect makes an entry for the peer, under the key of the node that
answers. -/
theorem visit_of_tries (h : node.Tries peer) (network : Network) :
    ∃ addrs, node.visit peer network = (match node.answerer peer network with
      | some id => { node with peers := node.peers.insert id.bytes (peer, .connected) }
      | none => node, peer.addr :: addrs) := by
  obtain ⟨addrs, hconnect⟩ := node.connectWithNatTraversal_eq peer network
  refine ⟨addrs, ?_⟩
  rw [visit, if_neg h.notSelf, if_neg (Option.not_isSome_iff_eq_none.mpr h.noEntry),
    if_neg (Bool.eq_false_iff.mp h.notBanned), hconnect]
  cases node.answerer peer network <;> rfl

/-- A visit tries the address of the peer just if it tries to connect. -/
theorem addr_mem_visit_iff : peer.addr ∈ (node.visit peer network).2 ↔ node.Tries peer := by
  constructor
  · intro hmem
    by_contra hnot
    rw [visit_of_not_tries hnot] at hmem
    cases hmem
  · intro htries
    obtain ⟨addrs, hvisit⟩ := visit_of_tries htries network
    rw [hvisit]
    exact List.mem_cons_self

/-! ## What leaves the table alone -/

/-- Two nodes with one identity, reputation manager and table. -/
structure SameTable (first second : MeshNode F) : Prop where
  localId : second.localId = first.localId
  reputation : second.reputation = first.reputation
  peers : second.peers = first.peers

section Unchanged

omit [ReputationOps F]

theorem SameTable.refl (node : MeshNode F) : SameTable node node := ⟨rfl, rfl, rfl⟩

theorem sameTable_reregister (node : MeshNode F) : SameTable node node.reregister.1 := by
  rw [reregister]
  split <;> exact ⟨rfl, rfl, rfl⟩

theorem sameTable_start (node : MeshNode F) (stun : Option Discovery.SocketAddr) (listening : Bool)
    (info : Discovery.PeerInfo F) : SameTable node (node.start stun listening info).1 := by
  cases stun <;> cases listening <;> exact ⟨rfl, rfl, rfl⟩

theorem sameTable_maintainRegistration (node : MeshNode F) :
    SameTable node node.maintainRegistration.1 := by
  rw [maintainRegistration]
  split
  · exact SameTable.refl node
  · exact sameTable_reregister node

theorem sameTable_resume (node : MeshNode F) (coordinator lan : Except String Unit) (call : Call) :
    SameTable node (node.resume coordinator lan call).2.1 := by
  have hrefused : SameTable node { node with registered := false }.reregister.1 := by
    obtain ⟨hid, hreputation, hpeers⟩ := sameTable_reregister { node with registered := false }
    exact ⟨hid, hreputation, hpeers⟩
  cases call with
  | registering caller =>
      rw [resume]
      unfold endRegistration
      cases CompositeDiscovery.register [coordinator, lan] with
      | ok => exact ⟨rfl, rfl, rfl⟩
      | error => cases caller <;> exact ⟨rfl, rfl, rfl⟩
  | beating =>
      rw [resume]
      unfold endHeartbeat
      split
      · exact hrefused
      · cases coordinator with
        | ok => exact SameTable.refl node
        | error => exact hrefused
  | deregistering =>
      rw [resume, endDeregistration]
      cases node.nodeInfo <;> exact ⟨rfl, rfl, rfl⟩
  | returned => exact SameTable.refl node

end Unchanged

end MeshNode

namespace NodeRun

variable [ReputationOps F] {s : NodeRun F}

/-- What an event does to the table: nothing, or it forgets all peers, makes a visit, or checks
the health of the peers. -/
theorem next_table (event : NodeEvent F) :
    ((∀ network, event = .visit network → s.pending = []) ∧
        MeshNode.SameTable s.node (s.next event).node) ∨
      (event = .stop ∧ (s.next event).node = { s.node with running := false, peers := ∅ }) ∨
      (∃ network peer rest, event = .visit network ∧ s.pending = peer :: rest ∧
        (s.next event).node = (s.node.visit peer network).1) ∨
      ∃ reachable, event = .checkPeerHealth reachable ∧
        (s.next event).node = s.node.checkPeerHealth reachable := by
  cases event with
  | start stun listening info =>
      exact .inl ⟨fun _ h => (by cases h), s.node.sameTable_start stun listening info⟩
  | maintainRegistration =>
      exact .inl ⟨fun _ h => (by cases h), s.node.sameTable_maintainRegistration⟩
  | stop => exact .inr (.inl ⟨rfl, rfl⟩)
  | answer i coordinator lan =>
      refine .inl ⟨fun _ h => (by cases h), ?_⟩
      rw [next, answerCall]
      split
      · exact s.node.sameTable_resume coordinator lan _
      · exact .refl s.node
  | discover found =>
      refine .inl ⟨fun _ h => (by cases h), ?_⟩
      rw [next]
      unfold beginPass
      split <;> exact .refl s.node
  | visit network =>
      rw [next, visitNext]
      cases hpending : s.pending with
      | nil => exact .inl ⟨fun _ _ => rfl, .refl s.node⟩
      | cons peer rest => exact .inr (.inr (.inl ⟨network, peer, rest, rfl, rfl, rfl⟩))
  | checkPeerHealth reachable =>
      rw [next, checkHealth]
      cases s.pending with
      | nil => exact .inr (.inr (.inr ⟨reachable, rfl, rfl⟩))
      | cons peer rest => exact .inl ⟨fun _ h => (by cases h), .refl s.node⟩

end NodeRun

/-! ## Entries under the keys of their nodes -/

namespace MeshNode

/-- An entry of the table: a peer under the key of its node, who is not banned, and is not the
node itself. -/
structure EntryHolds (node : MeshNode F) [ReputationOps F] (key : List UInt8)
    (info : Discovery.PeerInfo F) : Prop where
  keyed : key = info.nodeId.bytes
  notBanned : node.reputation.isBanned info.nodeId = false
  notSelf : info.nodeId ≠ node.localId

variable [ReputationOps F] {node : MeshNode F}

/-- Every entry is under the key of its node. Neither a banned peer nor the node itself has
one. -/
def TableHolds (node : MeshNode F) : Prop :=
  ∀ key entry, node.peers.lookup key = some entry → node.EntryHolds key entry.1

theorem tableHolds_of_empty (h : node.peers = ∅) : node.TableHolds := by
  intro key entry hentry
  rw [h, AList.lookup_empty] at hentry
  cases hentry

theorem TableHolds.sameTable {other : MeshNode F} (h : node.TableHolds)
    (hsame : SameTable node other) : other.TableHolds := by
  intro key entry hentry
  rw [hsame.peers] at hentry
  obtain ⟨hkeyed, hbanned, hself⟩ := h key entry hentry
  exact ⟨hkeyed, by rwa [hsame.reputation], by rwa [hsame.localId]⟩

/-- One more entry keeps the table right just if the entry is right. -/
theorem tableHolds_insert_iff (h : node.TableHolds) {key : List UInt8}
    {entry : Discovery.PeerInfo F × PeerState} :
    { node with peers := node.peers.insert key entry }.TableHolds ↔
      node.EntryHolds key entry.1 := by
  constructor
  · intro hinserted
    obtain ⟨hkeyed, hbanned, hself⟩ := hinserted key entry (AList.lookup_insert _)
    exact ⟨hkeyed, hbanned, hself⟩
  · intro hentry other found hfound
    by_cases hkey : other = key
    · subst hkey
      rw [AList.lookup_insert] at hfound
      cases hfound
      exact ⟨hentry.keyed, hentry.notBanned, hentry.notSelf⟩
    · rw [AList.lookup_insert_ne hkey] at hfound
      obtain ⟨hkeyed, hbanned, hself⟩ := h other found hfound
      exact ⟨hkeyed, hbanned, hself⟩

theorem TableHolds.markDisconnected (h : node.TableHolds) (key : List UInt8) :
    (node.markDisconnected key).TableHolds := by
  rw [MeshNode.markDisconnected]
  split
  · next info state hentry => exact (tableHolds_insert_iff h).mpr (h key (info, state) hentry)
  · exact h

/-- A visit keeps the table right just if the node that answers is the one that was
advertised. -/
theorem tableHolds_visit_iff (h : node.TableHolds) (peer : Discovery.PeerInfo F)
    (network : Network) :
    (node.visit peer network).1.TableHolds ↔
      (node.Tries peer → ∀ id, node.answerer peer network = some id → id = peer.nodeId) := by
  by_cases htries : node.Tries peer
  · obtain ⟨addrs, hvisit⟩ := visit_of_tries htries network
    rw [hvisit]
    cases hanswer : node.answerer peer network with
    | none => exact iff_of_true h (fun _ _ hsome => by cases hsome)
    | some id =>
        constructor
        · intro hinserted _ other hother
          cases hother
          exact NodeId.eq_of_bytes ((tableHolds_insert_iff h).mp hinserted).keyed
        · intro hadvertised
          have hid := hadvertised htries id rfl
          exact (tableHolds_insert_iff h).mpr
            ⟨congrArg NodeId.bytes hid, htries.notBanned, htries.notSelf⟩
  · rw [visit_of_not_tries htries]
    exact iff_of_true h (fun hyes => absurd hyes htries)

end MeshNode

namespace NodeRun

variable [ReputationOps F] {s : NodeRun F}

/-- The node that answers a visit first is the one that was advertised. -/
def AnsweredAsAdvertised (s : NodeRun F) : NodeEvent F → Prop
  | .visit network =>
      match s.pending with
      | [] => True
      | peer :: _ => s.node.Tries peer →
          ∀ id, s.node.answerer peer network = some id → id = peer.nodeId
  | _ => True

theorem answeredAsAdvertised_of_ne {event : NodeEvent F}
    (h : ∀ network, event = .visit network → s.pending = []) : s.AnsweredAsAdvertised event := by
  cases event with
  | visit network =>
      rw [AnsweredAsAdvertised, h network rfl]
      trivial
  | _ => trivial

theorem tableHolds_next_iff (h : s.node.TableHolds) (event : NodeEvent F) :
    (s.next event).node.TableHolds ↔ s.AnsweredAsAdvertised event := by
  rcases s.next_table event with ⟨hquiet, hsame⟩ | ⟨rfl, hnode⟩ |
    ⟨network, peer, rest, rfl, hpending, hnode⟩ | ⟨reachable, rfl, hnode⟩
  · exact iff_of_true (h.sameTable hsame) (answeredAsAdvertised_of_ne hquiet)
  · rw [hnode]
    exact iff_of_true (MeshNode.tableHolds_of_empty rfl) trivial
  · rw [hnode, AnsweredAsAdvertised, hpending]
    exact MeshNode.tableHolds_visit_iff h peer network
  · rw [hnode]
    exact iff_of_true
      (s.node.checkPeerHealth_induction (fun key hnode => hnode.markDisconnected key) h reachable)
      trivial

/-- **When the table is keyed by who answered.** Throughout a run every entry is under the key
of its node, who is neither banned nor the node itself, just if each visit is answered first by
the node that was advertised. -/
theorem peer_table_keyed_iff (localId : NodeId) (reputation : ReputationManager F)
    (relayServers : List String) (events : List (NodeEvent F)) :
    let start := fresh localId reputation relayServers
    (∀ before, before <+: events → (start.after before).node.TableHolds) ↔
      ∀ before event, before ++ [event] <+: events →
        (start.after before).AnsweredAsAdvertised event := by
  intro start
  have hstart : start.node.TableHolds := MeshNode.tableHolds_of_empty rfl
  have hnext : ∀ {s : NodeRun F} {event : NodeEvent F},
      s.node.TableHolds → ((s.next event).node.TableHolds ↔ s.AnsweredAsAdvertised event) :=
    fun h => tableHolds_next_iff h _
  exact LabelledRun.exec_invariant_iff next @hnext hstart events

end NodeRun

/-! ## Lost peers -/

namespace MeshNode

variable [ReputationOps F]

/-- A peer that is neither the node itself nor banned, and not connected now. -/
structure Due (node : MeshNode F) (peer : Discovery.PeerInfo F) : Prop where
  notSelf : peer.nodeId ≠ node.localId
  notBanned : node.reputation.isBanned peer.nodeId = false
  notLive : ∀ entry, node.peers.lookup peer.nodeId.bytes = some entry → entry.2.isLive = false

/-- There is an entry under a key, and it is not connected. -/
def HasLost (node : MeshNode F) (key : List UInt8) : Prop :=
  ∃ entry, node.peers.lookup key = some entry ∧ entry.2.isLive = false

variable {node : MeshNode F} {peer : Discovery.PeerInfo F} {network : Network}

/-- A lost peer is due, unless it is the node itself or banned. -/
theorem due_of_hasLost (hself : peer.nodeId ≠ node.localId)
    (hbanned : node.reputation.isBanned peer.nodeId = false)
    (hlost : node.HasLost peer.nodeId.bytes) : node.Due peer := by
  obtain ⟨entry, hentry, hdead⟩ := hlost
  refine ⟨hself, hbanned, fun other hother => ?_⟩
  rw [hentry] at hother
  cases hother
  exact hdead

/-- A due peer is tried just if it is not lost. -/
theorem due_tries_iff (hdue : node.Due peer) :
    peer.addr ∈ (node.visit peer network).2 ↔ ¬ node.HasLost peer.nodeId.bytes := by
  rw [addr_mem_visit_iff]
  constructor
  · rintro htries ⟨entry, hentry, -⟩
    rw [htries.noEntry] at hentry
    cases hentry
  · intro hnone
    refine ⟨hdue.notSelf, ?_, hdue.notBanned⟩
    cases hentry : node.peers.lookup peer.nodeId.bytes with
    | none => rfl
    | some entry => exact absurd ⟨entry, hentry, hdue.notLive entry hentry⟩ hnone

/-- A lost peer is not tried. -/
theorem visit_of_hasLost (hlost : node.HasLost peer.nodeId.bytes) :
    node.visit peer network = (node, []) := by
  refine visit_of_not_tries fun htries => ?_
  obtain ⟨entry, hentry, -⟩ := hlost
  rw [htries.noEntry] at hentry
  cases hentry

omit [ReputationOps F] in
theorem HasLost.sameTable {other : MeshNode F} {key : List UInt8} (h : node.HasLost key)
    (hsame : SameTable node other) : other.HasLost key := by
  rw [HasLost, hsame.peers]
  exact h

omit [ReputationOps F] in
theorem HasLost.markDisconnected {key : List UInt8} (h : node.HasLost key) (marked : List UInt8) :
    (node.markDisconnected marked).HasLost key := by
  rw [MeshNode.markDisconnected]
  split
  · next info state _ =>
      by_cases hkey : key = marked
      · subst hkey
        exact ⟨(info, .disconnected), AList.lookup_insert _, rfl⟩
      · obtain ⟨entry, hentry, hdead⟩ := h
        exact ⟨entry, (AList.lookup_insert_ne hkey).trans hentry, hdead⟩
  · exact h

omit [ReputationOps F] in
theorem mem_markDisconnected {key : List UInt8} (h : key ∈ node.peers) (marked : List UInt8) :
    key ∈ (node.markDisconnected marked).peers := by
  rw [MeshNode.markDisconnected]
  split
  · exact AList.mem_insert _ |>.mpr (.inr h)
  · exact h

omit [ReputationOps F] in
/-- The peer under a key that is marked is lost. -/
theorem hasLost_markDisconnected {key : List UInt8} (h : key ∈ node.peers) :
    (node.markDisconnected key).HasLost key := by
  rw [MeshNode.markDisconnected]
  split
  · next info state _ => exact ⟨(info, .disconnected), AList.lookup_insert _, rfl⟩
  · next hnone => exact absurd h (AList.lookup_eq_none.mp hnone)

omit [ReputationOps F] in
/-- When nobody can be reached, a health check loses every peer that was connected. -/
theorem hasLost_checkPeerHealth {key : List UInt8} {info : Discovery.PeerInfo F}
    {state : PeerState} (hentry : node.peers.lookup key = some (info, state))
    (hlive : state.isLive = true) (hkey : key = info.nodeId.bytes) :
    (node.checkPeerHealth fun _ => false).HasLost key := by
  have hpinged : info.nodeId ∈
      (node.peers.pairs.filter fun e => e.2.2.isLive).map fun e => e.2.1.nodeId := by
    refine List.mem_map.mpr ⟨(key, info, state), List.mem_filter.mpr ⟨?_, hlive⟩, rfl⟩
    refine List.mem_map.mpr ⟨⟨key, info, state⟩, List.mem_reverse.mpr ?_, rfl⟩
    exact AList.mem_lookup_iff.mp hentry
  obtain ⟨i, hi, hget⟩ := List.mem_iff_getElem.mp hpinged
  have hping : (info.nodeId, i) ∈
      ((node.peers.pairs.filter fun e => e.2.2.isLive).map fun e => e.2.1.nodeId).zipIdx :=
    List.mem_zipIdx_iff_getElem?.mpr (hget ▸ List.getElem?_eq_getElem hi)
  obtain ⟨before, after, hsplit⟩ := List.append_of_mem hping
  rw [checkPeerHealth, hsplit]
  simp only [List.foldl_append, List.foldl_cons, Bool.false_eq_true, if_false, ← hkey]
  refine List.foldlRecOn after _ (motive := fun node : MeshNode F => node.HasLost key)
    (hasLost_markDisconnected ?_) fun _ h _ _ => h.markDisconnected _
  refine List.foldlRecOn before _ (motive := fun node : MeshNode F => key ∈ node.peers) ?_
    fun _ h _ _ => mem_markDisconnected h _
  exact AList.lookup_isSome.mp (hentry ▸ rfl)

/-- A visit leaves a lost peer lost, unless it is this peer that answers another's address. -/
theorem HasLost.visit {key : List UInt8} (h : node.HasLost key)
    (hanswer : node.Tries peer → ∀ id, node.answerer peer network = some id → id = peer.nodeId) :
    (node.visit peer network).1.HasLost key := by
  by_cases htries : node.Tries peer
  · obtain ⟨addrs, hvisit⟩ := visit_of_tries htries network
    rw [hvisit]
    cases hid : node.answerer peer network with
    | none => exact h
    | some id =>
        obtain ⟨entry, hentry, hdead⟩ := h
        have hkey : key ≠ id.bytes := by
          rintro rfl
          rw [hanswer htries id hid, htries.noEntry] at hentry
          cases hentry
        exact ⟨entry, (AList.lookup_insert_ne hkey).trans hentry, hdead⟩
  · rw [visit_of_not_tries htries]
    exact h

end MeshNode

namespace NodeRun

variable [ReputationOps F]

/-- A visit tries to connect to its peer, if that is due. -/
def Retries (s : NodeRun F) : NodeEvent F → Prop
  | .visit network =>
      match s.pending with
      | [] => True
      | peer :: _ => s.node.Due peer → peer.addr ∈ (s.node.visit peer network).2
  | _ => True

/-- The peer of a visit is the node itself, banned, or not lost. -/
def NoneLost (s : NodeRun F) : NodeEvent F → Prop
  | .visit _ =>
      match s.pending with
      | [] => True
      | peer :: _ => peer.nodeId ≠ s.node.localId →
          s.node.reputation.isBanned peer.nodeId = false → ¬ s.node.HasLost peer.nodeId.bytes
  | _ => True

theorem retries_iff_noneLost (s : NodeRun F) (event : NodeEvent F) :
    s.Retries event ↔ s.NoneLost event := by
  cases event with
  | visit network =>
      rw [Retries, NoneLost]
      cases s.pending with
      | nil => exact Iff.rfl
      | cons peer rest =>
          constructor
          · intro hretries hself hbanned hlost
            have hdue : s.node.Due peer := MeshNode.due_of_hasLost hself hbanned hlost
            exact (MeshNode.due_tries_iff hdue).mp (hretries hdue) hlost
          · intro hnone hdue
            exact (MeshNode.due_tries_iff hdue).mpr (hnone hdue.notSelf hdue.notBanned)
  | _ => exact Iff.rfl

/-- **When lost peers are retried.** Throughout a run every visit tries to connect to its peer, if
that is due, just if no visit is to a peer that is lost. -/
theorem lost_peers_retried_iff (s : NodeRun F) (events : List (NodeEvent F)) :
    (∀ before event, before ++ [event] <+: events → (s.after before).Retries event) ↔
      ∀ before event, before ++ [event] <+: events → (s.after before).NoneLost event := by
  constructor
  · intro h before event hpart
    exact (retries_iff_noneLost _ event).mp (h before event hpart)
  · intro h before event hpart
    exact (retries_iff_noneLost _ event).mpr (h before event hpart)

variable {s : NodeRun F} {peer : Discovery.PeerInfo F}

theorem hasLost_next {key : List UInt8} (h : s.node.HasLost key) {event : NodeEvent F}
    (hevent : event ≠ .stop ∧ s.AnsweredAsAdvertised event) :
    (s.next event).node.HasLost key := by
  obtain ⟨hstop, hanswer⟩ := hevent
  rcases s.next_table event with ⟨-, hsame⟩ | ⟨rfl, -⟩ |
    ⟨network, peer, rest, rfl, hpending, hnode⟩ | ⟨reachable, rfl, hnode⟩
  · exact h.sameTable hsame
  · exact absurd rfl hstop
  · rw [hnode]
    rw [AnsweredAsAdvertised, hpending] at hanswer
    exact h.visit hanswer
  · rw [hnode]
    exact s.node.checkPeerHealth_induction (P := fun node => node.HasLost key)
      (fun marked hnode => hnode.markDisconnected marked) h reachable

/-- **A lost peer is never tried again**, until the node stops, as long as nobody answers in
another's place. -/
theorem lost_peer_never_retried (h : s.node.HasLost peer.nodeId.bytes)
    {events : List (NodeEvent F)}
    (hevents : ∀ before event, before ++ [event] <+: events →
      event ≠ .stop ∧ (s.after before).AnsweredAsAdvertised event) (network : Network) :
    ((s.after events).node.visit peer network).2 = [] := by
  have hnext : ∀ {s : NodeRun F} {event : NodeEvent F}, s.node.HasLost peer.nodeId.bytes →
      event ≠ .stop ∧ s.AnsweredAsAdvertised event → (s.next event).node.HasLost peer.nodeId.bytes :=
    fun h hevent => hasLost_next h hevent
  have hlost : (s.after events).node.HasLost peer.nodeId.bytes :=
    LabelledRun.exec_invariant next @hnext h hevents
  rw [MeshNode.visit_of_hasLost hlost]

end NodeRun

/-! ## A peer that is lost, and one that answers for another -/

theorem ReputationManager.isBanned_nobody (nodeId : NodeId) :
    (⟨∅, none⟩ : ReputationManager ℝ).isBanned nodeId = false := by
  rw [isBanned, score, record, AList.lookup_empty]
  apply decide_eq_false
  norm_num [banThreshold, FloatOps.literal]

/-- A node on its own, for concrete examples. -/
def NodeRun.alone : NodeRun ℝ := .fresh (.ofByte 1) ⟨∅, none⟩ []

/-- Another node, at the address that it advertises. -/
def secondPeer : Discovery.PeerInfo ℝ := .plain 0 (.ofByte 2)

/-- A network where one node answers at the advertised address. -/
def Network.answering (id : NodeId) : Network := ⟨some id, none, none, none, false, none, none⟩

theorem tries_secondPeer : NodeRun.alone.node.Tries secondPeer :=
  ⟨by decide, rfl, ReputationManager.isBanned_nobody _⟩

/-- A peer is connected to, and then lost. The next pass does not try it. -/
theorem lost_peer_is_skipped :
    let s := NodeRun.alone.after [.discover (.ok [secondPeer]),
      .visit (.answering secondPeer.nodeId), .checkPeerHealth fun _ => false,
      .discover (.ok [secondPeer])]
    s.pending = [secondPeer] ∧ s.node.Due secondPeer ∧
      (s.node.visit secondPeer (.answering secondPeer.nodeId)).2 = [] := by
  intro s
  obtain ⟨addrs, hvisit⟩ :=
    MeshNode.visit_of_tries tries_secondPeer (.answering secondPeer.nodeId)
  let connected : MeshNode ℝ := { NodeRun.alone.node with
    peers := NodeRun.alone.node.peers.insert secondPeer.nodeId.bytes (secondPeer, .connected) }
  have hconnected : (NodeRun.alone.node.visit secondPeer
      (.answering secondPeer.nodeId)).1 = connected := by
    rw [hvisit]
    rfl
  have hnode : s.node = connected.checkPeerHealth fun _ => false := by
    rw [← hconnected]
    rfl
  have hlost : s.node.HasLost secondPeer.nodeId.bytes := by
    rw [hnode]
    exact MeshNode.hasLost_checkPeerHealth (AList.lookup_insert _) rfl rfl
  obtain ⟨peers, hkept⟩ := connected.checkPeerHealth_eq fun _ => false
  rw [← hnode] at hkept
  have hself : secondPeer.nodeId ≠ s.node.localId := by
    rw [hkept]
    exact tries_secondPeer.notSelf
  have hbanned : s.node.reputation.isBanned secondPeer.nodeId = false := by
    rw [hkept]
    exact tries_secondPeer.notBanned
  exact ⟨rfl, MeshNode.due_of_hasLost hself hbanned hlost, by rw [MeshNode.visit_of_hasLost hlost]⟩

/-- A peer is advertised, and another node answers at its address. -/
theorem other_node_answers :
    ¬ (NodeRun.alone.after [.discover (.ok [secondPeer]),
      .visit (.answering (.ofByte 3))]).node.TableHolds := by
  intro h
  have halone : NodeRun.alone.node.TableHolds := MeshNode.tableHolds_of_empty rfl
  have hid := (MeshNode.tableHolds_visit_iff halone secondPeer (.answering (.ofByte 3))).mp h
    tries_secondPeer (.ofByte 3) rfl
  exact absurd hid (by decide)

end HiveBear.Mesh
