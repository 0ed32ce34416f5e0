/-
# Who can send

A node finds the connections that it has dialled itself. Where a node listens, the task that
accepts puts a connection into a map of its own, so a node that has been dialled cannot answer on
this connection: to send, it has to dial as well.
-/

import HiveBear.Mesh.Transport.Delivery

namespace HiveBear.Mesh

open LabelledRun

namespace TransportNetwork

theorem nodes_setNode (net : TransportNetwork) (node : NodeId) (transport : QuicTransport)
    (other : NodeId) :
    (net.setNode node transport).nodes other =
      if other = node then transport else net.nodes other := by
  show Function.update net.nodes node transport other = _
  by_cases h : other = node
  · subst h
    rw [Function.update_self, if_pos rfl]
  · rw [Function.update_of_ne h, if_neg h]

/-- What a change of one node keeps. -/
theorem kept_setNode {α : Type} (kept : QuicTransport → α) {net : TransportNetwork} {node : NodeId}
    {transport : QuicTransport} (h : kept transport = kept (net.nodes node)) (other : NodeId) :
    kept ((net.setNode node transport).nodes other) = kept (net.nodes other) := by
  rw [nodes_setNode]
  split
  · rename_i hother
    rw [hother, h]
  · rfl

theorem nodes_send (net : TransportNetwork) (node peer : NodeId) (msg : WireMessage) :
    (net.send node peer msg).nodes = net.nodes := by
  rw [send]
  split <;> rfl

theorem nodes_ends (net : TransportNetwork) (handle : Handle) (index written : ℕ) :
    (net.ends handle index written).nodes = net.nodes := by
  rw [ends]
  split <;> rfl

/-- What a message in the inbox leaves alone, a reader does too. -/
theorem kept_read {α : Type} (kept : QuicTransport → α)
    (hpush : ∀ transport arrival, kept (transport.push arrival) = kept transport)
    (net : TransportNetwork) (handle : Handle) (node : NodeId) :
    kept ((net.read handle).nodes node) = kept (net.nodes node) := by
  rw [read]
  split
  · rfl
  · split
    · rfl
    · dsimp only
      split
      · rfl
      · exact kept_setNode kept (hpush _ _) node

/-- A dial that succeeds. -/
def Answers (net : TransportNetwork) (caller peer : NodeId)
    (hardware : Discovery.HardwareProfile UInt64) : Prop :=
  (net.nodes peer).listening ≠ none ∧ HelloFits caller hardware

theorem connect_of_answers {net : TransportNetwork} {caller peer : NodeId}
    {hardware : Discovery.HardwareProfile UInt64} (h : net.Answers caller peer hardware) :
    net.connect caller peer hardware = (net.setNode peer ((net.nodes peer).accept caller
      ⟨net.connections.length, .acceptor⟩)).dial caller peer peer := by
  obtain ⟨copy, hcopy⟩ := Option.ne_none_iff_exists'.mp h.1
  rw [connect, handshake_of_fits h.2, hcopy]

theorem connect_of_not_answers {net : TransportNetwork} {caller peer : NodeId}
    {hardware : Discovery.HardwareProfile UInt64} (h : ¬ net.Answers caller peer hardware) :
    net.connect caller peer hardware = net := by
  rw [connect]
  cases hlistening : (net.nodes peer).listening with
  | none => rfl
  | some copy =>
      have hfits : ¬ HelloFits caller hardware := fun hfits =>
        h ⟨hlistening ▸ Option.some_ne_none copy, hfits⟩
      rw [handshake_of_not_fits hfits]

theorem nodes_dial (net : TransportNetwork) (caller peer peerId node : NodeId) :
    (net.dial caller peer peerId).nodes node =
      if node = caller then (net.nodes caller).insert peerId ⟨net.connections.length, .dialler⟩
      else net.nodes node :=
  nodes_setNode net caller _ node

/-- The connections that a node keeps behind a dial that succeeds. -/
theorem connections_connect {net : TransportNetwork} {caller dialled : NodeId}
    {hardware : Discovery.HardwareProfile UInt64} (h : net.Answers caller dialled hardware)
    (node peer : NodeId) :
    ((net.connect caller dialled hardware).nodes node).connections peer =
      if node = caller ∧ peer = dialled then some ⟨net.connections.length, .dialler⟩
      else (net.nodes node).connections peer := by
  have haccept : ∀ other, ((net.setNode dialled ((net.nodes dialled).accept caller
      ⟨net.connections.length, .acceptor⟩)).nodes other).connections =
      (net.nodes other).connections :=
    kept_setNode QuicTransport.connections rfl
  rw [connect_of_answers h, nodes_dial]
  by_cases hnode : node = caller
  · subst hnode
    rw [if_pos rfl]
    show Function.update _ dialled _ peer = _
    rw [haccept]
    by_cases hpeer : peer = dialled
    · subst hpeer
      rw [Function.update_self, if_pos ⟨rfl, rfl⟩]
      rfl
    · rw [Function.update_of_ne hpeer, if_neg fun hpair => hpeer hpair.2]
  · rw [if_neg hnode, if_neg fun hpair => hnode hpair.1, haccept]

/-- The connections that a node keeps behind a disconnect. -/
theorem connections_disconnect (net : TransportNetwork) (other removed node peer : NodeId) :
    ((net.disconnect other removed).nodes node).connections peer =
      if node = other ∧ peer = removed then none else (net.nodes node).connections peer := by
  rw [disconnect]
  cases hhandle : (net.nodes other).connections removed with
  | none =>
      dsimp only
      split
      · rename_i hpair
        rw [hpair.1, hpair.2]
        exact hhandle
      · rfl
  | some handle =>
      have hremoved : ((net.setNode other ((net.nodes other).remove removed)).nodes
          node).connections peer =
          if node = other ∧ peer = removed then none else (net.nodes node).connections peer := by
        rw [nodes_setNode]
        by_cases hnode : node = other
        · subst hnode
          rw [if_pos rfl]
          show Function.update (net.nodes node).connections removed none peer = _
          by_cases hpeer : peer = removed
          · subst hpeer
            rw [Function.update_self, if_pos ⟨rfl, rfl⟩]
          · rw [Function.update_of_ne hpeer, if_neg fun hpair => hpeer hpair.2]
        · rw [if_neg hnode, if_neg fun hpair => hnode hpair.1]
      dsimp only
      split <;> exact hremoved

/-- Only a dial gives a node a connection, and only a disconnect takes it away. -/
theorem connections_next (net : TransportNetwork) (event : TransportEvent) (node peer : NodeId) :
    ((net.next event).nodes node).connections peer ≠ none ↔
      (∃ hardware, event = .connect node peer hardware ∧ net.Answers node peer hardware) ∨
        (net.nodes node).connections peer ≠ none ∧ event ≠ .disconnect node peer := by
  have hsame : ((net.next event).nodes node).connections peer = (net.nodes node).connections peer →
      (∀ hardware, event = .connect node peer hardware → ¬ net.Answers node peer hardware) →
      event ≠ .disconnect node peer →
      (((net.next event).nodes node).connections peer ≠ none ↔
        (∃ hardware, event = .connect node peer hardware ∧ net.Answers node peer hardware) ∨
          (net.nodes node).connections peer ≠ none ∧ event ≠ .disconnect node peer) := by
    intro hkept hconnect hdisconnect
    rw [hkept]
    constructor
    · exact fun h => Or.inr ⟨h, hdisconnect⟩
    · rintro (⟨hardware, hevent, hanswers⟩ | ⟨h, -⟩)
      · exact absurd hanswers (hconnect hardware hevent)
      · exact h
  cases event with
  | listen other =>
      refine hsame ?_ (fun _ h => by cases h) (fun h => by cases h)
      exact kept_setNode (fun transport => transport.connections peer) (by rfl) node
  | send other peer' msg =>
      refine hsame ?_ (fun _ h => by cases h) (fun h => by cases h)
      show ((net.send other peer' msg).nodes node).connections peer = _
      rw [nodes_send]
  | ends handle index written =>
      refine hsame ?_ (fun _ h => by cases h) (fun h => by cases h)
      show ((net.ends handle index written).nodes node).connections peer = _
      rw [nodes_ends]
  | read handle =>
      refine hsame ?_ (fun _ h => by cases h) (fun h => by cases h)
      exact kept_read (fun transport => transport.connections peer) (fun _ _ => rfl) net handle node
  | recv other =>
      refine hsame ?_ (fun _ h => by cases h) (fun h => by cases h)
      refine kept_setNode (fun transport => transport.connections peer) ?_ node
      rw [QuicTransport.recv]
      split <;> rfl
  | connect caller dialled hardware =>
      by_cases hanswers : net.Answers caller dialled hardware
      · have hview := connections_connect hanswers node peer
        by_cases hpair : node = caller ∧ peer = dialled
        · obtain ⟨rfl, rfl⟩ := hpair
          refine iff_of_true ?_ (Or.inl ⟨hardware, rfl, hanswers⟩)
          show ((net.connect node peer hardware).nodes node).connections peer ≠ none
          rw [hview, if_pos ⟨rfl, rfl⟩]
          exact Option.some_ne_none _
        · refine hsame (hview.trans (if_neg hpair)) ?_ (fun h => by cases h)
          intro _ hevent
          cases hevent
          exact absurd ⟨rfl, rfl⟩ hpair
      · refine hsame ?_ ?_ (fun h => by cases h)
        · show ((net.connect caller dialled hardware).nodes node).connections peer = _
          rw [connect_of_not_answers hanswers]
        · intro _ hevent
          cases hevent
          exact hanswers
  | disconnect other removed =>
      have hview := connections_disconnect net other removed node peer
      by_cases hpair : node = other ∧ peer = removed
      · obtain ⟨rfl, rfl⟩ := hpair
        refine iff_of_false (fun h => h (hview.trans (if_pos ⟨rfl, rfl⟩))) ?_
        rintro (⟨_, hevent, -⟩ | ⟨-, hevent⟩)
        · cases hevent
        · exact hevent rfl
      · refine hsame (hview.trans (if_neg hpair)) (fun _ h => by cases h) ?_
        intro hevent
        cases hevent
        exact hpair ⟨rfl, rfl⟩

/-- Who listens goes on listening. -/
theorem listening_next (net : TransportNetwork) (event : TransportEvent) (node : NodeId) :
    ((net.next event).nodes node).listening ≠ none ↔
      (net.nodes node).listening ≠ none ∨ event = .listen node := by
  have hsame : ((net.next event).nodes node).listening = (net.nodes node).listening →
      event ≠ .listen node →
      (((net.next event).nodes node).listening ≠ none ↔
        (net.nodes node).listening ≠ none ∨ event = .listen node) := by
    intro hkept hevent
    rw [hkept]
    exact (or_iff_left hevent).symm
  cases event with
  | listen other =>
      by_cases hnode : node = other
      · subst hnode
        refine iff_of_true ?_ (Or.inr rfl)
        show ((net.setNode node (net.nodes node).listen).nodes node).listening ≠ none
        rw [nodes_setNode, if_pos rfl]
        exact Option.some_ne_none _
      · refine hsame ?_ ?_
        · show ((net.setNode other (net.nodes other).listen).nodes node).listening = _
          rw [nodes_setNode, if_neg hnode]
        · intro hevent
          cases hevent
          exact hnode rfl
  | send other peer' msg =>
      refine hsame ?_ (fun h => by cases h)
      show ((net.send other peer' msg).nodes node).listening = _
      rw [nodes_send]
  | ends handle index written =>
      refine hsame ?_ (fun h => by cases h)
      show ((net.ends handle index written).nodes node).listening = _
      rw [nodes_ends]
  | read handle =>
      refine hsame ?_ (fun h => by cases h)
      exact kept_read QuicTransport.listening (fun _ _ => rfl) net handle node
  | recv other =>
      refine hsame (kept_setNode QuicTransport.listening ?_ node) (fun h => by cases h)
      rw [QuicTransport.recv]
      split <;> rfl
  | connect caller dialled hardware =>
      refine hsame ?_ (fun h => by cases h)
      show ((net.connect caller dialled hardware).nodes node).listening = _
      by_cases hanswers : net.Answers caller dialled hardware
      · rw [connect_of_answers hanswers]
        refine Eq.trans (kept_setNode QuicTransport.listening (by rfl) node) ?_
        exact kept_setNode QuicTransport.listening (by rfl) node
      · rw [connect_of_not_answers hanswers]
  | disconnect other removed =>
      refine hsame ?_ (fun h => by cases h)
      show ((net.disconnect other removed).nodes node).listening = _
      rw [disconnect]
      split
      · rfl
      · dsimp only
        split <;> exact kept_setNode QuicTransport.listening (by rfl) node

/-- A changed connection is between the same nodes. -/
theorem mem_setConnection {net : TransportNetwork} {index : ℕ} {old conn found : Connection}
    (hold : net.connections[index]? = some old)
    (hmem : found ∈ (net.setConnection index conn).connections)
    (hdialler : conn.dialler = old.dialler) (hacceptor : conn.acceptor = old.acceptor) :
    ∃ old ∈ net.connections, old.dialler = found.dialler ∧ old.acceptor = found.acceptor := by
  rcases List.mem_or_eq_of_mem_set hmem with hkept | rfl
  · exact ⟨found, hkept, rfl, rfl⟩
  · exact ⟨old, List.mem_of_getElem? hold, hdialler.symm, hacceptor.symm⟩

/-- Connections come from dials. -/
theorem mem_connections_next {net : TransportNetwork} {event : TransportEvent} {conn : Connection}
    (hmem : conn ∈ (net.next event).connections) :
    (∃ old ∈ net.connections, old.dialler = conn.dialler ∧ old.acceptor = conn.acceptor) ∨
      ∃ hardware, event = .connect conn.dialler conn.acceptor hardware ∧
        net.Answers conn.dialler conn.acceptor hardware := by
  have hold : conn ∈ net.connections →
      ∃ old ∈ net.connections, old.dialler = conn.dialler ∧ old.acceptor = conn.acceptor :=
    fun hkept => ⟨conn, hkept, rfl, rfl⟩
  cases event with
  | listen node => exact Or.inl (hold hmem)
  | recv node => exact Or.inl (hold hmem)
  | connect caller peer hardware =>
      replace hmem : conn ∈ (net.connect caller peer hardware).connections := hmem
      by_cases hanswers : net.Answers caller peer hardware
      · rw [connect_of_answers hanswers] at hmem
        rcases List.mem_append.mp hmem with hkept | hnew
        · exact Or.inl (hold hkept)
        · obtain rfl := List.mem_singleton.mp hnew
          exact Or.inr ⟨hardware, rfl, hanswers⟩
      · rw [connect_of_not_answers hanswers] at hmem
        exact Or.inl (hold hmem)
  | send node peer msg =>
      replace hmem : conn ∈ (net.send node peer msg).connections := hmem
      rw [send] at hmem
      cases hsend : net.sendTo node peer msg with
      | error e =>
          rw [hsend] at hmem
          exact Or.inl (hold hmem)
      | ok result =>
          obtain ⟨handle, found, data⟩ := result
          rw [hsend] at hmem
          obtain ⟨-, -, hfound, -⟩ := of_sendTo hsend
          exact Or.inl (mem_setConnection hfound hmem rfl rfl)
  | ends handle index written =>
      replace hmem : conn ∈ (net.ends handle index written).connections := hmem
      rw [ends] at hmem
      cases hfound : net.connections[handle.conn]? with
      | none =>
          rw [hfound] at hmem
          exact Or.inl (hold hmem)
      | some found =>
          rw [hfound] at hmem
          exact Or.inl (mem_setConnection hfound hmem rfl rfl)
  | read handle =>
      replace hmem : conn ∈ (net.read handle).connections := hmem
      rw [read] at hmem
      cases hfound : net.connections[handle.conn]? with
      | none =>
          rw [hfound] at hmem
          exact Or.inl (hold hmem)
      | some found =>
          simp only [hfound] at hmem
          split at hmem
          · exact Or.inl (hold hmem)
          · split at hmem <;> exact Or.inl (mem_setConnection hfound hmem rfl rfl)
  | disconnect node peer =>
      replace hmem : conn ∈ (net.disconnect node peer).connections := hmem
      rw [disconnect] at hmem
      cases hhandle : (net.nodes node).connections peer with
      | none =>
          rw [hhandle] at hmem
          exact Or.inl (hold hmem)
      | some handle =>
          simp only [hhandle] at hmem
          cases hfound : net.connections[handle.conn]? with
          | none =>
              simp only [hfound] at hmem
              exact Or.inl (hold hmem)
          | some found =>
              simp only [hfound] at hmem
              exact Or.inl (mem_setConnection hfound hmem rfl rfl)

end TransportNetwork

/-! ### Over whole runs -/

/-- The last event is a dial that succeeds. -/
def DialsNow (events : List TransportEvent) (last : TransportEvent) (caller peer : NodeId) : Prop :=
  ∃ hardware, last = .connect caller peer hardware ∧ .listen peer ∈ events ∧
    HelloFits caller hardware

/-- A node has dialled a peer that was listening. -/
def Dialled (events : List TransportEvent) (caller peer : NodeId) : Prop :=
  ∃ before last later, events = before ++ last :: later ∧ DialsNow before last caller peer

/-- It has, and has not disconnected since. -/
def Reaches (events : List TransportEvent) (caller peer : NodeId) : Prop :=
  ∃ before last later, events = before ++ last :: later ∧ DialsNow before last caller peer ∧
    .disconnect caller peer ∉ later

theorem dialled_snoc {events : List TransportEvent} {last : TransportEvent} {caller peer : NodeId} :
    Dialled (events ++ [last]) caller peer ↔
      DialsNow events last caller peer ∨ Dialled events caller peer := by
  constructor
  · rintro ⟨before, dial, later, hsplit, hdials⟩
    rcases List.eq_nil_or_concat later with rfl | ⟨rest, other, rfl⟩
    · obtain ⟨rfl, rfl⟩ := List.append_singleton_inj.mp hsplit
      exact Or.inl hdials
    · rw [List.concat_eq_append, ← List.cons_append, ← List.append_assoc] at hsplit
      obtain ⟨rfl, -⟩ := List.append_singleton_inj.mp hsplit
      exact Or.inr ⟨before, dial, rest, rfl, hdials⟩
  · rintro (hdials | ⟨before, dial, later, rfl, hdials⟩)
    · exact ⟨events, last, [], rfl, hdials⟩
    · exact ⟨before, dial, later ++ [last], by simp, hdials⟩

theorem reaches_snoc {events : List TransportEvent} {last : TransportEvent} {caller peer : NodeId} :
    Reaches (events ++ [last]) caller peer ↔
      DialsNow events last caller peer ∨
        Reaches events caller peer ∧ last ≠ .disconnect caller peer := by
  constructor
  · rintro ⟨before, dial, later, hsplit, hdials, hkept⟩
    rcases List.eq_nil_or_concat later with rfl | ⟨rest, other, rfl⟩
    · obtain ⟨rfl, rfl⟩ := List.append_singleton_inj.mp hsplit
      exact Or.inl hdials
    · rw [List.concat_eq_append] at hsplit hkept
      rw [← List.cons_append, ← List.append_assoc] at hsplit
      obtain ⟨rfl, rfl⟩ := List.append_singleton_inj.mp hsplit
      refine Or.inr ⟨⟨before, dial, rest, rfl, hdials, ?_⟩, ?_⟩
      · exact fun hmem => hkept (List.mem_append_left _ hmem)
      · rintro rfl
        exact hkept (List.mem_append_right _ List.mem_cons_self)
  · rintro (hdials | ⟨⟨before, dial, later, rfl, hdials, hkept⟩, hlast⟩)
    · exact ⟨events, last, [], rfl, hdials, List.not_mem_nil⟩
    · refine ⟨before, dial, later ++ [last], by simp, hdials, ?_⟩
      rw [List.mem_append, List.mem_singleton]
      rintro (hmem | rfl)
      · exact hkept hmem
      · exact hlast rfl

namespace TransportNetwork

theorem after_snoc (events : List TransportEvent) (last : TransportEvent) :
    after (events ++ [last]) = (after events).next last :=
  exec_snoc next TransportNetwork.fresh events last

theorem listening_after (events : List TransportEvent) (node : NodeId) :
    ((after events).nodes node).listening ≠ none ↔ .listen node ∈ events := by
  induction events using List.reverseRecOn with
  | nil => exact iff_of_false (fun h => h rfl) List.not_mem_nil
  | append_singleton events last ih =>
      rw [after_snoc, listening_next, ih, List.mem_append, List.mem_singleton,
        @eq_comm _ last]

theorem dialsNow_iff {events : List TransportEvent} {last : TransportEvent} {caller peer : NodeId} :
    DialsNow events last caller peer ↔
      ∃ hardware, last = .connect caller peer hardware ∧
        (after events).Answers caller peer hardware := by
  simp only [DialsNow, Answers, listening_after]

/-- A node has a connection to whom it has dialled. -/
theorem connections_after (events : List TransportEvent) (node peer : NodeId) :
    ((after events).nodes node).connections peer ≠ none ↔ Reaches events node peer := by
  induction events using List.reverseRecOn with
  | nil =>
      refine iff_of_false (fun h => h rfl) ?_
      rintro ⟨before, last, later, hsplit, -⟩
      simp at hsplit
  | append_singleton events last ih =>
      rw [after_snoc, connections_next, reaches_snoc, dialsNow_iff, ih]

theorem dialled_of_mem {events : List TransportEvent} {conn : Connection}
    (hmem : conn ∈ (after events).connections) : Dialled events conn.dialler conn.acceptor := by
  induction events using List.reverseRecOn generalizing conn with
  | nil => cases hmem
  | append_singleton events last ih =>
      rw [after_snoc] at hmem
      rw [dialled_snoc, dialsNow_iff]
      rcases mem_connections_next hmem with ⟨old, hold, hdialler, hacceptor⟩ | hdials
      · rw [← hdialler, ← hacceptor]
        exact Or.inr (ih hold)
      · exact Or.inl hdials

/-- A node that keeps no connection to a peer says that the peer is disconnected. -/
theorem sendTo_disconnected_iff (net : TransportNetwork) (node peer : NodeId) (msg : WireMessage) :
    net.sendTo node peer msg = .error (.peerDisconnected peer.shortId) ↔
      ¬ (net.nodes node).connections peer ≠ none := by
  rw [not_not, sendTo]
  cases hfound : (net.nodes node).connections peer with
  | none => exact iff_of_true rfl rfl
  | some handle =>
      refine iff_of_false ?_ (Option.some_ne_none handle)
      dsimp only
      split
      · exact fun h => by cases h
      · split
        · exact fun h => by cases h
        · split <;> exact fun h => by cases h

/-- What arrives has been sent by the end that has dialled. -/
theorem Sound.side_of_mem {net : TransportNetwork} (h : net.Sound) {node : NodeId}
    {arrival : Arrival} (hmem : arrival ∈ (net.nodes node).arrivals) :
    ∃ conn ∈ net.connections, conn.dialler = arrival.peer ∧ conn.acceptor = node := by
  have hover : arrival ∈ net.arrivedOver node arrival.handle :=
    List.mem_filter.mpr ⟨hmem, decide_eq_true rfl⟩
  obtain ⟨conn, hconn, hnode, hpeer, hmsg⟩ := h.of_mem_arrivedOver hover
  have hside : arrival.handle.side = .dialler := by
    cases hside : arrival.handle.side with
    | dialler => rfl
    | acceptor =>
        rw [hside, Connection.delivered, (h.connections hconn).silent, List.take_nil] at hmsg
        cases hmsg
  rw [hside] at hnode hpeer
  exact ⟨conn, List.mem_of_getElem? hconn, hpeer, hnode⟩

/-- **Only diallers send.** In every run a node can send to a peer just if it has dialled the peer
itself and not disconnected since; to have been dialled is not enough. So nothing arrives but from
peers that have dialled, and whoever only listens cannot answer. -/
theorem only_diallers_send (events : List TransportEvent) (node peer : NodeId) :
    (∀ msg, (after events).sendTo node peer msg = .error (.peerDisconnected peer.shortId) ↔
      ¬ Reaches events node peer) ∧
    ∀ arrival ∈ ((after events).nodes node).arrivals, Dialled events arrival.peer node := by
  constructor
  · intro msg
    rw [sendTo_disconnected_iff, connections_after]
  · intro arrival hmem
    obtain ⟨conn, hconn, hdialler, hacceptor⟩ := (Sound.after events).side_of_mem hmem
    rw [← hdialler, ← hacceptor]
    exact dialled_of_mem hconn

end TransportNetwork

end HiveBear.Mesh
