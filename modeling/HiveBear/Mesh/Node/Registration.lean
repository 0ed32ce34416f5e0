/-
# What it means to be registered

A node reports that it is registered when its discovery sources, taken together, have accepted
its latest registration or heartbeat. LAN discovery is one of them and accepts whatever the
coordination server says, and nothing is reported anew when the node is deregistered.

So the report is right throughout a run if and only if no registration is accepted by LAN
discovery alone, no node is deregistered while it reports to be registered, and no retried
registration that all refuse was overtaken by one that succeeded.
-/

import HiveBear.Mesh.Node.MeshNode

namespace HiveBear.Mesh

variable {F : Type}

/-! ## What the coordinator knows -/

/-- The coordinator accepted the latest registration or heartbeat, and the node has not been
deregistered since. -/
def KnownToCoordinator (exchanges : List Exchange) : Prop :=
  exchanges.getLast? = some (.registration true) ∨ exchanges.getLast? = some (.heartbeat true)

theorem knownToCoordinator_snoc {exchanges : List Exchange} {exchange : Exchange} :
    KnownToCoordinator (exchanges ++ [exchange]) ↔
      exchange = .registration true ∨ exchange = .heartbeat true := by
  rw [KnownToCoordinator, List.getLast?_concat, Option.some.injEq, Option.some.injEq]

namespace NodeRun

/-- A node that reports to be registered is known to the coordinator. -/
def FlagHolds (s : NodeRun F) : Prop :=
  s.node.isRegistered = true → KnownToCoordinator s.exchanges

/-- What an answer must not do. A registration that the coordinator refuses is refused by LAN
discovery too, and if a retry of one is refused, the node does not report to be registered
meanwhile. Nor does it when the coordinator removes it. -/
def AnswersAgree (s : NodeRun F) : NodeEvent F → Prop
  | .answer i coordinator lan =>
      match s.calls[i]? with
      | some (.registering caller) =>
          coordinator.isOk = true ∨
            lan.isOk = false ∧ (caller = .start ∨ s.node.isRegistered = false)
      | some .deregistering =>
          s.node.nodeInfo = none ∨ coordinator.isOk = false ∨ s.node.isRegistered = false
      | _ => True
  | _ => True

end NodeRun

/-! ## What leaves the report alone -/

namespace MeshNode

variable (node : MeshNode F)

theorem isRegistered_reregister : node.reregister.1.isRegistered = node.isRegistered := by
  rw [reregister]
  split <;> rfl

theorem isRegistered_start (stun : Option Discovery.SocketAddr) (listening : Bool)
    (info : Discovery.PeerInfo F) :
    (node.start stun listening info).1.isRegistered = node.isRegistered := by
  cases stun <;> cases listening <;> rfl

theorem isRegistered_maintainRegistration :
    node.maintainRegistration.1.isRegistered = node.isRegistered := by
  rw [maintainRegistration]
  split
  · rfl
  · exact node.isRegistered_reregister

variable [ReputationOps F]

theorem isRegistered_visit (peer : Discovery.PeerInfo F) (network : Network) :
    (node.visit peer network).1.isRegistered = node.isRegistered := by
  obtain ⟨peers, h⟩ := node.visit_eq peer network
  rw [h]
  rfl

omit [ReputationOps F] in
theorem isRegistered_checkPeerHealth (reachable : ℕ → Bool) :
    (node.checkPeerHealth reachable).isRegistered = node.isRegistered := by
  obtain ⟨peers, h⟩ := node.checkPeerHealth_eq reachable
  rw [h]
  rfl

end MeshNode

/-! ## What answers do -/

namespace MeshNode

/-- A node is registered as soon as one source accepts, and else stays what it was if it only
tried again. -/
theorem isRegistered_endRegistration (node : MeshNode F) (caller : Caller)
    (coordinator lan : Except String Unit) :
    (node.endRegistration caller coordinator lan).2.1.isRegistered =
      (coordinator.isOk || lan.isOk || (decide (caller = .maintenance) && node.isRegistered)) := by
  have hcomposite : (CompositeDiscovery.register [coordinator, lan]).isOk =
      (coordinator.isOk || lan.isOk) := by
    rw [CompositeDiscovery.isOk_register (List.cons_ne_nil _ _), List.any_cons, List.any_cons,
      List.any_nil, Bool.or_false]
  rw [← hcomposite]
  unfold endRegistration
  cases CompositeDiscovery.register [coordinator, lan] with
  | ok => rfl
  | error => cases caller <;> rfl

theorem fst_endRegistration (node : MeshNode F) (caller : Caller)
    (coordinator lan : Except String Unit) :
    (node.endRegistration caller coordinator lan).1 = some (.registration coordinator.isOk) := by
  unfold endRegistration
  cases CompositeDiscovery.register [coordinator, lan] with
  | ok => rfl
  | error => cases caller <;> rfl

end MeshNode

namespace NodeRun

variable {s : NodeRun F} (i : ℕ) (coordinator lan : Except String Unit)

/-- Answers to a registration keep the report right just if they agree. -/
theorem flagHolds_endRegistration_iff (caller : Caller) :
    (s.goOn i (s.node.endRegistration caller coordinator lan)).FlagHolds ↔
      coordinator.isOk = true ∨
        lan.isOk = false ∧ (caller = .start ∨ s.node.isRegistered = false) := by
  have hknown : KnownToCoordinator (s.exchanges ++ [.registration coordinator.isOk]) ↔
      coordinator.isOk = true := by
    rw [knownToCoordinator_snoc]
    simp
  rw [FlagHolds, goOn, MeshNode.isRegistered_endRegistration, MeshNode.fst_endRegistration]
  rw [Option.toList_some, hknown]
  cases coordinator.isOk <;> cases lan.isOk <;> cases caller <;> simp

/-- An answer to a heartbeat keeps the report right. -/
theorem flagHolds_endHeartbeat :
    (s.goOn i (s.node.endHeartbeat coordinator)).FlagHolds := by
  have hrefused : ∀ exchange : Option Exchange,
      (s.goOn i (exchange, { s.node with registered := false }.reregister)).FlagHolds := by
    intro exchange hflag
    rw [goOn, MeshNode.isRegistered_reregister] at hflag
    cases hflag
  unfold MeshNode.endHeartbeat
  split
  · exact hrefused none
  · cases coordinator with
    | ok => exact fun _ => knownToCoordinator_snoc.mpr (.inr rfl)
    | error => exact hrefused _

/-- An answer to a deregistration keeps the report right just if the node does not report to be
registered, or is not removed. -/
theorem flagHolds_endDeregistration_iff (h : s.FlagHolds) :
    (s.goOn i (s.node.endDeregistration coordinator)).FlagHolds ↔
      s.node.nodeInfo = none ∨ coordinator.isOk = false ∨ s.node.isRegistered = false := by
  have hkept : ∀ node : MeshNode F, node.isRegistered = s.node.isRegistered →
      (s.goOn i (none, node, .returned)).FlagHolds := by
    intro node hnode hflag
    rw [goOn, Option.toList_none, List.append_nil]
    exact h (hnode ▸ hflag)
  have hremoved : ¬ KnownToCoordinator (s.exchanges ++ [.deregistration]) := by
    rw [knownToCoordinator_snoc]
    simp
  unfold MeshNode.endDeregistration
  split
  · next hinfo => exact iff_of_true (hkept _ rfl) (.inl hinfo)
  · next info hinfo =>
      rw [hinfo]
      cases hok : coordinator.isOk with
      | false => exact iff_of_true (hkept _ rfl) (.inr (.inl rfl))
      | true =>
          constructor
          · intro hflag
            refine .inr (.inr (Bool.eq_false_iff.mpr fun hregistered => ?_))
            exact hremoved (hflag hregistered)
          · rintro (hnone | htrue | hunregistered) hflag
            · cases hnone
            · cases htrue
            · rw [show s.node.isRegistered = true from hflag] at hunregistered
              cases hunregistered

variable [ReputationOps F]

/-- Every event keeps the report right just if what answers it agrees. -/
theorem flagHolds_next_iff (h : s.FlagHolds) (event : NodeEvent F) :
    (s.next event).FlagHolds ↔ s.AnswersAgree event := by
  have hkept : ∀ t : NodeRun F, t.node.isRegistered = s.node.isRegistered →
      t.exchanges = s.exchanges → t.FlagHolds := by
    intro t hflag hexchanges
    rw [FlagHolds, hflag, hexchanges]
    exact h
  cases event with
  | start stun listening info =>
      exact iff_of_true (hkept _ (s.node.isRegistered_start stun listening info) rfl) trivial
  | maintainRegistration =>
      exact iff_of_true (hkept _ s.node.isRegistered_maintainRegistration rfl) trivial
  | stop => exact iff_of_true (hkept _ rfl rfl) trivial
  | answer i coordinator lan =>
      rw [next, answerCall, AnswersAgree]
      cases s.calls[i]? with
      | none => exact iff_of_true h trivial
      | some call =>
          cases call with
          | registering caller => exact flagHolds_endRegistration_iff i coordinator lan caller
          | beating => exact iff_of_true (flagHolds_endHeartbeat i coordinator) trivial
          | deregistering => exact flagHolds_endDeregistration_iff i coordinator h
          | returned => exact iff_of_true (hkept _ rfl (List.append_nil _)) trivial
  | discover found =>
      refine iff_of_true ?_ trivial
      rw [next]
      unfold beginPass
      split <;> exact h
  | visit network =>
      refine iff_of_true ?_ trivial
      rw [next, visitNext]
      split
      · exact h
      · exact hkept _ (s.node.isRegistered_visit _ network) rfl
  | checkPeerHealth reachable =>
      refine iff_of_true ?_ trivial
      rw [next, checkHealth]
      split
      · exact hkept _ (s.node.isRegistered_checkPeerHealth reachable) rfl
      · exact h

/-- **When a node that reports to be registered is known.** The report is right behind all events
of a run just if the answers to each of them agree. -/
theorem is_registered_means_known_iff (localId : NodeId) (reputation : ReputationManager F)
    (relayServers : List String) (events : List (NodeEvent F)) :
    let start := fresh localId reputation relayServers
    (∀ before, before <+: events → (start.after before).node.isRegistered = true →
        KnownToCoordinator (start.after before).exchanges) ↔
      ∀ before event, before ++ [event] <+: events → (start.after before).AnswersAgree event := by
  intro start
  have hstart : start.FlagHolds := fun h => Bool.noConfusion h
  have hnext : ∀ {s : NodeRun F} {event : NodeEvent F},
      s.FlagHolds → ((s.next event).FlagHolds ↔ s.AnswersAgree event) :=
    fun h => flagHolds_next_iff h _
  exact LabelledRun.exec_invariant_iff next hnext hstart events

/-- A node that only LAN discovery has accepted reports to be registered. -/
theorem lan_alone_registers :
    let start : NodeRun ℝ := fresh (.ofByte 1) ⟨∅, none⟩ []
    let s := start.after [.start none true (.plain 0 (.ofByte 1)),
      .answer 0 (.error "coordination server unreachable") (.ok ())]
    s.node.isRegistered = true ∧ ¬ KnownToCoordinator s.exchanges := by
  intro start s
  have hexchanges : s.exchanges = [] ++ [.registration false] := rfl
  refine ⟨rfl, ?_⟩
  rw [hexchanges, knownToCoordinator_snoc]
  simp

end NodeRun

end HiveBear.Mesh
