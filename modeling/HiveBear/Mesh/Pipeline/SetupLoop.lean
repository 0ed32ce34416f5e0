/-
# The initiator's setup

`setup` sends all assignments and then counts acknowledgements until there are as many
as the plan has peers. It does not look at who they come from, so it is a barrier that
counts: it may return while a peer is not ready, if another peer has acknowledged twice
or a peer outside the plan has acknowledged the session.
-/

import HiveBear.Library.CountingBarrier
import HiveBear.Mesh.Pipeline.Initiator

namespace HiveBear.Mesh

open CountingBarrier

/-- What setup does: the assignments it has sent, the messages it has received, and
what it returns unless it still waits. -/
structure SetupRun where
  sent : List Envelope
  received : List Envelope
  result : Option (Except MeshError Unit)

namespace PipelineInitiator

variable {F : Type*} (initiator : PipelineInitiator F)

/-- Send messages in order until one cannot be sent: those sent, and the error. -/
def sendInOrder (sendResult : ℕ → Except MeshError Unit) :
    ℕ → List Envelope → List Envelope × Except MeshError Unit
  | _, [] => ([], .ok ())
  | i, message :: rest =>
      match sendResult i with
      | .error e => ([], .error e)
      | .ok _ =>
          let later := sendInOrder sendResult (i + 1) rest
          (message :: later.1, later.2)

/-- The acknowledgement loop over what the transport delivers: the messages received,
and what setup returns. It waits when nothing more is delivered. -/
def ackLoop : ℕ → List (Except MeshError Envelope) →
    List Envelope × Option (Except MeshError Unit)
  | acksReceived, [] =>
      ([], if acksReceived < initiator.plan.peerCount then none else some (.ok ()))
  | acksReceived, delivered :: rest =>
      if acksReceived < initiator.plan.peerCount then
        match delivered with
        | .error e => ([], some (.error e))
        | .ok envelope =>
            match initiator.setupReceive acksReceived envelope with
            | .error e => ([envelope], some (.error e))
            | .ok acksReceived =>
                let later := ackLoop acksReceived rest
                (envelope :: later.1, later.2)
      else ([], some (.ok ()))

/-- Set up the pipeline. `sendResult i` says whether the `i`-th assignment can be sent. -/
def setup (modelSource : String) (sendResult : ℕ → Except MeshError Unit)
    (delivered : List (Except MeshError Envelope)) : SetupRun :=
  let assigned := sendInOrder sendResult 0 (initiator.setupMessages modelSource)
  match assigned.2 with
  | .error e => ⟨assigned.1, [], some (.error e)⟩
  | .ok _ =>
      let acknowledged := initiator.ackLoop 0 delivered
      ⟨assigned.1, acknowledged.1, acknowledged.2⟩

/-- The message is an acknowledgement of this session that says the peer is ready. -/
def isReadyAck (envelope : Envelope) : Bool :=
  match envelope.2 with
  | .assignLayersAck sessionId ready _ => sessionId == initiator.sessionId && ready
  | _ => false

/-- The peers whose acknowledgements are counted, in order. -/
def readySenders (received : List Envelope) : List NodeId :=
  (received.filter initiator.isReadyAck).map Prod.fst

/-- The peers of the plan, in order. -/
def planPeers : List NodeId := initiator.plan.assignments.map LayerAssignment.peerId

/-- Every peer of the plan has sent a ready acknowledgement of the session. -/
def AllReady (received : List Envelope) : Prop :=
  ∀ assignment ∈ initiator.plan.assignments,
    ∃ error, (assignment.peerId, .assignLayersAck initiator.sessionId true error) ∈ received

variable {initiator}

/-- Being ready is having sent a counted acknowledgement. -/
theorem allReady_iff (received : List Envelope) :
    initiator.AllReady received ↔
      ∀ peer ∈ initiator.planPeers, peer ∈ initiator.readySenders received := by
  have hready : ∀ peer, (∃ error,
        (peer, MeshMessage.assignLayersAck initiator.sessionId true error) ∈ received) ↔
      peer ∈ initiator.readySenders received := by
    intro peer
    rw [readySenders, List.mem_map]
    constructor
    · rintro ⟨error, hmem⟩
      exact ⟨_, List.mem_filter.mpr ⟨hmem, by simp [isReadyAck]⟩, rfl⟩
    · rintro ⟨⟨sender, message⟩, hmem, rfl⟩
      obtain ⟨hmem, hack⟩ := List.mem_filter.mp hmem
      cases message with
      | assignLayersAck sessionId ready error =>
          simp only [isReadyAck, Bool.and_eq_true, beq_iff_eq] at hack
          rw [hack.1, hack.2] at hmem
          exact ⟨error, hmem⟩
      | _ => cases hack
  simp only [AllReady, planPeers, List.forall_mem_map, hready]

/-- A message that does not end setup is counted exactly if it is a ready
acknowledgement. -/
theorem setupReceive_eq_ok {acks counted : ℕ} {envelope : Envelope}
    (h : initiator.setupReceive acks envelope = .ok counted) :
    counted = acks + if initiator.isReadyAck envelope then 1 else 0 := by
  obtain ⟨sender, message⟩ := envelope
  cases message with
  | assignLayersAck sessionId ready error =>
      rw [setupReceive] at h
      split_ifs at h with hsession hready
      · cases h
        simp [isReadyAck, hsession, hready]
      · cases h
        simp [isReadyAck, hsession]
  | error sessionId message =>
      rw [setupReceive] at h
      split_ifs at h
      cases h
      rfl
  | _ =>
      cases h
      rfl

/-- The loop returns without an error once it has counted as many acknowledgements as
the plan has peers. -/
theorem length_readySenders_ackLoop {acks : ℕ} {delivered : List (Except MeshError Envelope)}
    (hle : acks ≤ initiator.plan.peerCount)
    (h : (initiator.ackLoop acks delivered).2 = some (.ok ())) :
    acks + (initiator.readySenders (initiator.ackLoop acks delivered).1).length =
      initiator.plan.peerCount := by
  induction delivered generalizing acks with
  | nil =>
      rw [ackLoop] at h ⊢
      split_ifs at h with hlt
      exact le_antisymm hle (not_lt.mp hlt)
  | cons message rest ih =>
      rw [ackLoop.eq_def] at h ⊢
      dsimp only at h ⊢
      split at h
      · rename_i hlt
        rw [if_pos hlt]
        cases message with
        | error e => cases h
        | ok envelope =>
            dsimp only at h ⊢
            cases hreceived : initiator.setupReceive acks envelope with
            | error e =>
                rw [hreceived] at h
                cases h
            | ok counted =>
                rw [hreceived] at h
                have hcounted := setupReceive_eq_ok hreceived
                have hle' : counted ≤ initiator.plan.peerCount := by
                  split at hcounted <;> omega
                rw [← ih hle' h, hcounted]
                simp only [readySenders, List.filter_cons, List.length_map]
                split
                · rw [List.length_cons]
                  omega
                · omega
      · rename_i hge
        rw [if_neg hge]
        exact le_antisymm hle (not_lt.mp hge)

/-- **The setup barrier.** When setup returns without an error, every peer of the plan has
sent a ready acknowledgement exactly if no more counted acknowledgements repeat a sender
or come from outside the plan than assignments repeat a peer. -/
theorem setup_barrier_iff {modelSource : String} {sendResult : ℕ → Except MeshError Unit}
    {delivered : List (Except MeshError Envelope)}
    (h : (initiator.setup modelSource sendResult delivered).result = some (.ok ())) :
    initiator.AllReady (initiator.setup modelSource sendResult delivered).received ↔
      surplus initiator.planPeers (initiator.readySenders
          (initiator.setup modelSource sendResult delivered).received) ≤
        repeats initiator.planPeers := by
  rw [allReady_iff]
  apply all_arrived_iff
  rw [setup] at h ⊢
  split at h
  · cases h
  · dsimp only at h ⊢
    have hcount := length_readySenders_ackLoop (Nat.zero_le _) h
    rw [Nat.zero_add] at hcount
    rw [hcount, planPeers, List.length_map]
    rfl

/-- A plan of two peers. -/
def twoPeers : PipelineInitiator ℚ where
  plan :=
    { sessionId := 7
      modelId := "model"
      totalLayers := 2
      assignments := [⟨.ofByte 1, ⟨0, 1⟩, 1, 0⟩, ⟨.ofByte 2, ⟨1, 2⟩, 1, 0⟩]
      estimatedLatencyMs := 1
      estimatedThroughputTokS := 1 }
  localId := .ofByte 0

/-- A peer is ready. -/
def readyAck (peer : UInt8) : Except MeshError Envelope :=
  .ok (.ofByte peer, .assignLayersAck 7 true none)

/-- Both peers acknowledge, in the other order and with a stray message in between. -/
theorem setup_barrier_iff_two_peers :
    twoPeers.AllReady (twoPeers.setup "model" (fun _ => .ok ())
        [readyAck 2, .ok (.ofByte 3, .ping 0), readyAck 1]).received ↔
      surplus twoPeers.planPeers (twoPeers.readySenders (twoPeers.setup "model" (fun _ => .ok ())
        [readyAck 2, .ok (.ofByte 3, .ping 0), readyAck 1]).received) ≤
        repeats twoPeers.planPeers :=
  setup_barrier_iff (by decide)

/-- If one peer acknowledges twice, setup returns although the other is not ready. -/
theorem repeated_ack_passes_barrier :
    (twoPeers.setup "model" (fun _ => .ok ()) [readyAck 1, readyAck 1]).result = some (.ok ()) ∧
      ¬ twoPeers.AllReady
        (twoPeers.setup "model" (fun _ => .ok ()) [readyAck 1, readyAck 1]).received := by
  refine ⟨by decide, fun hready => ?_⟩
  rw [allReady_iff] at hready
  exact absurd hready (by decide)

end PipelineInitiator

end HiveBear.Mesh
