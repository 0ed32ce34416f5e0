/-
# A pipeline in its network

An initiator and the workers of its plan, connected by lossless first-in first-out
links. Setup sends the assignments one by one and then collects acknowledgements;
once it has as many as the plan has peers, activations enter the pipeline at any
time, and the initiator receives what comes back. In between, each worker may handle
the next message of any of its incoming links at any time.

`node` numbers the nodes in pipeline order: 0 is the initiator, `k + 1` the peer of
stage `k`, and behind the last stage comes the initiator again.
-/

import HiveBear.Library.FifoLinks
import HiveBear.Library.Run
import HiveBear.Mesh.Pipeline.RangeHandler

namespace HiveBear.Mesh

open FifoLinks IntervalTiling

/-- A pipeline: its initiator, the model its workers load, and their hash function. -/
structure PipelineDeployment (F S : Type*) where
  initiator : PipelineInitiator F
  functions : LayerFunctions S
  modelSource : String
  sha256 : List UInt8 → List UInt8

/-- The workers with the messages on their way, and the initiator's progress:
assignments sent, acknowledgements received, and the error setup ended with. `fed`
and `received` remember the activations sent and the messages received since. -/
structure PipelineNetwork (S : Type*) where
  links : Links NodeId MeshMessage
  workers : NodeId → WorkerState (Option (List (ℕ × S)))
  assigned : ℕ
  acks : ℕ
  setupError : Option MeshError
  fed : List (ℕ × Tensor)
  received : List Envelope

/-- No node has sent anything yet. -/
def PipelineNetwork.start {S : Type*} : PipelineNetwork S where
  links _ _ := []
  workers _ := PipelineWorker.initialState none
  assigned := 0
  acks := 0
  setupError := none
  fed := []
  received := []

/-- What can happen: setup sends the next assignment or receives a message, a worker
handles a message, an activation is sent, or the initiator receives a message. -/
inductive PipelineEvent
  | assign
  | collect (sender : NodeId)
  | deliver (sender peer : NodeId)
  | feed (activation : ℕ × Tensor)
  | receive (sender : NodeId)

namespace PipelineDeployment

variable {F S : Type*} (d : PipelineDeployment F S)

/-- The assignments of the plan, in stage order. -/
def stages : List (LayerAssignment F) := d.initiator.plan.assignments

/-- Setup sends a stage its assignment. -/
theorem setupMessages_getElem? {k : ℕ} {a : LayerAssignment F} (h : d.stages[k]? = some a) :
    (d.initiator.setupMessages d.modelSource)[k]? =
      some (a.peerId, d.initiator.assignMessage d.modelSource k a) := by
  rw [PipelineInitiator.setupMessages, List.getElem?_mapIdx]
  exact congrArg (Option.map _) h

/-- Setup sends nothing else. -/
theorem setupMessages_eq_some {k : ℕ} {peer : NodeId} {message : MeshMessage}
    (h : (d.initiator.setupMessages d.modelSource)[k]? = some (peer, message)) :
    ∃ a, d.stages[k]? = some a ∧ peer = a.peerId ∧
      message = d.initiator.assignMessage d.modelSource k a := by
  rw [PipelineInitiator.setupMessages, List.getElem?_mapIdx] at h
  obtain ⟨a, ha, heq⟩ := Option.map_eq_some_iff.mp h
  cases heq
  exact ⟨a, ha, rfl, rfl⟩

/-- The nodes in pipeline order, from the initiator back to the initiator. -/
def node (k : ℕ) : NodeId :=
  ((d.initiator.localId :: d.stages.map LayerAssignment.peerId)[k]?).getD d.initiator.localId

/-- Setup has returned without an error. -/
def Ready (net : PipelineNetwork S) : Prop :=
  net.setupError = none ∧ net.assigned = d.stages.length ∧ net.acks = d.stages.length

/-- The acknowledgement loop receives a message, which leaves `rest` in its link. -/
def collect (net : PipelineNetwork S) (sender : NodeId) (message : MeshMessage)
    (rest : List MeshMessage) : PipelineNetwork S :=
  let links := setLink net.links sender d.initiator.localId rest
  match d.initiator.setupReceive net.acks (sender, message) with
  | .ok acks => { net with links := links, acks := acks }
  | .error e => { net with links := links, setupError := some e }

/-- A worker handles a message, which leaves `rest` in its link. -/
def deliver (net : PipelineNetwork S) (sender peer : NodeId) (message : MeshMessage)
    (rest : List MeshMessage) : PipelineNetwork S :=
  let reaction := (d.functions.rangeWorker d.sha256 peer).handle (net.workers peer) sender message
  { net with
    links := postAll (setLink net.links sender peer rest) peer reaction.sends
    workers := Function.update net.workers peer reaction.state }

/-- The steps of the network. -/
inductive Step : PipelineNetwork S → PipelineEvent → PipelineNetwork S → Prop
  | assign {net : PipelineNetwork S} {peer : NodeId} {message : MeshMessage}
      (running : net.setupError = none)
      (next : (d.initiator.setupMessages d.modelSource)[net.assigned]? = some (peer, message)) :
      Step net .assign
        { net with
          links := post net.links d.initiator.localId peer message
          assigned := net.assigned + 1 }
  | collect {net : PipelineNetwork S} (sender : NodeId) {message : MeshMessage}
      {rest : List MeshMessage} (running : net.setupError = none)
      (sent : net.assigned = d.stages.length) (waiting : net.acks < d.initiator.plan.peerCount)
      (head : net.links sender d.initiator.localId = message :: rest) :
      Step net (.collect sender) (d.collect net sender message rest)
  | deliver {net : PipelineNetwork S} (sender : NodeId) {a : LayerAssignment F}
      {message : MeshMessage} {rest : List MeshMessage} (member : a ∈ d.stages)
      (head : net.links sender a.peerId = message :: rest) :
      Step net (.deliver sender a.peerId) (d.deliver net sender a.peerId message rest)
  | feed {net : PipelineNetwork S} {first : LayerAssignment F}
      {others : List (LayerAssignment F)} (activation : ℕ × Tensor) (ready : d.Ready net)
      (plan : d.stages = first :: others) :
      Step net (.feed activation)
        { net with
          links := post net.links d.initiator.localId first.peerId
            (d.initiator.activationMessage activation.1 activation.2.data activation.2.shape
              activation.2.dtype)
          fed := net.fed ++ [activation] }
  | receive {net : PipelineNetwork S} (sender : NodeId) {message : MeshMessage}
      {rest : List MeshMessage} (ready : d.Ready net)
      (head : net.links sender d.initiator.localId = message :: rest) :
      Step net (.receive sender)
        { net with
          links := setLink net.links sender d.initiator.localId rest
          received := net.received ++ [(sender, message)] }

/-! ## Nodes in pipeline order -/

@[simp]
theorem node_zero : d.node 0 = d.initiator.localId := rfl

/-- Node `k + 1` is the peer of stage `k`. -/
theorem node_succ {k : ℕ} {a : LayerAssignment F} (h : d.stages[k]? = some a) :
    d.node (k + 1) = a.peerId := by
  rw [node, List.getElem?_cons_succ, List.getElem?_map, h]
  rfl

/-- Behind the last stage comes the initiator. -/
theorem node_of_length_lt {k : ℕ} (h : d.stages.length < k) : d.node k = d.initiator.localId := by
  rw [node, List.getElem?_eq_none]
  · rfl
  · rw [List.length_cons, List.length_map]
    exact h

variable {d}

/-- The initiator and the stages are different nodes. -/
theorem node_injective (hdistinct : (d.initiator.localId ::
      d.stages.map LayerAssignment.peerId).Nodup) {j k : ℕ} (hj : j ≤ d.stages.length)
    (hk : k ≤ d.stages.length) (h : d.node j = d.node k) : j = k := by
  have hlt : ∀ i ≤ d.stages.length,
      i < (d.initiator.localId :: d.stages.map LayerAssignment.peerId).length := by
    intro i hi
    rw [List.length_cons, List.length_map]
    exact Nat.lt_succ_of_le hi
  rw [node, node, List.getElem?_eq_getElem (hlt j hj), List.getElem?_eq_getElem (hlt k hk)] at h
  exact hdistinct.getElem_inj_iff.mp h

end PipelineDeployment

end HiveBear.Mesh
