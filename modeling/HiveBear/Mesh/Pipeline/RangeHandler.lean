/-
# A handler that folds a range of layers

What a pipeline handler is meant to do, for any per-layer transition function: it
loads fresh states for the layers of its range, and each activation passes through
these layers in increasing order. A layer may keep a state between activations, such
as its key-value cache, and sees the token position.

A worker with this handler forwards the output of its range to the next peer, or
sends logits to the initiator when its range reaches the end of the model.
-/

import HiveBear.Library.StagePipeline
import HiveBear.Mesh.Pipeline.Initiator

namespace HiveBear.Mesh

open IntervalTiling LayerStack

/-- An activation as it travels between stages. -/
structure Tensor where
  data : List UInt8
  shape : List ℕ
  dtype : TensorDtype

/-- What each layer of a model does: its state after loading a model source, and its
reaction to the activation of a token position. -/
structure LayerFunctions (S : Type*) where
  fresh : String → ℕ → S
  layer : ℕ → S → ℕ → Tensor → S × Tensor

namespace LayerFunctions

variable {S : Type*} (functions : LayerFunctions S)

/-- The layers of a range in their initial states, in increasing order. -/
def freshStack (modelSource : String) (layers : List ℕ) : List (ℕ × S) :=
  layers.map fun l => (l, functions.fresh modelSource l)

/-- A stack of layers reacts to an activation and its token position. -/
def react : List (ℕ × S) → ℕ × Tensor → List (ℕ × S) × (ℕ × Tensor) :=
  stackReact functions.layer

/-- The handler that folds its layers over the activation. -/
def rangeHandler : MeshPipelineHandler (Option (List (ℕ × S))) where
  loadLayers _ modelSource layerRange _ :=
    (.ok (), some (functions.freshStack modelSource layerRange.toList))
  forwardLayers loaded data shape dtype indexPos :=
    match loaded with
    | none => (.error "No layers loaded — call load_layers first", none)
    | some stack =>
        let result := forward functions.layer indexPos stack
          ⟨data, shape, (TensorDtype.fromU8 dtype).getD .f32⟩
        (.ok (result.2.data, result.2.shape, result.2.dtype.toU8), some result.1)
  unloadLayers _ := (.ok (), none)

end LayerFunctions

/-- The message that carries an activation to the next stage. -/
def tensorMessage (sessionId : Uuid) (activation : ℕ × Tensor) : MeshMessage :=
  .activationTensor sessionId activation.1 activation.2.data activation.2.shape
    activation.2.dtype

/-- The message that carries the output of the whole model to the initiator. -/
def logitsMessage (sessionId : Uuid) (output : ℕ × Tensor) : MeshMessage :=
  .logits sessionId output.1 output.2.data (output.2.shape.getLast?.getD 0 % 2 ^ 32)

namespace LayerFunctions

variable {S : Type*} (functions : LayerFunctions S)

/-- A worker that folds ranges of layers. -/
def rangeWorker (sha256 : List UInt8 → List UInt8) (localId : NodeId) :
    PipelineWorker (Option (List (ℕ × S))) :=
  ⟨localId, some functions.rangeHandler, sha256⟩

variable (sha256 : List UInt8 → List UInt8) (localId sender : NodeId)
  (state : WorkerState (Option (List (ℕ × S))))

/-- An assignment loads its range, stores the session and is acknowledged as ready. -/
theorem handle_assignLayers (session : WorkerSession) :
    let reaction := (functions.rangeWorker sha256 localId).handle state sender
      (.assignLayers session.sessionId session.modelId session.layerRange session.totalLayers
        session.modelSource session.nextPeer session.initiatorPeer)
    reaction.state =
        { handler := some (functions.freshStack session.modelSource session.layerRange.toList)
          sessions := Function.update state.sessions session.sessionId (some session) } ∧
      reaction.sends = [(sender, .assignLayersAck session.sessionId true none)] :=
  ⟨rfl, rfl⟩

/-- Where a stage sends its output. -/
def stageOutput (session : WorkerSession) (output : ℕ × Tensor) : List Envelope :=
  if session.layerRange.stop = session.totalLayers then
    [(session.initiatorPeer, logitsMessage session.sessionId output)]
  else
    match session.nextPeer with
    | some next => [(next, tensorMessage session.sessionId output)]
    | none => []

/-- An activation of a session passes through the loaded stack, and its output goes
where the session says. -/
theorem handle_activation {session : WorkerSession} {stack : List (ℕ × S)}
    (hloaded : state.handler = some stack)
    (hsession : state.sessions session.sessionId = some session) (activation : ℕ × Tensor) :
    let reaction := (functions.rangeWorker sha256 localId).handle state sender
      (tensorMessage session.sessionId activation)
    reaction.state = ⟨some (functions.react stack activation).1, state.sessions⟩ ∧
      reaction.sends = stageOutput session (functions.react stack activation).2 := by
  obtain ⟨tokenPosition, data, shape, dtype⟩ := activation
  simp only [rangeWorker, PipelineWorker.handle, PipelineWorker.onActivationTensor, tensorMessage,
    rangeHandler, hloaded, hsession, TensorDtype.fromU8_toU8, Option.getD_some]
  refine ⟨rfl, ?_⟩
  rw [PipelineWorker.routeOutput, stageOutput]
  simp only [TensorDtype.fromU8_toU8, Option.getD_some]
  rfl

end LayerFunctions

end HiveBear.Mesh
