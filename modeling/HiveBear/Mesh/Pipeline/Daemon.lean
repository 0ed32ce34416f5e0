/-
# The mesh worker daemon

A node that serves requests for others runs this daemon. A chat request spawns a task
that streams the handler's results back; `RequestTask.step` is what such a task does
until it next sends or waits. Pipeline messages are passed to a pipeline handler, if
the daemon has one, and answered to whoever sent them.

A pipeline worker plays the same part in another way; see `PipelineWorker.handle`.
-/

import HiveBear.Mesh.Pipeline.Worker

namespace HiveBear.Mesh

/-- What a chat handler makes of a request: an error, or a stream of token texts in
which an error is fatal. -/
abbrev ChatResult := Except String (List (Except String String))

/-- Handler for whole-model inference. -/
structure MeshInferenceHandler where
  /-- Answer the messages with a model, given a token limit and a temperature. -/
  handleInference : String → String → ℕ → UInt32 → ChatResult

/-! ## Serving a chat request -/

/-- How far a task is. -/
inductive RequestPhase
  /-- The handler has answered the call. -/
  | called (result : ChatResult)
  /-- The handler's stream still has these results. -/
  | streaming (results : List (Except String String))
  /-- The final "done" token is sent. -/
  | completing
  | returned
  deriving DecidableEq

/-- A task that serves one chat request. -/
structure RequestTask where
  peerId : NodeId
  sessionId : Uuid
  phase : RequestPhase
  fullText : String
  tokenCount : ℕ

namespace RequestTask

/-- A task for a request that the handler has answered. -/
def spawn (peerId : NodeId) (sessionId : Uuid) (result : ChatResult) : RequestTask where
  peerId := peerId
  sessionId := sessionId
  phase := .called result
  fullText := ""
  tokenCount := 0

/-- The next message of a task, and the task afterwards. -/
def step (task : RequestTask) : List Envelope × RequestTask :=
  match task.phase with
  | .called (.error err) =>
      ([(task.peerId, .inferenceComplete task.sessionId "" 0 (some err))],
        { task with phase := .returned })
  | .called (.ok results) => ([], { task with phase := .streaming results })
  | .streaming (.ok text :: results) =>
      let fullText := task.fullText ++ text
      let tokenCount := (task.tokenCount + 1) % 2 ^ 32
      ([(task.peerId, .inferenceToken task.sessionId text tokenCount false)],
        { task with
          phase := .streaming results
          fullText := fullText
          tokenCount := tokenCount })
  | .streaming (.error err :: _) =>
      ([(task.peerId, .inferenceComplete task.sessionId task.fullText task.tokenCount (some err))],
        { task with phase := .returned })
  | .streaming [] =>
      ([(task.peerId, .inferenceToken task.sessionId "" task.tokenCount true)],
        { task with phase := .completing })
  | .completing =>
      ([(task.peerId, .inferenceComplete task.sessionId task.fullText task.tokenCount none)],
        { task with phase := .returned })
  | .returned => ([], task)

end RequestTask

/-! ## The daemon loop -/

/-- A daemon with its handlers. -/
structure MeshWorkerDaemon (H : Type*) where
  handler : MeshInferenceHandler
  pipelineHandler : Option (MeshPipelineHandler H)

/-- What a daemon does in reaction to a message: the pipeline handler's state, the
messages it sends, and the task it spawns for a chat request. -/
structure DaemonReaction (H : Type*) where
  handler : H
  sends : List Envelope
  spawned : Option RequestTask

namespace MeshWorkerDaemon

variable {H : Type*} (daemon : MeshWorkerDaemon H) (state : H)

/-- Load the assigned layers and acknowledge. A daemon without a pipeline handler only
logs a warning. -/
def onAssignLayers (peerId : NodeId) (sessionId : Uuid) (modelSource : String)
    (layerRange : IntervalTiling.Range) (totalLayers : ℕ) : DaemonReaction H :=
  match daemon.pipelineHandler with
  | some handler =>
      let loaded := handler.loadLayers state modelSource layerRange totalLayers
      let ack : MeshMessage :=
        match loaded.1 with
        | .ok _ => .assignLayersAck sessionId true none
        | .error e => .assignLayersAck sessionId false (some e)
      ⟨loaded.2, [(peerId, ack)], none⟩
  | none => ⟨state, [], none⟩

/-- The data type a handler's output tag stands for. -/
def outTensorDtype (tag : UInt8) : TensorDtype :=
  if tag = 1 then .f16 else if tag = 2 then .bf16 else .f32

/-- Run the forward pass and send the output back to the peer the input came from. An
error is only logged. -/
def onActivationTensor (peerId : NodeId) (sessionId : Uuid) (tokenPosition : ℕ)
    (data : List UInt8) (shape : List ℕ) (dtype : TensorDtype) : DaemonReaction H :=
  match daemon.pipelineHandler with
  | some handler =>
      let forwarded := handler.forwardLayers state data shape dtype.toU8 tokenPosition
      match forwarded.1 with
      | .ok output =>
          ⟨forwarded.2, [(peerId, .activationTensor sessionId tokenPosition output.1 output.2.1
            (outTensorDtype output.2.2))], none⟩
      | .error _ => ⟨forwarded.2, [], none⟩
  | none => ⟨state, [], none⟩

/-- Unload the layers, whatever session is released. -/
def onReleaseSession : DaemonReaction H :=
  match daemon.pipelineHandler with
  | some handler => ⟨(handler.unloadLayers state).2, [], none⟩
  | none => ⟨state, [], none⟩

/-- The reaction to one message from a peer. -/
def handle (peerId : NodeId) : MeshMessage → DaemonReaction H
  | .inferenceRequest sessionId modelId messagesJson maxTokens temperature _ =>
      ⟨state, [], some (RequestTask.spawn peerId sessionId
        (daemon.handler.handleInference modelId messagesJson maxTokens temperature))⟩
  | .ping timestampMs => ⟨state, [(peerId, .pong timestampMs)], none⟩
  | .releaseSession _ => daemon.onReleaseSession state
  | .assignLayers sessionId _ layerRange totalLayers modelSource _ _ =>
      daemon.onAssignLayers state peerId sessionId modelSource layerRange totalLayers
  | .activationTensor sessionId tokenPosition data shape dtype =>
      daemon.onActivationTensor state peerId sessionId tokenPosition data shape dtype
  | _ => ⟨state, [], none⟩

end MeshWorkerDaemon

end HiveBear.Mesh
