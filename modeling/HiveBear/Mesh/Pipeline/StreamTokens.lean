/-
# Streaming tokens from a pipeline

`stream_tokens` embeds the prompt, sends its activation into the pipeline, and
then, for each logits message that comes back, samples a token, embeds it and
sends the next activation. The model records every observable action of that
loop in order; what the handler, the transport and the consumer do is arbitrary.
-/

import HiveBear.Mesh.Pipeline.Initiator

namespace HiveBear.Mesh

/-- How often activation checkpoints are saved (every so many tokens). -/
def checkpointInterval : ℕ := 10

/-- What the token loop does, in order. A `forward` is a call of the local pipeline
handler, a `yield` hands an item to the consumer. -/
inductive StreamAction
  | forward (data : List UInt8) (shape : List ℕ) (dtype : UInt8) (indexPos : ℕ)
  | send (peer : NodeId) (message : MeshMessage)
  | yield (item : Except MeshError Token)
  | saveCheckpoint (tokenPosition : ℕ) (data : List UInt8) (shape : List ℕ)
      (dtype : TensorDtype) (sourceLayer : ℕ)
  | clearCheckpoints

/-- What the token loop cannot decide: whether the activation of a position can be
sent, whether the consumer still listens when the token of a position is handed to
it, and how bytes that need not be valid text are decoded. -/
structure StreamEnvironment where
  sendResult : ℕ → Except MeshError Unit
  listening : ℕ → Bool
  fromUtf8Lossy : List UInt8 → String

/-- How one turn of the token loop ends. A panic skips the teardown. -/
inductive LoopControl (H : Type*)
  | next (handlerState : H)
  | stop
  | panic

/-- The word that four bytes encode, least significant first. -/
def fromLeBytes (bytes : List UInt8) : ℕ :=
  bytes.foldr (fun b n => b.toNat + 2 ^ 8 * n) 0

namespace PipelineInitiator

variable {F H : Type*} (initiator : PipelineInitiator F) (handler : MeshPipelineHandler H)
  (environment : StreamEnvironment) (firstWorker : NodeId)

/-- Release the session on all workers. -/
def releaseActions : List StreamAction :=
  initiator.releaseMessages.map fun e => .send e.1 e.2

/-- Embed a generated token and send its activation into the pipeline. -/
def feedToken (handlerState : H) (position tokenId : ℕ) : List StreamAction × LoopControl H :=
  let embedding := handler.forwardLayers handlerState (toLeBytes tokenId) [1, 1] 0 (position + 1)
  let embed : StreamAction := .forward (toLeBytes tokenId) [1, 1] 0 (position + 1)
  match embedding.1 with
  | .error e => ([embed, .yield (.error (.pipeline s!"Next embedding failed: {e}"))], .stop)
  | .ok activation =>
      let activationDtype := (TensorDtype.fromU8 activation.2.2).getD .f32
      let checkpoint : List StreamAction :=
        if (position + 1) % checkpointInterval = 0 then
          [.saveCheckpoint (position + 1) activation.1 activation.2.1 activationDtype 0]
        else []
      let sent : StreamAction := .send firstWorker
        (initiator.activationMessage (position + 1) activation.1 activation.2.1 activationDtype)
      match environment.sendResult (position + 1) with
      | .error e => (embed :: checkpoint ++ [sent, .yield (.error e)], .stop)
      | .ok _ => (embed :: checkpoint ++ [sent], .next embedding.2)

/-- One turn of the token loop: sample from the logits, hand the token to the
consumer, and feed it back. -/
def generateToken (handlerState : H) (position : ℕ) (logitsData : List UInt8) :
    List StreamAction × LoopControl H :=
  let sampling := handler.forwardLayers handlerState logitsData [1] 255 position
  let sample : StreamAction := .forward logitsData [1] 255 position
  match sampling.1 with
  | .error e => ([sample, .yield (.error (.pipeline s!"Sampling failed: {e}"))], .stop)
  | .ok (tokenBytes, _, _) =>
      -- the text is sliced from byte 4 on, which panics on fewer bytes
      if tokenBytes.length < 4 then ([sample], .panic)
      else
        let tokenId := fromLeBytes (tokenBytes.take 4)
        let tokenText := environment.fromUtf8Lossy (tokenBytes.drop 4)
        let isEos := tokenText.isEmpty || tokenId == 0
        let token : Token := ⟨tokenText, tokenId, none, isEos⟩
        if !environment.listening position then ([sample], .stop)
        else if isEos then ([sample, .yield (.ok token)], .stop)
        else
          let fed := feedToken initiator handler environment firstWorker sampling.2 position tokenId
          (sample :: .yield (.ok token) :: fed.1, fed.2)

/-- The token loop from a position on, over what the transport delivers. It waits
when nothing more is delivered. -/
def generate (maxTokens : ℕ) : ℕ → H → List (Except MeshError Envelope) → List StreamAction
  | position, _, [] =>
      if maxTokens ≤ position then .clearCheckpoints :: initiator.releaseActions else []
  | position, handlerState, received :: rest =>
      if maxTokens ≤ position then .clearCheckpoints :: initiator.releaseActions
      else
        match received with
        | .ok (_, .logits sid _ data _) =>
            if sid = initiator.sessionId then
              let turn := generateToken initiator handler environment firstWorker handlerState
                position data
              match turn.2 with
              | .next handlerState => turn.1 ++ generate maxTokens (position + 1) handlerState rest
              | .stop => turn.1 ++ .clearCheckpoints :: initiator.releaseActions
              | .panic => turn.1
            else generate maxTokens position handlerState rest
        | .ok (_, .error _ message) =>
            .yield (.error (.pipeline message)) :: initiator.releaseActions
        | .error e => [.yield (.error e)]
        | .ok _ => generate maxTokens position handlerState rest

/-- The logits that the first turn of the loop receives, if it receives any: messages
of other sessions are skipped, an error ends the stream. -/
def firstLogits : List (Except MeshError Envelope) → Option (List UInt8)
  | [] => none
  | received :: rest =>
      match received with
      | .ok (_, .logits sid _ data _) =>
          if sid = initiator.sessionId then some data else firstLogits rest
      | .ok (_, .error _ _) => none
      | .error _ => none
      | .ok _ => firstLogits rest

/-- Run the distributed pipeline on a prompt. -/
def streamTokens (handlerState : H) (promptTokens : List ℕ) (maxTokens : ℕ)
    (received : List (Except MeshError Envelope)) : List StreamAction :=
  match initiator.plan.assignments with
  | [] => [.yield (.error (.pipeline "No peers in plan"))]
  | first :: _ =>
      let promptBytes := promptTokens.flatMap toLeBytes
      let embedding := handler.forwardLayers handlerState promptBytes [promptTokens.length, 1] 0 0
      let embed : StreamAction := .forward promptBytes [promptTokens.length, 1] 0 0
      match embedding.1 with
      | .error e => [embed, .yield (.error (.pipeline s!"Embedding failed: {e}"))]
      | .ok activation =>
          let dtype := (TensorDtype.fromU8 activation.2.2).getD .f32
          let sent : StreamAction := .send first.peerId
            (initiator.activationMessage 0 activation.1 activation.2.1 dtype)
          match environment.sendResult 0 with
          | .error e => [embed, sent, .yield (.error e)]
          | .ok _ =>
              embed :: sent :: generate initiator handler environment first.peerId maxTokens 0
                embedding.2 received

end PipelineInitiator

end HiveBear.Mesh
