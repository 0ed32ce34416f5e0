/-
# The token loop as a machine

`generate` recurses over everything the transport will ever deliver. Read one message
at a time it is a machine: `loopStep` is what the loop does with the next message, and
its state says whether the loop still reads, has come to its end, or has panicked. The
two agree, so what is proved about single messages holds of whole streams.
-/

import HiveBear.Library.MessageMachine
import HiveBear.Mesh.Pipeline.StreamTokens

namespace HiveBear.Mesh

open MessageMachine

/-- How far the token loop is. -/
inductive LoopState (H : Type*)
  /-- It waits for the logits of a position. -/
  | reading (position : ℕ) (handlerState : H)
  /-- The task has returned. -/
  | finished
  | panicked

namespace PipelineInitiator

variable {F H : Type*} (initiator : PipelineInitiator F) (handler : MeshPipelineHandler H)
  (environment : StreamEnvironment) (firstWorker : NodeId) (maxTokens : ℕ)

/-- The cleanup at the end of the task. -/
def cleanup : List StreamAction := .clearCheckpoints :: initiator.releaseActions

/-- The loop goes on with a position, or is through. -/
def enterTurn (position : ℕ) (handlerState : H) : LoopState H × List StreamAction :=
  if maxTokens ≤ position then (.finished, initiator.cleanup)
  else (.reading position handlerState, [])

/-- What the token loop does with the next message. -/
def loopStep (state : LoopState H) (received : Except MeshError Envelope) :
    LoopState H × List StreamAction :=
  match state with
  | .finished => (.finished, [])
  | .panicked => (.panicked, [])
  | .reading position handlerState =>
      match received with
      | .ok (_, .logits sid _ data _) =>
          if sid = initiator.sessionId then
            let turn := generateToken initiator handler environment firstWorker handlerState
              position data
            match turn.2 with
            | .next handlerState =>
                let entered := enterTurn initiator maxTokens (position + 1) handlerState
                (entered.1, turn.1 ++ entered.2)
            | .stop => (.finished, turn.1 ++ initiator.cleanup)
            | .panic => (.panicked, turn.1)
          else (state, [])
      | .ok (_, .error _ message) =>
          (.finished, .yield (.error (.pipeline message)) :: initiator.releaseActions)
      | .error e => (.finished, [.yield (.error e)])
      | .ok _ => (state, [])

/-- The loop of a prompt: the position it starts to read at, and what is done before. -/
def beginStream (handlerState : H) (promptTokens : List ℕ) :
    LoopState H × List StreamAction :=
  match initiator.plan.assignments with
  | [] => (.finished, [.yield (.error (.pipeline "No peers in plan"))])
  | first :: _ =>
      let promptBytes := promptTokens.flatMap toLeBytes
      let embedding := handler.forwardLayers handlerState promptBytes [promptTokens.length, 1] 0 0
      let embed : StreamAction := .forward promptBytes [promptTokens.length, 1] 0 0
      match embedding.1 with
      | .error e => (.finished, [embed, .yield (.error (.pipeline s!"Embedding failed: {e}"))])
      | .ok activation =>
          let dtype := (TensorDtype.fromU8 activation.2.2).getD .f32
          let sent : StreamAction := .send first.peerId
            (initiator.activationMessage 0 activation.1 activation.2.1 dtype)
          match environment.sendResult 0 with
          | .error e => (.finished, [embed, sent, .yield (.error e)])
          | .ok _ =>
              let entered := enterTurn initiator maxTokens 0 embedding.2
              (entered.1, embed :: sent :: entered.2)

/-- The peer of the first stage, which gets all activations. -/
def firstPeer : NodeId :=
  (initiator.plan.assignments.head?.map LayerAssignment.peerId).getD initiator.localId

/-- The whole stream: how it stands after these messages, and what it has done. -/
def streamRun (handlerState : H) (promptTokens : List ℕ)
    (received : List (Except MeshError Envelope)) : LoopState H × List StreamAction :=
  let begun := beginStream initiator handler environment maxTokens handlerState promptTokens
  let later := run (loopStep initiator handler environment initiator.firstPeer maxTokens)
    begun.1 received
  (later.1, begun.2 ++ later.2)

variable {initiator handler environment firstWorker maxTokens}

/-- A loop that has returned does nothing. -/
theorem ended_finished :
    Ended (loopStep initiator handler environment firstWorker maxTokens) .finished :=
  fun _ => rfl

theorem ended_panicked :
    Ended (loopStep initiator handler environment firstWorker maxTokens) .panicked :=
  fun _ => rfl

variable (initiator handler environment firstWorker maxTokens)

/-- The loop is its machine. -/
theorem generate_eq_run (position : ℕ) (handlerState : H)
    (received : List (Except MeshError Envelope)) :
    generate initiator handler environment firstWorker maxTokens position handlerState received =
      (enterTurn initiator maxTokens position handlerState).2 ++
        (run (loopStep initiator handler environment firstWorker maxTokens)
          (enterTurn initiator maxTokens position handlerState).1 received).2 := by
  induction received generalizing position handlerState with
  | nil =>
      rw [generate.eq_def, enterTurn]
      dsimp only
      split_ifs
      · exact (List.append_nil _).symm
      · rfl
  | cons delivered rest ih =>
      rw [generate.eq_def]
      dsimp only
      by_cases hmax : maxTokens ≤ position
      · rw [if_pos hmax, enterTurn, if_pos hmax, run_of_ended ended_finished, List.append_nil]
        rfl
      have henter : enterTurn initiator maxTokens position handlerState =
          (.reading position handlerState, []) := if_neg hmax
      -- a message that the loop passes over leaves it where it is
      have hskip := ih position handlerState
      rw [henter, List.nil_append] at hskip
      rw [if_neg hmax, henter, List.nil_append, run]
      cases delivered with
      | error e =>
          rw [loopStep, run_of_ended ended_finished]
          rfl
      | ok envelope =>
          obtain ⟨sender, message⟩ := envelope
          cases message with
          | logits sid tokenPosition data vocabSize =>
              rw [loopStep]
              dsimp only
              split
              · cases (generateToken initiator handler environment firstWorker handlerState
                  position data).2 with
                | next handlerState =>
                    dsimp only
                    rw [ih, List.append_assoc]
                | stop => rw [run_of_ended ended_finished, List.append_nil]; rfl
                | panic => rw [run_of_ended ended_panicked, List.append_nil]
              · exact hskip
          | error sid text =>
              rw [loopStep, run_of_ended ended_finished, List.append_nil]
          | _ => exact hskip

/-- The stream does what its machine does. -/
theorem streamTokens_eq_streamRun (handlerState : H) (promptTokens : List ℕ)
    (received : List (Except MeshError Envelope)) :
    streamTokens initiator handler environment handlerState promptTokens maxTokens received =
      (streamRun initiator handler environment maxTokens handlerState promptTokens received).2 := by
  rw [streamTokens, streamRun, beginStream]
  cases hplan : initiator.plan.assignments with
  | nil => rw [run_of_ended ended_finished]; rfl
  | cons first others =>
      dsimp only
      cases (handler.forwardLayers handlerState (promptTokens.flatMap toLeBytes)
        [promptTokens.length, 1] 0 0).1 with
      | error e => rw [run_of_ended ended_finished]; rfl
      | ok activation =>
          dsimp only
          cases environment.sendResult 0 with
          | error e => rw [run_of_ended ended_finished]; rfl
          | ok _ =>
              rw [generate_eq_run, firstPeer, hplan]
              rfl

end PipelineInitiator

end HiveBear.Mesh
