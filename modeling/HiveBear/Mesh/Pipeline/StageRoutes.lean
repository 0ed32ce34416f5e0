/-
# Two workers, one protocol

A pipeline worker and a worker daemon with a pipeline handler play the same part: they
load the layers they are assigned, run forward passes, and pass on what comes out. The
protocol says where their messages go: an acknowledgement to the assigner, an activation
to the stage's next peer, logits or an error to the initiator.

The worker follows the protocol. The daemon keeps no sessions: it returns every activation
to the peer it came from and only logs errors. So the two send the same kinds of messages
to the same peers exactly as long as activations come from the stage's own next peer, or
fail for a session that is not assigned.
-/

import HiveBear.Library.Obligations
import HiveBear.Mesh.Pipeline.Daemon
import HiveBear.Mesh.Pipeline.Positions

namespace HiveBear.Mesh

open MessageMachine

/-! ## The protocol -/

/-- The kinds of messages that a stage sends. -/
inductive StageMessage
  | acknowledgement
  | activation
  | logits
  | error
  | other
  deriving DecidableEq

/-- The kind of a message. -/
def MeshMessage.stageMessage : MeshMessage → StageMessage
  | .assignLayersAck .. => .acknowledgement
  | .activationTensor .. => .activation
  | .logits .. => .logits
  | .error .. => .error
  | _ => .other

/-- The destination and the kind of a message. -/
abbrev Route := NodeId × StageMessage

/-- Where messages go. -/
def routes (sends : List Envelope) : List Route := sends.map fun e => (e.1, e.2.stageMessage)

/-- A message of the pipeline protocol to a stage. -/
def MeshMessage.IsPipeline : MeshMessage → Prop
  | .assignLayers .. | .activationTensor .. | .releaseSession _ => True
  | _ => False

/-- The assignment that is in force for a session after these messages, the latest first. -/
def assignedSession : List Envelope → Uuid → Option WorkerSession
  | [], _ => none
  | (_, message) :: earlier, sid =>
      match message with
      | .assignLayers sessionId modelId layerRange totalLayers modelSource nextPeer
          initiatorPeer =>
          if sid = sessionId then
            some ⟨sessionId, modelId, layerRange, totalLayers, modelSource, nextPeer,
              initiatorPeer⟩
          else assignedSession earlier sid
      | .releaseSession sessionId => if sid = sessionId then none else assignedSession earlier sid
      | _ => assignedSession earlier sid

namespace StageProtocol

variable {H : Type*} (handler : MeshPipelineHandler H)

/-- The handler's state behind a message. -/
def handlerAfter (state : H) : MeshMessage → H
  | .assignLayers _ _ layerRange totalLayers modelSource _ _ =>
      (handler.loadLayers state modelSource layerRange totalLayers).2
  | .activationTensor _ tokenPosition data shape dtype =>
      (handler.forwardLayers state data shape dtype.toU8 tokenPosition).2
  | .releaseSession _ => (handler.unloadLayers state).2
  | _ => state

/-- The handler's state and the messages so far, the latest first. -/
abbrev State (H : Type*) := H × List Envelope

/-- A message has been handled. -/
def next (state : State H) (received : Envelope) : State H :=
  (handlerAfter handler state.1 received.2, received :: state.2)

/-- Where the output of a forward pass goes. -/
def outputRoutes (session : WorkerSession) : List Route :=
  if session.layerRange.stop = session.totalLayers then [(session.initiatorPeer, .logits)]
  else session.nextPeer.toList.map fun nextPeer => (nextPeer, .activation)

/-- Where a stage sends what in reaction to a message. -/
def answer (state : State H) (received : Envelope) : List Route :=
  match received.2 with
  | .assignLayers .. => [(received.1, .acknowledgement)]
  | .activationTensor sessionId tokenPosition data shape dtype =>
      match assignedSession state.2 sessionId,
          (handler.forwardLayers state.1 data shape dtype.toU8 tokenPosition).1 with
      | some session, .ok _ => outputRoutes session
      | some session, .error _ => [(session.initiatorPeer, .error)]
      | none, _ => []
  | _ => []

/-- The protocol, message by message. -/
abbrev step : State H → Envelope → State H × List (List Route) :=
  answering (next handler) (answer handler)

/-- A stage that returns activations to their sender and reports no errors departs from the
protocol: the pass fails for an assigned session, or it succeeds and its output does not
belong to the sender. -/
def Departs (state : State H) (received : Envelope) : Prop :=
  match received.2 with
  | .activationTensor sessionId tokenPosition data shape dtype =>
      match (handler.forwardLayers state.1 data shape dtype.toU8 tokenPosition).1 with
      | .error _ => ∃ session, assignedSession state.2 sessionId = some session
      | .ok _ => ¬ ∃ session, assignedSession state.2 sessionId = some session ∧
          session.layerRange.stop ≠ session.totalLayers ∧ session.nextPeer = some received.1
  | _ => False

end StageProtocol

/-! ## The worker -/

namespace PipelineWorker

variable {H : Type*} (worker : PipelineWorker H)

/-- The worker's state behind a message. -/
def afterMessage (state : WorkerState H) (received : Envelope) : WorkerState H :=
  (worker.handle state received.1 received.2).state

/-- Where the worker sends what in reaction to a message. -/
def messageRoutes (state : WorkerState H) (received : Envelope) : List Route :=
  routes (worker.handle state received.1 received.2).sends

/-- The worker's routes, message by message. -/
abbrev routeStep : WorkerState H → Envelope → WorkerState H × List (List Route) :=
  answering worker.afterMessage worker.messageRoutes

variable {worker}

/-- The worker routes its output as the protocol says. -/
theorem routes_routeOutput (session : WorkerSession) (tokenPosition : ℕ) (dtype : TensorDtype)
    (output : List UInt8 × List ℕ × UInt8) :
    routes (routeOutput session tokenPosition dtype output) =
      StageProtocol.outputRoutes session := by
  rw [routeOutput, StageProtocol.outputRoutes]
  split
  · rfl
  · cases session.nextPeer <;> rfl

/-- The worker is in lockstep with the protocol and never departs from it. -/
theorem lockstep_protocol {handler : MeshPipelineHandler H}
    (hhandler : worker.pipelineHandler = some handler) :
    Lockstep (StageProtocol.next handler) (StageProtocol.answer handler) worker.afterMessage
      worker.messageRoutes
      (fun protocol state => state.handler = protocol.1 ∧
        state.sessions = assignedSession protocol.2)
      (fun received => received.2.IsPipeline) (fun _ _ => False) where
  keeps := fun {protocol state received} hrelated hpipeline => by
    obtain ⟨sender, message⟩ := received
    obtain ⟨hstate, hsessions⟩ := hrelated
    cases message with
    | assignLayers sessionId modelId layerRange totalLayers modelSource nextPeer initiatorPeer =>
        simp only [afterMessage, handle, onAssignLayers, hhandler, hstate]
        apply And.intro rfl
        funext sid
        rw [Function.update_apply, hsessions]
        rfl
    | activationTensor sessionId tokenPosition data shape dtype =>
        have hafter : (worker.onActivationTensor state sender sessionId tokenPosition data shape
            dtype).state = { state with handler :=
              (handler.forwardLayers state.handler data shape dtype.toU8 tokenPosition).2 } := by
          simp only [onActivationTensor, hhandler]
          split <;> rfl
        simp only [afterMessage, handle, hafter, hstate]
        exact ⟨rfl, hsessions⟩
    | releaseSession sessionId =>
        simp only [afterMessage, handle, onReleaseSession, hhandler, hstate]
        apply And.intro rfl
        funext sid
        rw [Function.update_apply, hsessions]
        rfl
    | _ => exact hpipeline.elim
  agrees_iff := fun {protocol state received} hrelated hpipeline => by
    obtain ⟨sender, message⟩ := received
    obtain ⟨hstate, hsessions⟩ := hrelated
    rw [not_false_eq_true, iff_true]
    cases message with
    | assignLayers sessionId modelId layerRange totalLayers modelSource nextPeer initiatorPeer =>
        rfl
    | activationTensor sessionId tokenPosition data shape dtype =>
        simp only [messageRoutes, handle, onActivationTensor, hhandler, hsessions, hstate,
          StageProtocol.answer]
        cases assignedSession protocol.2 sessionId with
        | none =>
            cases (handler.forwardLayers protocol.1 data shape dtype.toU8 tokenPosition).1 <;> rfl
        | some session =>
            cases (handler.forwardLayers protocol.1 data shape dtype.toU8 tokenPosition).1 with
            | error e => rfl
            | ok output => exact (routes_routeOutput session tokenPosition dtype output).symm
    | releaseSession sessionId => rfl
    | _ => exact hpipeline.elim

end PipelineWorker

/-! ## The daemon -/

namespace MeshWorkerDaemon

variable {H : Type*} (daemon : MeshWorkerDaemon H)

/-- The daemon's handler state behind a message. -/
def afterMessage (state : H) (received : Envelope) : H :=
  (daemon.handle state received.1 received.2).handler

/-- Where the daemon sends what in reaction to a message. -/
def messageRoutes (state : H) (received : Envelope) : List Route :=
  routes (daemon.handle state received.1 received.2).sends

/-- The daemon's routes, message by message. -/
abbrev routeStep : H → Envelope → H × List (List Route) :=
  answering daemon.afterMessage daemon.messageRoutes

variable {daemon}

/-- The output of a stage belongs to a peer exactly if the stage is not the last one and the
peer is its next one. -/
theorem outputRoutes_eq_iff (session : WorkerSession) (peer : NodeId) :
    StageProtocol.outputRoutes session = [(peer, .activation)] ↔
      session.layerRange.stop ≠ session.totalLayers ∧ session.nextPeer = some peer := by
  rw [StageProtocol.outputRoutes]
  split_ifs with hlast
  · simp [hlast]
  · cases session.nextPeer <;> simp [hlast]

/-- The daemon is in lockstep with the protocol, and where it departs from it. -/
theorem lockstep_protocol {handler : MeshPipelineHandler H}
    (hhandler : daemon.pipelineHandler = some handler) :
    Lockstep (StageProtocol.next handler) (StageProtocol.answer handler) daemon.afterMessage
      daemon.messageRoutes (fun protocol state => state = protocol.1)
      (fun received => received.2.IsPipeline) (StageProtocol.Departs handler) where
  keeps := fun {protocol state received} hrelated hpipeline => by
    obtain ⟨sender, message⟩ := received
    subst hrelated
    cases message with
    | assignLayers sessionId modelId layerRange totalLayers modelSource nextPeer initiatorPeer =>
        simp only [afterMessage, handle, onAssignLayers, hhandler]
        rfl
    | activationTensor sessionId tokenPosition data shape dtype =>
        simp only [afterMessage, handle, onActivationTensor, hhandler]
        split <;> rfl
    | releaseSession sessionId =>
        simp only [afterMessage, handle, onReleaseSession, hhandler]
        rfl
    | _ => exact hpipeline.elim
  agrees_iff := fun {protocol state received} hrelated hpipeline => by
    obtain ⟨sender, message⟩ := received
    subst hrelated
    cases message with
    | assignLayers sessionId modelId layerRange totalLayers modelSource nextPeer initiatorPeer =>
        simp only [messageRoutes, handle, onAssignLayers, hhandler]
        apply iff_of_true _ id
        cases (handler.loadLayers protocol.1 modelSource layerRange totalLayers).1 <;> rfl
    | activationTensor sessionId tokenPosition data shape dtype =>
        simp only [messageRoutes, handle, onActivationTensor, hhandler, StageProtocol.answer,
          StageProtocol.Departs]
        cases (handler.forwardLayers protocol.1 data shape dtype.toU8 tokenPosition).1 with
        | error e => cases assignedSession protocol.2 sessionId <;> simp [routes]
        | ok output =>
            cases assignedSession protocol.2 sessionId with
            | none => simp [routes]
            | some session =>
                rw [not_not]
                simpa [routes, MeshMessage.stageMessage] using outputRoutes_eq_iff session sender
    | releaseSession sessionId =>
        simp only [messageRoutes, handle, onReleaseSession, hhandler]
        exact iff_of_true rfl id
    | _ => exact hpipeline.elim

end MeshWorkerDaemon

/-! ## Worker and daemon -/

/-- **Worker and daemon.** On every sequence of pipeline messages the worker sends what the
protocol says, and the daemon sends the same kinds of messages to the same peers exactly if
no message arrives on which it departs from the protocol. -/
theorem worker_daemon_routes_iff {H : Type*} {worker : PipelineWorker H}
    {daemon : MeshWorkerDaemon H} {handler : MeshPipelineHandler H}
    (hworker : worker.pipelineHandler = some handler)
    (hdaemon : daemon.pipelineHandler = some handler) (state : H) {received : List Envelope}
    (hpipeline : ∀ e ∈ received, e.2.IsPipeline) :
    (run worker.routeStep (PipelineWorker.initialState state) received).2 =
        (run (StageProtocol.step handler) (state, []) received).2 ∧
      ((run daemon.routeStep state received).2 =
          (run worker.routeStep (PipelineWorker.initialState state) received).2 ↔
        ¬ Meets (StageProtocol.step handler) (StageProtocol.Departs handler) (state, [])
          received) := by
  have hfollows : (run (StageProtocol.step handler) (state, []) received).2 =
      (run worker.routeStep (PipelineWorker.initialState state) received).2 :=
    ((PipelineWorker.lockstep_protocol hworker).run_eq_iff ⟨rfl, rfl⟩ hpipeline).mpr
      (not_meets_false _ _ _)
  apply And.intro hfollows.symm
  rw [← hfollows, eq_comm]
  exact (MeshWorkerDaemon.lockstep_protocol hdaemon).run_eq_iff rfl hpipeline

/-- A worker on the copying handler. -/
def copyingWorker : PipelineWorker Unit where
  localId := .ofByte 2
  pipelineHandler := some PipelineInitiator.copyingHandler
  sha256 := id

/-- A daemon on the copying handler. -/
def copyingDaemon : MeshWorkerDaemon Unit where
  handler := ⟨fun _ _ _ _ => .ok []⟩
  pipelineHandler := some PipelineInitiator.copyingHandler

/-- Peer 1 assigns the first of two layers with peer 3 as the next stage, which sends an
activation back. -/
def returnedActivation : List Envelope :=
  [(.ofByte 1, .assignLayers 7 "model" ⟨0, 1⟩ 2 "source" (some (.ofByte 3)) (.ofByte 1)),
    (.ofByte 3, .activationTensor 7 0 [1, 2] [1] .f32),
    (.ofByte 1, .releaseSession 7)]

theorem worker_daemon_routes_iff_returned :
    (run copyingWorker.routeStep (PipelineWorker.initialState ()) returnedActivation).2 =
        (run (StageProtocol.step PipelineInitiator.copyingHandler) ((), []) returnedActivation).2 ∧
      ((run copyingDaemon.routeStep () returnedActivation).2 =
          (run copyingWorker.routeStep (PipelineWorker.initialState ()) returnedActivation).2 ↔
        ¬ Meets (StageProtocol.step PipelineInitiator.copyingHandler)
          (StageProtocol.Departs PipelineInitiator.copyingHandler) ((), []) returnedActivation) :=
  worker_daemon_routes_iff rfl rfl () (by simp [returnedActivation, MeshMessage.IsPipeline])

/-- Behind a plan of one stage, the worker sends logits to the initiator, and the daemon
returns an activation. -/
theorem last_stage_sends_no_logits :
    let onlyStage : List Envelope :=
      [(.ofByte 1, .assignLayers 7 "model" ⟨0, 1⟩ 1 "source" none (.ofByte 1)),
        (.ofByte 1, .activationTensor 7 0 [1, 2] [1] .f32)]
    (run copyingWorker.routeStep (PipelineWorker.initialState ()) onlyStage).2 =
        [[(.ofByte 1, .acknowledgement)], [(.ofByte 1, .logits)]] ∧
      (run copyingDaemon.routeStep () onlyStage).2 =
        [[(.ofByte 1, .acknowledgement)], [(.ofByte 1, .activation)]] :=
  ⟨by decide, by decide⟩

end HiveBear.Mesh
