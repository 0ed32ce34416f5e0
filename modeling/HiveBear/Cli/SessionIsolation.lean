/-
# Sessions that share a worker

A worker keeps its routing table per session, but the CLI's handler behind it has
one slot for the loaded stage. `acked` records the range last acknowledged to each
session. The two levels agree as long as the slot holds what was acknowledged to
every session that still has a range, and a message is isolated and keeps them in
agreement exactly if it is compatible with what the other sessions hold. An
incompatible assignment silently replaces another session's layers, and a release
of any session unloads them.
-/

import HiveBear.Cli.PipelineHandler
import HiveBear.Library.Run

namespace HiveBear.Cli

open IntervalTiling LabelledRun Mesh

variable {O Handle : Type*}

/-- A worker that uses the CLI's pipeline handler. -/
def cliWorker (orchestrator : Orchestrator O Handle) (localId : NodeId)
    (sha256 : List UInt8 → List UInt8) : PipelineWorker (HandlerState O Handle) :=
  ⟨localId, some (CliPipelineHandler.pipelineHandler orchestrator), sha256⟩

/-- A worker's state with the range last acknowledged to each session. -/
structure WorkerHistory (O Handle : Type*) where
  worker : WorkerState (HandlerState O Handle)
  acked : Uuid → Option Range

/-- The session a pipeline message belongs to. -/
def sessionOf : MeshMessage → Option Uuid
  | .assignLayers sessionId .. => some sessionId
  | .activationTensor sessionId .. => some sessionId
  | .releaseSession sessionId => some sessionId
  | _ => none

/-- The messages acknowledge the session as ready. -/
def acksReady (sessionId : Uuid) (sends : List Envelope) : Bool :=
  sends.any fun e => e.2 = .assignLayersAck sessionId true none

/-- Acknowledged ranges after a message and the worker's replies to it. -/
def ackedAfter (acked : Uuid → Option Range) (sends : List Envelope) :
    MeshMessage → Uuid → Option Range
  | .assignLayers sessionId _ layerRange .. =>
      if acksReady sessionId sends then Function.update acked sessionId (some layerRange) else acked
  | .releaseSession sessionId => Function.update acked sessionId none
  | _ => acked

section Run

variable (orchestrator : Orchestrator O Handle) (localId : NodeId)
  (sha256 : List UInt8 → List UInt8)

/-- The worker receives one message. -/
def receive (history : WorkerHistory O Handle) (envelope : Envelope) : WorkerHistory O Handle :=
  let reaction := (cliWorker orchestrator localId sha256).handle history.worker envelope.1
    envelope.2
  ⟨reaction.state, ackedAfter history.acked reaction.sends envelope.2⟩

/-- Receiving as a labelled step. -/
def Receives (history : WorkerHistory O Handle) (envelope : Envelope)
    (next : WorkerHistory O Handle) : Prop :=
  next = receive orchestrator localId sha256 history envelope

/-- A worker that has not received anything yet. -/
def freshHistory (o : O) : WorkerHistory O Handle :=
  ⟨PipelineWorker.initialState ⟨o, none⟩, fun _ => none⟩

/-- What the other sessions hold does not stand in a message's way: an assignment is
refused, or is of the range that every other session with a range holds as well;
an activation is of a session with a range, unless no session has one; a release
finds no other session with a range. -/
def Compatible (history : WorkerHistory O Handle) (envelope : Envelope) : Prop :=
  match envelope.2 with
  | .assignLayers sessionId _ layerRange totalLayers modelSource _ _ =>
      CliPipelineHandler.RefusesLoad orchestrator history.worker.handler modelSource layerRange
          totalLayers ∨
        ∀ other ≠ sessionId, ∀ range, history.acked other = some range → range = layerRange
  | .activationTensor sessionId .. =>
      history.acked sessionId = none → ∀ other, history.acked other = none
  | .releaseSession sessionId => ∀ other ≠ sessionId, history.acked other = none
  | _ => True

/-- An activation runs through the stage in the slot, which is the one
acknowledged to its session; without an acknowledged stage it runs through
nothing. A release leaves the slot alone if another session is being served. -/
def Isolated (history : WorkerHistory O Handle) (envelope : Envelope) : Prop :=
  match envelope.2 with
  | .activationTensor sessionId tokenPosition data shape dtype =>
      match history.acked sessionId with
      | some layerRange =>
          ∃ stage, history.worker.handler.state = some stage ∧ stage.layerRange = layerRange ∧
            CliPipelineHandler.forwardLayers orchestrator history.worker.handler data shape
                dtype.toU8 tokenPosition =
              CliPipelineHandler.forwardThrough orchestrator history.worker.handler stage data
                shape dtype.toU8 tokenPosition
      | none =>
          history.worker.handler.state = none ∧
            ∃ message, (CliPipelineHandler.forwardLayers orchestrator history.worker.handler data
              shape dtype.toU8 tokenPosition).1 = .error message
  | .releaseSession sessionId =>
      ∀ other ≠ sessionId, history.acked other ≠ none →
        (receive orchestrator localId sha256 history envelope).worker.handler.state =
          history.worker.handler.state
  | _ => True

/-- The slot holds what was acknowledged: the range of the session that has one,
and nothing if there is none. -/
structure SlotAgrees (history : WorkerHistory O Handle) : Prop where
  acked_slot : ∀ sessionId layerRange, history.acked sessionId = some layerRange →
    history.worker.handler.state.map PipelineState.layerRange = some layerRange
  slot_acked : (∀ sessionId, history.acked sessionId = none) →
    history.worker.handler.state = none

theorem slotAgrees_freshHistory (o : O) : SlotAgrees (freshHistory o : WorkerHistory O Handle) where
  acked_slot := fun _ _ h => nomatch h
  slot_acked := fun _ => rfl

end Run

/-! ## One message -/

section Message

variable (orchestrator : Orchestrator O Handle) (localId : NodeId)
  (sha256 : List UInt8 → List UInt8) (history : WorkerHistory O Handle)

/-- An assignment either is refused and changes nothing, or fills the slot with the
range it acknowledges. -/
theorem receive_assignLayers (sender : NodeId) (sessionId : Uuid) (modelId : String)
    (layerRange : Range) (totalLayers : ℕ) (modelSource : String) (nextPeer : Option NodeId)
    (initiatorPeer : NodeId) :
    let next := receive orchestrator localId sha256 history (sender,
      .assignLayers sessionId modelId layerRange totalLayers modelSource nextPeer initiatorPeer)
    let refused := CliPipelineHandler.RefusesLoad orchestrator history.worker.handler modelSource
      layerRange totalLayers
    (refused ∧ next.worker.handler.state = history.worker.handler.state ∧
        next.acked = history.acked) ∨
      (¬ refused ∧ next.worker.handler.state.map PipelineState.layerRange = some layerRange ∧
        next.acked = Function.update history.acked sessionId (some layerRange)) := by
  rcases CliPipelineHandler.loadLayers_cases orchestrator
    history.worker.handler modelSource layerRange totalLayers with
    ⟨hrefused, ⟨e, hresult⟩, hslot⟩ | ⟨hloaded, hresult, stage, hslot, hrange⟩
  · refine Or.inl ⟨hrefused, hslot, ?_⟩
    simp [receive, cliWorker, PipelineWorker.handle, PipelineWorker.onAssignLayers,
      CliPipelineHandler.pipelineHandler, ackedAfter, acksReady, hresult]
  · refine Or.inr ⟨hloaded, ?_, ?_⟩
    · have hrange' := congrArg (Option.map PipelineState.layerRange) hslot
      rw [Option.map_some, hrange] at hrange'
      exact hrange'
    · simp [receive, cliWorker, PipelineWorker.handle, PipelineWorker.onAssignLayers,
        CliPipelineHandler.pipelineHandler, ackedAfter, acksReady, hresult]

/-- An activation keeps the slot and the acknowledged ranges. -/
theorem receive_activationTensor (sender : NodeId) (sessionId : Uuid) (tokenPosition : ℕ)
    (data : List UInt8) (shape : List ℕ) (dtype : TensorDtype) :
    let next := receive orchestrator localId sha256 history
      (sender, .activationTensor sessionId tokenPosition data shape dtype)
    next.worker.handler.state = history.worker.handler.state ∧ next.acked = history.acked := by
  have hkept := CliPipelineHandler.state_forwardLayers orchestrator
    history.worker.handler data shape dtype.toU8 tokenPosition
  refine ⟨?_, rfl⟩
  rw [← hkept]
  simp only [receive, cliWorker, PipelineWorker.handle, PipelineWorker.onActivationTensor,
    CliPipelineHandler.pipelineHandler]
  split <;> rfl

/-- A release empties the slot and forgets what the session was acknowledged. -/
theorem receive_releaseSession (sender : NodeId) (sessionId : Uuid) :
    let next := receive orchestrator localId sha256 history (sender, .releaseSession sessionId)
    next.worker.handler.state = none ∧
      next.acked = Function.update history.acked sessionId none :=
  ⟨CliPipelineHandler.state_unloadLayers orchestrator history.worker.handler, rfl⟩

/-- Messages of no session keep the slot and the acknowledged ranges. -/
theorem receive_of_sessionOf_eq_none (sender : NodeId) {message : MeshMessage}
    (h : sessionOf message = none) :
    let next := receive orchestrator localId sha256 history (sender, message)
    next.worker.handler.state = history.worker.handler.state ∧ next.acked = history.acked := by
  cases message <;> first | exact ⟨rfl, rfl⟩ | cases h

end Message

variable {orchestrator : Orchestrator O Handle} {localId : NodeId}
  {sha256 : List UInt8 → List UInt8} {history : WorkerHistory O Handle} {envelope : Envelope}

/-- A state with the same slot and the same acknowledged ranges agrees as well. -/
theorem SlotAgrees.of_eq {next : WorkerHistory O Handle} (hslot : SlotAgrees history)
    (h : next.worker.handler.state = history.worker.handler.state ∧
      next.acked = history.acked) :
    SlotAgrees next where
  acked_slot sessionId layerRange hacked := by
    rw [h.1]
    exact hslot.acked_slot sessionId layerRange (h.2 ▸ hacked)
  slot_acked hnobody := by
    rw [h.1]
    exact hslot.slot_acked (h.2 ▸ hnobody)

/-- A slot that is filled with a range agrees exactly if every other session with a
range holds the same. -/
theorem slotAgrees_iff_of_assigned {next : WorkerHistory O Handle} {sessionId : Uuid}
    {layerRange : Range}
    (hfilled : next.worker.handler.state.map PipelineState.layerRange = some layerRange)
    (hacked : next.acked = Function.update history.acked sessionId (some layerRange)) :
    SlotAgrees next ↔
      ∀ other ≠ sessionId, ∀ range, history.acked other = some range → range = layerRange := by
  refine ⟨fun hslot other hother range hrange => ?_, fun hothers => ?_⟩
  · have hheld := hslot.acked_slot other range
      (by rw [hacked, Function.update_of_ne hother, hrange])
    rw [hfilled] at hheld
    exact (Option.some.inj hheld).symm
  · refine ⟨fun other range hrange => ?_, fun hnobody => ?_⟩
    · rw [hacked] at hrange
      by_cases hother : other = sessionId
      · rw [hother, Function.update_self] at hrange
        rw [hfilled, hrange]
      · rw [Function.update_of_ne hother] at hrange
        rw [hfilled, hothers other hother range hrange]
    · have hself := hnobody sessionId
      rw [hacked, Function.update_self] at hself
      cases hself

/-- While the slot agrees, an activation is isolated exactly if its session has a
range or no session has one. -/
theorem isolated_activationTensor_iff (hslot : SlotAgrees history) (sender : NodeId)
    (sessionId : Uuid) (tokenPosition : ℕ) (data : List UInt8) (shape : List ℕ)
    (dtype : TensorDtype) :
    Isolated orchestrator localId sha256 history
        (sender, .activationTensor sessionId tokenPosition data shape dtype) ↔
      (history.acked sessionId = none → ∀ other, history.acked other = none) := by
  simp only [Isolated]
  cases hacked : history.acked sessionId with
  | some layerRange =>
      obtain ⟨stage, hstage, hrange⟩ := Option.map_eq_some_iff.mp
        (hslot.acked_slot sessionId layerRange hacked)
      refine ⟨fun _ hnone => (nomatch hnone), fun _ => ⟨stage, hstage, hrange, ?_⟩⟩
      rw [CliPipelineHandler.forwardLayers, hstage]
  | none =>
      refine ⟨fun hisolated _ other => ?_, fun hnobody => ?_⟩
      · -- a range held by another session would be in the slot
        cases hother : history.acked other with
        | none => rfl
        | some range =>
            have hheld := hslot.acked_slot other range hother
            rw [hisolated.1] at hheld
            cases hheld
      · have hempty := hslot.slot_acked (hnobody rfl)
        refine ⟨hempty, "No layers loaded — call load_layers first", ?_⟩
        rw [CliPipelineHandler.forwardLayers, hempty]

/-- While the slot agrees, a release is isolated exactly if no other session has a
range. -/
theorem isolated_releaseSession_iff (hslot : SlotAgrees history) (sender : NodeId)
    (sessionId : Uuid) :
    Isolated orchestrator localId sha256 history (sender, .releaseSession sessionId) ↔
      ∀ other ≠ sessionId, history.acked other = none := by
  have hreleased := (receive_releaseSession orchestrator localId sha256 history sender sessionId).1
  refine ⟨fun hisolated other hother => ?_, fun hothers other hother hacked => ?_⟩
  · cases hacked : history.acked other with
    | none => rfl
    | some range =>
        have hheld := hslot.acked_slot other range hacked
        have hkept := hisolated other hother (by rw [hacked]; exact Option.some_ne_none range)
        rw [← hkept, hreleased] at hheld
        cases hheld
  · exact absurd (hothers other hother) hacked

/-- While the slot agrees, a message is isolated and keeps the slot in agreement
exactly if it is compatible with what the other sessions hold. -/
theorem isolated_and_slotAgrees_receive_iff (hslot : SlotAgrees history) :
    Isolated orchestrator localId sha256 history envelope ∧
        SlotAgrees (receive orchestrator localId sha256 history envelope) ↔
      Compatible orchestrator history envelope := by
  obtain ⟨sender, message⟩ := envelope
  cases message with
  | assignLayers sessionId modelId layerRange totalLayers modelSource nextPeer initiatorPeer =>
      rw [Isolated, true_and]
      rcases receive_assignLayers orchestrator localId sha256 history sender sessionId modelId
        layerRange totalLayers modelSource nextPeer initiatorPeer with
        ⟨hrefused, hsame⟩ | ⟨hloaded, hfilled, hacked⟩
      · exact iff_of_true (hslot.of_eq hsame) (Or.inl hrefused)
      · rw [slotAgrees_iff_of_assigned hfilled hacked]
        exact (or_iff_right hloaded).symm
  | activationTensor sessionId tokenPosition data shape dtype =>
      have hsame := receive_activationTensor orchestrator localId sha256 history sender
        sessionId tokenPosition data shape dtype
      rw [and_iff_left (hslot.of_eq hsame), isolated_activationTensor_iff hslot, Compatible]
  | releaseSession sessionId =>
      rw [isolated_releaseSession_iff hslot, Compatible]
      apply and_iff_left_of_imp
      intro hothers
      obtain ⟨hempty, hacked⟩ := receive_releaseSession orchestrator localId sha256 history
        sender sessionId
      refine ⟨fun other range hrange => ?_, fun _ => hempty⟩
      rw [hacked] at hrange
      by_cases hother : other = sessionId
      · rw [hother, Function.update_self] at hrange
        cases hrange
      · rw [Function.update_of_ne hother, hothers other hother] at hrange
        cases hrange
  | _ =>
      exact iff_of_true ⟨trivial, hslot.of_eq (receive_of_sessionOf_eq_none orchestrator localId
        sha256 history sender rfl)⟩ trivial

/-! ## Runs of messages -/

/-- An orchestrator for concrete examples: it loads anything and returns the
activation it is given. -/
def echoOrchestrator : Orchestrator Unit Unit where
  pathExists _ _ := true
  load o _ _ := (.ok (), o)
  unload o _ := (.ok (), o)
  hasBackend _ _ := true
  forwardPartial o _ input _ _ := (.ok input, o)

/-- The echoing worker receives a message from node 9. -/
def echoReceive (history : WorkerHistory Unit Unit) (message : MeshMessage) :
    WorkerHistory Unit Unit :=
  receive echoOrchestrator (.ofByte 1) id history (.ofByte 9, message)

/-- Session `sessionId` is assigned `layerRange` of 32 layers. -/
def exampleAssign (sessionId : Uuid) (layerRange : Range) : MeshMessage :=
  .assignLayers sessionId "test-model" layerRange 32 "model.gguf" none (.ofByte 9)

end HiveBear.Cli
