/-
# The CLI's pipeline handler

The handler keeps a single slot for the loaded stage, next to the orchestrator
that owns the models. Loading overwrites the slot, a forward pass reads it, and
unloading empties it. Neither is told for which session it is done.

The orchestrator and the inference engines behind it are a parameter: nothing
below depends on what loading or running a model does.
-/

import HiveBear.Mesh.Pipeline.Worker

namespace HiveBear.Cli

open IntervalTiling Mesh

/-- Element type of an activation. -/
inductive ActivationDtype
  | f32
  | f16
  | bf16
  deriving DecidableEq

/-- An activation as the inference engines take it. -/
structure ActivationData where
  data : List UInt8
  shape : List ℕ
  dtype : ActivationDtype

/-- The layers of a model that a pipeline stage holds. -/
structure PipelineStageConfig where
  layerRange : Range
  totalLayers : ℕ
  deriving DecidableEq

/-- How to load a model. -/
structure LoadConfig where
  contextLength : ℕ
  pipelineStage : Option PipelineStageConfig
  useMmap : Bool

/-- The orchestrator's functions over its state, with model handles of any type. -/
structure Orchestrator (O Handle : Type*) where
  /-- The path of a model exists. -/
  pathExists : O → String → Bool
  load : O → String → LoadConfig → Except String Handle × O
  unload : O → Handle → Except String Unit × O
  /-- The registry has a backend for the engine that loaded the model. -/
  hasBackend : O → Handle → Bool
  forwardPartial : O → Handle → ActivationData → PipelineStageConfig → ℕ →
    Except String ActivationData × O

/-- State for a loaded pipeline stage. -/
structure PipelineState (Handle : Type*) where
  handle : Handle
  layerRange : Range
  totalLayers : ℕ
  deriving DecidableEq

/-- The handler's state: the orchestrator's, and the slot of the loaded stage. -/
structure HandlerState (O Handle : Type*) where
  orchestrator : O
  state : Option (PipelineState Handle)

namespace CliPipelineHandler

variable {O Handle : Type*} (orchestrator : Orchestrator O Handle)

/-- Load a stage into the slot. A stage that was there before is dropped. -/
def loadLayers (s : HandlerState O Handle) (modelSource : String) (layerRange : Range)
    (totalLayers : ℕ) : Except String Unit × HandlerState O Handle :=
  if !orchestrator.pathExists s.orchestrator modelSource then
    (.error s!"Model not found: {modelSource}", s)
  else
    let loadConfig : LoadConfig := ⟨4096, some ⟨layerRange, totalLayers⟩, true⟩
    match orchestrator.load s.orchestrator modelSource loadConfig with
    | (.error e, o) => (.error s!"Failed to load layers: {e}", { s with orchestrator := o })
    | (.ok handle, o) => (.ok (), ⟨o, some ⟨handle, layerRange, totalLayers⟩⟩)

/-- The dtype of a tag; unknown tags are taken for F32. -/
def dtypeOfTag (tag : UInt8) : ActivationDtype :=
  if tag = 0 then .f32 else if tag = 1 then .f16 else if tag = 2 then .bf16 else .f32

/-- The tag of a dtype. -/
def tagOfDtype : ActivationDtype → UInt8
  | .f32 => 0
  | .f16 => 1
  | .bf16 => 2

/-- Run a forward pass through a loaded stage. -/
def forwardThrough (s : HandlerState O Handle) (stage : PipelineState Handle)
    (activationData : List UInt8) (shape : List ℕ) (dtype : UInt8) (indexPos : ℕ) :
    Except String (List UInt8 × List ℕ × UInt8) × HandlerState O Handle :=
  let input : ActivationData := ⟨activationData, shape, dtypeOfTag dtype⟩
  let stageConfig : PipelineStageConfig := ⟨stage.layerRange, stage.totalLayers⟩
  if !orchestrator.hasBackend s.orchestrator stage.handle then
    (.error "Backend not found for loaded model", s)
  else
    match orchestrator.forwardPartial s.orchestrator stage.handle input stageConfig indexPos with
    | (.error e, o) => (.error s!"Forward pass failed: {e}", { s with orchestrator := o })
    | (.ok output, o) =>
        (.ok (output.data, output.shape, tagOfDtype output.dtype), { s with orchestrator := o })

/-- Run a forward pass through the stage in the slot. -/
def forwardLayers (s : HandlerState O Handle) (activationData : List UInt8) (shape : List ℕ)
    (dtype : UInt8) (indexPos : ℕ) :
    Except String (List UInt8 × List ℕ × UInt8) × HandlerState O Handle :=
  match s.state with
  | none => (.error "No layers loaded — call load_layers first", s)
  | some stage => forwardThrough orchestrator s stage activationData shape dtype indexPos

/-- Empty the slot and unload the model that was in it. -/
def unloadLayers (s : HandlerState O Handle) : Except String Unit × HandlerState O Handle :=
  match s.state with
  | none => (.ok (), s)
  | some stage =>
      match orchestrator.unload s.orchestrator stage.handle with
      | (.error e, o) => (.error s!"Unload failed: {e}", ⟨o, none⟩)
      | (.ok _, o) => (.ok (), ⟨o, none⟩)

/-- The handler that a worker of the CLI uses. -/
def pipelineHandler : MeshPipelineHandler (HandlerState O Handle) where
  loadLayers := loadLayers orchestrator
  forwardLayers := forwardLayers orchestrator
  unloadLayers := unloadLayers orchestrator

/-! ## What happens to the slot -/

variable (s : HandlerState O Handle)

/-- The model is missing, or the orchestrator fails to load it. -/
def RefusesLoad (modelSource : String) (layerRange : Range) (totalLayers : ℕ) : Prop :=
  orchestrator.pathExists s.orchestrator modelSource = false ∨
    ∃ e, (orchestrator.load s.orchestrator modelSource
      ⟨4096, some ⟨layerRange, totalLayers⟩, true⟩).1 = .error e

/-- Loading either is refused and leaves the slot alone, or fills it with the
requested range. -/
theorem loadLayers_cases (modelSource : String) (layerRange : Range) (totalLayers : ℕ) :
    (RefusesLoad orchestrator s modelSource layerRange totalLayers ∧
      (∃ e, (loadLayers orchestrator s modelSource layerRange totalLayers).1 = .error e) ∧
      (loadLayers orchestrator s modelSource layerRange totalLayers).2.state = s.state) ∨
    (¬ RefusesLoad orchestrator s modelSource layerRange totalLayers ∧
      (loadLayers orchestrator s modelSource layerRange totalLayers).1 = .ok () ∧
      ∃ stage, (loadLayers orchestrator s modelSource layerRange totalLayers).2.state =
        some stage ∧ stage.layerRange = layerRange) := by
  rw [loadLayers]
  split
  · rename_i hmissing
    exact Or.inl ⟨Or.inl (by simpa using hmissing), ⟨_, rfl⟩, rfl⟩
  · rename_i hexists
    dsimp only
    split
    · rename_i e o hload
      exact Or.inl ⟨Or.inr ⟨e, by rw [hload]⟩, ⟨_, rfl⟩, rfl⟩
    · rename_i handle o hload
      refine Or.inr ⟨?_, rfl, _, rfl, rfl⟩
      rintro (hmissing | ⟨e, herror⟩)
      · exact hexists (by rw [hmissing]; rfl)
      · rw [hload] at herror
        cases herror

/-- A forward pass keeps the slot. -/
theorem state_forwardLayers (activationData : List UInt8) (shape : List ℕ) (dtype : UInt8)
    (indexPos : ℕ) :
    (forwardLayers orchestrator s activationData shape dtype indexPos).2.state = s.state := by
  rw [forwardLayers]
  split
  · rfl
  · rw [forwardThrough]
    split
    · rfl
    · split <;> rfl

/-- Unloading empties the slot, even when the orchestrator reports an error. -/
theorem state_unloadLayers : (unloadLayers orchestrator s).2.state = none := by
  rw [unloadLayers]
  split
  · assumption
  · split <;> rfl

end CliPipelineHandler

end HiveBear.Cli
