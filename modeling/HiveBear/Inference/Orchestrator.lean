/-
# Loading models

The orchestrator picks an engine for a model, loads it, and remembers under the id of the
handle which engine has it. If no local engine can be had, or the local engine fails, the
model is loaded by the mesh instead, as long as a mesh backend is registered.
-/

import HiveBear.Core.Types
import Mathlib.Logic.Function.Basic
import Mathlib.Data.Nat.Notation
import Mathlib.Tactic.SplitIfs

namespace HiveBear.Inference

/-- A loaded model. -/
structure ModelHandle where
  id : ℕ
  modelPath : String
  engine : InferenceEngine
  deriving DecidableEq

/-- The errors of a load. -/
inductive InferenceError
  | unsupportedFormat (message : String)
  | noEngineAvailable (format : String)
  | engineNotCompiled (engine : String)
  | loadError (message : String)
  | generationError (message : String)
  | io (message : String)

structure OffloadConfig where
  gpuLayers : Option ℕ
  auto : Bool

structure LoadConfig where
  contextLength : ℕ
  offload : OffloadConfig

structure ModelInfo where
  handleId : ℕ
  modelPath : String
  engine : InferenceEngine
  contextLength : ℕ
  gpuLayers : Option ℕ

inductive OrchestratorEvent
  | meshFallback (reason model : String)

/-- An engine, and what it answers when it is to load a model. -/
structure InferenceBackend where
  engineId : InferenceEngine
  isAvailable : Bool
  isStub : Bool
  supportedFormats : List ModelFormat
  loadModel : String → LoadConfig → Except InferenceError ModelHandle

/-! ## The registered engines -/

/-- The backends, in the order in which they are registered. -/
abbrev EngineRegistry := List InferenceBackend

namespace EngineRegistry

variable (registry : EngineRegistry)

/-- An engine, which may be a stub. -/
def get (engine : InferenceEngine) : Option InferenceBackend :=
  List.find? (fun backend => backend.engineId = engine ∧ backend.isAvailable) registry

/-- An engine that is no stub. -/
def getReal (engine : InferenceEngine) : Option InferenceBackend :=
  List.find? (fun backend => backend.engineId = engine ∧ backend.isAvailable ∧ !backend.isStub)
    registry

/-- The best engine for a format. -/
def findForFormat (format : ModelFormat) : Option InferenceBackend :=
  [InferenceEngine.llamaCpp, .candle, .onnxRuntime, .mlx].findSome? fun engine =>
    List.find? (fun backend => backend.engineId = engine ∧ backend.isAvailable ∧
      !backend.isStub ∧ backend.supportedFormats.contains format) registry

/-- The engines that are tried first for a format. -/
def enginesFor : ModelFormat → List InferenceEngine
  | .gguf => [.llamaCpp, .candle]
  | .safeTensors => [.candle]
  | .onnx => [.onnxRuntime]
  | .mlx => [.mlx]

def supporting (format : ModelFormat) (backend : Option InferenceBackend) :
    Option InferenceBackend :=
  backend.filter fun backend => backend.supportedFormats.contains format

/-- The engine for a format. -/
def selectEngine (format : ModelFormat) : Except InferenceError InferenceBackend :=
  let preferred := (enginesFor format).findSome? fun engine =>
    supporting format (registry.getReal engine)
  let other := (registry.findForFormat format).or (supporting format (registry.getReal .mesh))
  match preferred.or other with
  | some backend => .ok backend
  | none => .error (.noEngineAvailable format.display)

end EngineRegistry

/-! ## The orchestrator -/

/-- What the orchestrator remembers. -/
structure Orchestrator where
  handleBackends : ℕ → Option InferenceEngine
  modelInfo : ℕ → Option ModelInfo
  meshRegistered : Bool
  events : List OrchestratorEvent

/-- What a load finds: the backends with their answers, and the file of the model. -/
structure LoadSurroundings where
  registry : EngineRegistry
  detectFormat : String → Except InferenceError ModelFormat
  /-- The size of a file, or 0. -/
  modelSize : String → ℕ
  /-- The split for a size and a context length. -/
  calculateOffload : ℕ → ℕ → OffloadConfig

namespace Orchestrator

variable (orchestrator : Orchestrator) (surroundings : LoadSurroundings)

/-- Note an event; only the last 16 are kept. -/
def emitEvent (event : OrchestratorEvent) : Orchestrator :=
  let kept := if 16 ≤ orchestrator.events.length then orchestrator.events.drop 1
    else orchestrator.events
  { orchestrator with events := kept ++ [event] }

def trackLoadedModel (handle : ModelHandle) (path : String) (engine : InferenceEngine)
    (config : LoadConfig) : Orchestrator :=
  { orchestrator with
    handleBackends := Function.update orchestrator.handleBackends handle.id (some engine)
    modelInfo := Function.update orchestrator.modelInfo handle.id
      (some ⟨handle.id, path, engine, config.contextLength, config.offload.gpuLayers⟩) }

/-- The mesh backend, if the orchestrator may fall back to it. -/
def meshFallback : Option InferenceBackend :=
  if orchestrator.meshRegistered then surroundings.registry.get .mesh else none

/-- The configuration of a load, with the split that fits the file. -/
def loadConfigFor (surroundings : LoadSurroundings) (path : String) (config : LoadConfig) :
    LoadConfig :=
  if config.offload.auto ∧ config.offload.gpuLayers = none ∧ 0 < surroundings.modelSize path then
    { config with
      offload := surroundings.calculateOffload (surroundings.modelSize path) config.contextLength }
  else config

/-- Why a load fails, as it is shown. -/
def describe : InferenceError → String
  | .unsupportedFormat message => s!"Unsupported model format: {message}"
  | .noEngineAvailable format =>
      s!"No usable inference engine for format '{format}' on this platform " ++
        "(this build has no real backend compiled in for it). Update or reinstall HiveBear."
  | .engineNotCompiled engine => s!"Engine '{engine}' is not compiled in (missing feature flag)"
  | .loadError message => s!"Failed to load model: {message}"
  | .generationError message => s!"Generation failed: {message}"
  | .io message => s!"IO error: {message}"

/-- Load with the backend that has been chosen, or else with the mesh. -/
def loadWith (backend : InferenceBackend) (path : String) (config : LoadConfig) :
    Orchestrator × Except InferenceError ModelHandle :=
  match backend.loadModel path config with
  | .ok handle => (orchestrator.trackLoadedModel handle path backend.engineId config, .ok handle)
  | .error loadErr =>
      if backend.engineId = .mesh then (orchestrator, .error loadErr)
      else
        match orchestrator.meshFallback surroundings with
        | none => (orchestrator, .error loadErr)
        | some mesh =>
            let noted := orchestrator.emitEvent
              (.meshFallback s!"Local load failed: {describe loadErr}" path)
            match mesh.loadModel path config with
            | .ok handle => (noted.trackLoadedModel handle path mesh.engineId config, .ok handle)
            | .error e => (noted, .error e)

/-- Load a model. -/
def load (path : String) (config : LoadConfig) :
    Orchestrator × Except InferenceError ModelHandle :=
  match surroundings.detectFormat path with
  | .error e => (orchestrator, .error e)
  | .ok format =>
      let loadConfig := loadConfigFor surroundings path config
      match surroundings.registry.selectEngine format with
      | .ok backend => orchestrator.loadWith surroundings backend path loadConfig
      | .error localErr =>
          match orchestrator.meshFallback surroundings with
          | none => (orchestrator, .error localErr)
          | some mesh =>
              let noted := orchestrator.emitEvent
                (.meshFallback s!"No suitable local engine: {describe localErr}" path)
              noted.loadWith surroundings mesh path loadConfig

/-- Load a model of a cloud provider. -/
def loadCloud (modelName : String) (config : LoadConfig) :
    Orchestrator × Except InferenceError ModelHandle :=
  match surroundings.registry.get .cloud with
  | none => (orchestrator, .error (.noEngineAvailable "cloud"))
  | some backend =>
      match backend.loadModel modelName config with
      | .error e => (orchestrator, .error e)
      | .ok handle =>
          (orchestrator.trackLoadedModel handle modelName backend.engineId ⟨128000, ⟨none, true⟩⟩,
            .ok handle)

end Orchestrator

/-! ## What a load leaves -/

namespace Orchestrator

variable {orchestrator : Orchestrator} {surroundings : LoadSurroundings}

/-- How the memory of loaded models changes with an answer: a handle that is given out is
remembered, and otherwise nothing changes. -/
def Remembers (before : Orchestrator) :
    Orchestrator × Except InferenceError ModelHandle → Prop
  | (after, .ok handle) =>
      ∃ info : ModelInfo, info.handleId = handle.id ∧
        after.handleBackends = Function.update before.handleBackends handle.id (some info.engine) ∧
        after.modelInfo = Function.update before.modelInfo handle.id (some info)
  | (after, .error _) =>
      after.handleBackends = before.handleBackends ∧ after.modelInfo = before.modelInfo

theorem remembers_track {before : Orchestrator}
    (hbackends : orchestrator.handleBackends = before.handleBackends)
    (hinfo : orchestrator.modelInfo = before.modelInfo) (handle : ModelHandle) (path : String)
    (engine : InferenceEngine) (config : LoadConfig) :
    Remembers before (orchestrator.trackLoadedModel handle path engine config, .ok handle) := by
  refine ⟨⟨handle.id, path, engine, config.contextLength, config.offload.gpuLayers⟩, rfl, ?_, ?_⟩
  · exact congrArg (Function.update · handle.id (some engine)) hbackends
  · exact congrArg (Function.update · handle.id _) hinfo

theorem remembers_loadWith {before : Orchestrator}
    (hbackends : orchestrator.handleBackends = before.handleBackends)
    (hinfo : orchestrator.modelInfo = before.modelInfo) (backend : InferenceBackend)
    (path : String) (config : LoadConfig) :
    Remembers before (orchestrator.loadWith surroundings backend path config) := by
  rw [loadWith]
  split
  · exact remembers_track hbackends hinfo ..
  · split_ifs
    · exact ⟨hbackends, hinfo⟩
    · split
      · exact ⟨hbackends, hinfo⟩
      · dsimp only
        split
        · exact @remembers_track (orchestrator.emitEvent _) _ hbackends hinfo ..
        · exact ⟨hbackends, hinfo⟩

/-- **A load remembers exactly the handle that it gives out.** -/
theorem remembers_load (path : String) (config : LoadConfig) :
    Remembers orchestrator (orchestrator.load surroundings path config) := by
  rw [load]
  split
  · exact ⟨rfl, rfl⟩
  · dsimp only
    split
    · exact remembers_loadWith rfl rfl ..
    · split
      · exact ⟨rfl, rfl⟩
      · exact @remembers_loadWith (orchestrator.emitEvent _) _ _ rfl rfl ..

theorem remembers_loadCloud (modelName : String) (config : LoadConfig) :
    Remembers orchestrator (orchestrator.loadCloud surroundings modelName config) := by
  rw [loadCloud]
  split
  · exact ⟨rfl, rfl⟩
  · split
    · exact ⟨rfl, rfl⟩
    · exact remembers_track rfl rfl ..

end Orchestrator

/-! ## What answers a handle -/

/-- Why a handle is not answered: it is not valid, or its engine says why. -/
inductive HandleError
  | invalidHandle
  | engine (error : InferenceError)

namespace Orchestrator

variable (orchestrator : Orchestrator) (registry : EngineRegistry)

/-- The engine that answers a handle, unless the handle is not valid. -/
def getBackend (handle : ModelHandle) : Option InferenceBackend :=
  (orchestrator.handleBackends handle.id).bind registry.get

/-- Forget a handle. -/
def forget (handleId : ℕ) : Orchestrator :=
  { orchestrator with
    handleBackends := Function.update orchestrator.handleBackends handleId none
    modelInfo := Function.update orchestrator.modelInfo handleId none }

/-- Forget a handle, if its engine lets it go. -/
def unload (answer : Except InferenceError Unit) (handle : ModelHandle) :
    Orchestrator × Except HandleError Unit :=
  match orchestrator.getBackend registry handle with
  | none => (orchestrator, .error .invalidHandle)
  | some _ =>
      match answer with
      | .error e => (orchestrator, .error (.engine e))
      | .ok _ => (orchestrator.forget handle.id, .ok ())

theorem unload_of_none {handle : ModelHandle} (h : orchestrator.getBackend registry handle = none)
    (answer : Except InferenceError Unit) :
    (orchestrator.unload registry answer handle).1 = orchestrator := by
  simp only [unload, h]

theorem unload_of_some {handle : ModelHandle} {backend : InferenceBackend}
    (h : orchestrator.getBackend registry handle = some backend)
    (answer : Except InferenceError Unit) :
    (orchestrator.unload registry answer handle).1 =
      if answer.toOption.isSome then orchestrator.forget handle.id else orchestrator := by
  cases answer <;> simp [unload, h, Except.toOption]

end Orchestrator

namespace EngineRegistry

/-- What the registry knows of an engine before it is asked to load anything. -/
structure Face where
  engineId : InferenceEngine
  isAvailable : Bool
  isStub : Bool

/-- The engines in their order. -/
def faces (registry : EngineRegistry) : List Face :=
  List.map (fun backend => ⟨backend.engineId, backend.isAvailable, backend.isStub⟩) registry

/-- The place of an engine. -/
def position (registry : EngineRegistry) (engine : InferenceEngine) : Option ℕ :=
  List.findIdx? (fun backend => backend.engineId = engine ∧ backend.isAvailable) registry

/-- An engine that is no stub is found by its name: no stub of that name is before it, and no
other engine is. -/
def RealFirst (registry : EngineRegistry) : Prop :=
  ∀ backend ∈ registry, backend.isAvailable = true → backend.isStub = false →
    registry.get backend.engineId = some backend

variable {registry registry' : EngineRegistry}

theorem get_eq_position (engine : InferenceEngine) :
    registry.get engine = (registry.position engine).bind fun i => registry[i]? :=
  List.find?_eq_bind_findIdx?_getElem?

/-- Engines have the same places in registries that look the same. -/
theorem position_congr (h : registry.faces = registry'.faces) (engine : InferenceEngine) :
    registry.position engine = registry'.position engine := by
  have hposition (registry : EngineRegistry) : registry.position engine =
      registry.faces.findIdx? fun face => face.engineId = engine ∧ face.isAvailable := by
    rw [faces, List.findIdx?_map]
    rfl
  rw [hposition, hposition, h]

/-- Registries that look the same have the same engines. -/
theorem isSome_get_congr (h : registry.faces = registry'.faces) (engine : InferenceEngine) :
    (registry.get engine).isSome = (registry'.get engine).isSome := by
  have hfound (registry : EngineRegistry) :
      (registry.get engine).isSome = (registry.position engine).isSome := by
    rw [get, position, List.findIdx?_isSome, List.isSome_find?]
  rw [hfound, hfound, position_congr h]

theorem engineId_of_get {engine : InferenceEngine} {backend : InferenceBackend}
    (h : registry.get engine = some backend) : backend.engineId = engine := by
  have hfound := List.find?_some h
  exact (of_decide_eq_true hfound).1

/-- What is selected for a format is an engine of the registry, and no stub. -/
theorem mem_of_selectEngine {format : ModelFormat} {backend : InferenceBackend}
    (h : registry.selectEngine format = .ok backend) :
    backend ∈ registry ∧ backend.isAvailable = true ∧ backend.isStub = false := by
  have hreal {engine : InferenceEngine}
      (hfound : supporting format (registry.getReal engine) = some backend) :
      backend ∈ registry ∧ backend.isAvailable = true ∧ backend.isStub = false := by
    have hget := (Option.filter_eq_some_iff.mp hfound).1
    have hchosen := List.find?_some hget
    obtain ⟨-, havailable, hstub⟩ := of_decide_eq_true hchosen
    exact ⟨List.mem_of_find?_eq_some hget, havailable, by simpa using hstub⟩
  rw [selectEngine] at h
  cases hpreferred : (enginesFor format).findSome? fun engine =>
      supporting format (registry.getReal engine) with
  | some preferred =>
      rw [hpreferred] at h
      cases h
      obtain ⟨engine, -, hfound⟩ := List.exists_of_findSome?_eq_some hpreferred
      exact hreal hfound
  | none =>
      rw [hpreferred] at h
      cases hother : registry.findForFormat format with
      | some other =>
          rw [hother] at h
          cases h
          obtain ⟨engine, -, hfound⟩ := List.exists_of_findSome?_eq_some hother
          have hchosen := List.find?_some hfound
          obtain ⟨-, havailable, hstub, -⟩ := of_decide_eq_true hchosen
          exact ⟨List.mem_of_find?_eq_some hfound, havailable, by simpa using hstub⟩
      | none =>
          rw [hother] at h
          cases hmesh : supporting format (registry.getReal .mesh) with
          | none =>
              rw [hmesh] at h
              cases h
          | some mesh =>
              rw [hmesh] at h
              cases h
              exact hreal hmesh

/-- An engine is found by its name if none before it has the same. -/
theorem realFirst_of_pairwise
    (h : List.Pairwise (fun before backend : InferenceBackend =>
      backend.isStub = false → before.engineId ≠ backend.engineId) registry) :
    registry.RealFirst := by
  intro backend hbackend havailable hreal
  induction registry with
  | nil => cases hbackend
  | cons first rest ih =>
      obtain ⟨hfirst, hrest⟩ := List.pairwise_cons.mp h
      rw [get]
      rcases List.mem_cons.mp hbackend with rfl | hlater
      · exact List.find?_cons_of_pos (decide_eq_true ⟨rfl, havailable⟩)
      · have hother : ¬ (first.engineId = backend.engineId ∧ first.isAvailable = true) :=
          fun hsame => hfirst backend hlater hreal hsame.1
        exact (List.find?_cons_of_neg (by simpa using hother)).trans (ih hrest hlater)

/-- An engine that is compiled in. -/
structure Compiled (engine : InferenceEngine) where
  backend : InferenceBackend
  named : backend.engineId = engine
  real : backend.isStub = false

/-- The engines that a build has, and what the stub answers. -/
structure Build where
  llamaCpp : Option (Compiled .llamaCpp)
  candle : Option (Compiled .candle)
  onnx : Option (Compiled .onnxRuntime)
  dummyLoad : String → LoadConfig → Except InferenceError ModelHandle
  cloud : Option (Compiled .cloud)
  mlx : Option (Compiled .mlx)

/-- The stub, which is in every build. It has no name of its own. -/
def dummyBackend (loadModel : String → LoadConfig → Except InferenceError ModelHandle) :
    InferenceBackend where
  engineId := .candle
  isAvailable := true
  isStub := true
  supportedFormats := [.gguf, .safeTensors]
  loadModel := loadModel

def new (build : Build) : EngineRegistry :=
  (build.llamaCpp.map Compiled.backend).toList ++ (build.candle.map Compiled.backend).toList ++
    (build.onnx.map Compiled.backend).toList ++ [dummyBackend build.dummyLoad] ++
    (build.cloud.map Compiled.backend).toList ++ (build.mlx.map Compiled.backend).toList

/-- The engines of a build, and the mesh if it is registered. -/
def IsBuilt (registry : EngineRegistry) : Prop :=
  ∃ (build : Build) (mesh : Option InferenceBackend),
    (∀ backend ∈ mesh, backend.engineId = .mesh) ∧ registry = new build ++ mesh.toList

/-- **The engines of a build are found by their names**, also when the mesh is registered with
them: the stub has the name of Candle, but stands behind it. -/
theorem IsBuilt.realFirst (h : registry.IsBuilt) : registry.RealFirst := by
  obtain ⟨build, mesh, hmesh, rfl⟩ := h
  let tag (backend : InferenceBackend) : InferenceEngine × Bool := (backend.engineId, backend.isStub)
  have htag {engine : InferenceEngine} (compiled : Option (Compiled engine)) :
      ((compiled.map Compiled.backend).toList.map tag).Sublist [(engine, false)] := by
    cases compiled with
    | none => exact List.nil_sublist _
    | some compiled =>
        have hname : tag compiled.backend = (engine, false) :=
          Prod.ext compiled.named compiled.real
        exact List.singleton_sublist.mpr (List.mem_singleton.mpr hname)
  have hbuild : (List.map tag (new build)).Sublist
      ([(.llamaCpp, false)] ++ [(.candle, false)] ++ [(.onnxRuntime, false)] ++ [(.candle, true)] ++
        [(.cloud, false)] ++ [(.mlx, false)]) := by
    simp only [new, List.map_append]
    exact ((((((htag _).append (htag _)).append (htag _)).append (List.Sublist.refl _)).append
      (htag _)).append (htag _))
  apply realFirst_of_pairwise
  rw [List.pairwise_append]
  refine ⟨?_, ?_, ?_⟩
  · have hpairwise : List.Pairwise (fun before backend : InferenceEngine × Bool =>
        backend.2 = false → before.1 ≠ backend.1) (List.map tag (new build)) :=
      List.Pairwise.sublist hbuild (by decide)
    exact List.pairwise_map.mp hpairwise
  · cases mesh <;> simp
  · intro before hbefore backend hbackend _ hname
    rw [hmesh backend (Option.mem_toList.mp hbackend)] at hname
    have htagged := hbuild.subset (List.mem_map_of_mem hbefore)
    simp [tag, hname] at htagged

end EngineRegistry

namespace Orchestrator

variable {orchestrator : Orchestrator} {surroundings : LoadSurroundings}

/-- A load gives out a handle of an engine, which is remembered under its number. -/
def LoadedBy (registry : EngineRegistry) (path : String) (before after : Orchestrator)
    (handle : ModelHandle) : Prop :=
  ∃ backend config, registry.get backend.engineId = some backend ∧
    backend.loadModel path config = .ok handle ∧
      after.handleBackends =
          Function.update before.handleBackends handle.id (some backend.engineId) ∧
        after.modelInfo = Function.update before.modelInfo handle.id (some
          ⟨handle.id, path, backend.engineId, config.contextLength, config.offload.gpuLayers⟩)

theorem loadedBy_of_loadWith {before after : Orchestrator}
    (hbackends : orchestrator.handleBackends = before.handleBackends)
    (hinfo : orchestrator.modelInfo = before.modelInfo) {backend : InferenceBackend}
    (hget : surroundings.registry.get backend.engineId = some backend) {path : String}
    {config : LoadConfig} {handle : ModelHandle}
    (h : orchestrator.loadWith surroundings backend path config = (after, .ok handle)) :
    LoadedBy surroundings.registry path before after handle := by
  rw [loadWith] at h
  split at h
  · cases h
    exact ⟨backend, config, hget, ‹_›, by rw [← hbackends]; rfl, by rw [← hinfo]; rfl⟩
  · split_ifs at h
    · cases h
    · split at h
      · cases h
      · next hmesh =>
          dsimp only at h
          split at h
          · cases h
            rw [meshFallback] at hmesh
            split_ifs at hmesh
            refine ⟨_, config, ?_, ‹_›, by rw [← hbackends]; rfl, by rw [← hinfo]; rfl⟩
            rw [EngineRegistry.engineId_of_get hmesh]
            exact hmesh
          · cases h

/-- **A load that succeeds remembers the engine that has loaded.** -/
theorem loadedBy_of_load (hreal : surroundings.registry.RealFirst) {after : Orchestrator}
    {path : String} {config : LoadConfig} {handle : ModelHandle}
    (h : orchestrator.load surroundings path config = (after, .ok handle)) :
    LoadedBy surroundings.registry path orchestrator after handle := by
  rw [load] at h
  split at h
  · cases h
  · dsimp only at h
    split at h
    · next hselect =>
        obtain ⟨hmem, havailable, hstub⟩ := EngineRegistry.mem_of_selectEngine hselect
        exact loadedBy_of_loadWith rfl rfl (hreal _ hmem havailable hstub) h
    · split at h
      · cases h
      · next hmesh =>
          rw [meshFallback] at hmesh
          split_ifs at hmesh
          have hget := EngineRegistry.engineId_of_get hmesh
          rw [← hget] at hmesh
          exact @loadedBy_of_loadWith (orchestrator.emitEvent _) _ _ _ rfl rfl _ hmesh _ _ _ h

end Orchestrator

end HiveBear.Inference
