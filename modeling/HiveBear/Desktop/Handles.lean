/-
# Handles in the desktop app

The window names a model by the number of its handle. The backend looks the number up among the
peers that it has been connected to, and then among the models that are loaded. Numbers of models
are counted up; a peer gets a random one behind `2 ^ 63`, so that no model has the same.

The numbers pass through the window, which is written in JavaScript. It knows models by the
numbers that they have, but hardly any peer.
-/

import HiveBear.Inference.MessageWire
import HiveBear.Inference.Orchestrator
import HiveBear.Library.JsNumbers
import HiveBear.Library.Run
import HiveBear.Library.Texts

namespace HiveBear.Desktop

open Inference JsonText LabelledRun

/-! ## Commands about models -/

/-- A peer that answers in the place of a model. -/
structure MeshPeerSession where
  handleId : ℕ
  peerAddr : String
  modelName : String

/-- What the commands about models share. -/
structure Models where
  orchestrator : Orchestrator
  meshPeerConnections : ℕ → Option MeshPeerSession

/-- The code that an error is shown with. -/
def errorCode : InferenceError → String
  | .noEngineAvailable _ => "engine_unavailable"
  | .loadError _ => "load_failed"
  | .generationError _ => "generation_failed"
  | .unsupportedFormat _ | .engineNotCompiled _ | .io _ => "internal"

/-- An error of a command, as the window gets it. -/
def commandError (message code : String) : String :=
  String.ofList (write (jsonObject [("message", jsonString message), ("code", jsonString code)]))

def showHandleError : HandleError → String
  | .invalidHandle => commandError "Invalid model handle (model may have been unloaded)" "internal"
  | .engine e => commandError (Orchestrator.describe e) (errorCode e)

/-- What a chat is answered by. -/
inductive ChatTarget
  | peer (session : MeshPeerSession)
  | engine (backend : InferenceBackend) (handle : ModelHandle)
  | refused (message : String)

namespace Models

variable (models : Models)

def requestedConfig (contextLength gpuLayers : Option ℕ) : LoadConfig where
  contextLength := contextLength.getD 4096
  offload := gpuLayers.elim ⟨none, true⟩ fun layers => ⟨some layers, false⟩

/-- Load a model that the registry has resolved. -/
def loadModel (resolved : Except String String) (surroundings : LoadSurroundings)
    (modelPath : String) (contextLength gpuLayers : Option ℕ) :
    Models × Except String ModelHandle :=
  match resolved with
  | .error e => (models, .error s!"Failed to resolve model '{modelPath}': {e}")
  | .ok path =>
      let (orchestrator, loaded) :=
        models.orchestrator.load surroundings path (requestedConfig contextLength gpuLayers)
      ({ models with orchestrator := orchestrator },
        loaded.mapError fun e => commandError (Orchestrator.describe e) (errorCode e))

/-- The name of a model of a peer. -/
def peerModelName (modelName : Option String) : String :=
  let name := modelName.map fun name => String.ofList (Texts.trim name.toList)
  (name.filter fun name => name ≠ "").getD "Remote Model"

/-- Connect to a peer, by the address that is found for it. -/
def connectMeshPeer (random : UInt32) (address : Except String String)
    (modelName : Option String) : Models × Except String MeshPeerSession :=
  match address with
  | .error e => (models, .error e)
  | .ok peerAddr =>
      let handleId := 2 ^ 63 ||| random.toNat
      let session : MeshPeerSession := ⟨handleId, peerAddr, peerModelName modelName⟩
      ({ models with
          meshPeerConnections :=
            Function.update models.meshPeerConnections handleId (some session) }, .ok session)

def unloadModel (registry : EngineRegistry) (answer : Except InferenceError Unit)
    (handleId : ℕ) : Models × Except String Unit :=
  match models.meshPeerConnections handleId with
  | some _ =>
      ({ models with
          meshPeerConnections := Function.update models.meshPeerConnections handleId none }, .ok ())
  | none =>
      match models.orchestrator.modelInfo handleId with
      | none => (models, .error "Model not loaded")
      | some info =>
          let (orchestrator, unloaded) := models.orchestrator.unload registry answer
            ⟨handleId, info.modelPath, info.engine⟩
          ({ models with orchestrator := orchestrator }, unloaded.mapError showHandleError)

/-- What answers a chat with a handle. -/
def streamChat (registry : EngineRegistry) (handleId : ℕ) : ChatTarget :=
  match models.meshPeerConnections handleId with
  | some session => .peer session
  | none =>
      match models.orchestrator.modelInfo handleId with
      | none => .refused "Model not loaded"
      | some info =>
          let handle : ModelHandle := ⟨handleId, info.modelPath, info.engine⟩
          match models.orchestrator.getBackend registry handle with
          | none => .refused (showHandleError .invalidHandle)
          | some backend => .engine backend handle

end Models

/-! ## Runs -/

/-- A command, with what it is answered by everything around it. -/
inductive ModelCommand
  | load (resolved : Except String String) (surroundings : LoadSurroundings)
      (modelPath : String) (contextLength gpuLayers : Option ℕ)
  | connect (random : UInt32) (address : Except String String) (modelName : Option String)
  | unload (registry : EngineRegistry) (answer : Except InferenceError Unit) (handleId : ℕ)

namespace Models

def next (models : Models) : ModelCommand → Models
  | .load resolved surroundings modelPath contextLength gpuLayers =>
      (models.loadModel resolved surroundings modelPath contextLength gpuLayers).1
  | .connect random address modelName => (models.connectMeshPeer random address modelName).1
  | .unload registry answer handleId => (models.unloadModel registry answer handleId).1

/-- The handle that a command gives out for a model. -/
def given (models : Models) : ModelCommand → Option ModelHandle
  | .load resolved surroundings modelPath contextLength gpuLayers =>
      (models.loadModel resolved surroundings modelPath contextLength gpuLayers).2.toOption
  | .connect _ _ _ | .unload _ _ _ => none

/-- Nothing is loaded and no peer is connected. -/
def empty (meshRegistered : Bool) : Models where
  orchestrator := ⟨fun _ => none, fun _ => none, meshRegistered, []⟩
  meshPeerConnections := fun _ => none

end Models

/-- The engines of the app, as they look in every command. -/
def ModelCommand.Uses (faces : List EngineRegistry.Face) : ModelCommand → Prop
  | .load _ surroundings _ _ _ =>
      surroundings.registry.faces = faces ∧ surroundings.registry.IsBuilt
  | .connect _ _ _ => True
  | .unload registry _ _ => registry.faces = faces

/-- The command unloads a handle, and its engine lets it go. -/
def ModelCommand.unloads (handleId : ℕ) : ModelCommand → Bool
  | .unload _ (.ok _) other => other = handleId
  | _ => false

namespace Models

variable {models : Models} {faces : List EngineRegistry.Face}

theorem peer_handleId (random : UInt32) :
    (2 ^ 63 ||| random.toNat) = 2 ^ 63 + random.toNat := by
  have hsmall : random.toNat < 2 ^ 63 := by
    have hlt := random.toNat_lt
    omega
  have hor := Nat.two_pow_add_eq_or_of_lt hsmall 1
  rw [Nat.mul_one] at hor
  exact hor.symm

/-- The session of a peer that is connected. -/
theorem session_connect (random : UInt32) (peerAddr : String) (modelName : Option String) :
    (models.next (.connect random (.ok peerAddr) modelName)).meshPeerConnections
        (2 ^ 63 ||| random.toNat) =
      some ⟨2 ^ 63 ||| random.toNat, peerAddr, peerModelName modelName⟩ :=
  Function.update_self _ _ _

/-- What is known under a number: a session, the engine of a model, and what is told of it. -/
def known (models : Models) (id : ℕ) :
    Option MeshPeerSession × Option InferenceEngine × Option ModelInfo :=
  (models.meshPeerConnections id, models.orchestrator.handleBackends id,
    models.orchestrator.modelInfo id)

/-- What a load changes. -/
theorem next_load (resolved : Except String String) (surroundings : LoadSurroundings)
    (modelPath : String) (contextLength gpuLayers : Option ℕ)
    (hreal : surroundings.registry.RealFirst) :
    let command := ModelCommand.load resolved surroundings modelPath contextLength gpuLayers
    (∃ handle path, models.given command = some handle ∧ resolved = .ok path ∧
        (models.next command).meshPeerConnections = models.meshPeerConnections ∧
        Orchestrator.LoadedBy surroundings.registry path models.orchestrator
          (models.next command).orchestrator handle) ∨
      models.given command = none ∧ ∀ id, (models.next command).known id = models.known id := by
  dsimp only [next, given]
  cases resolved with
  | error e => exact Or.inr ⟨rfl, fun _ => rfl⟩
  | ok path =>
      cases hload : models.orchestrator.load surroundings path
          (requestedConfig contextLength gpuLayers) with
      | mk orchestrator loaded =>
          rw [loadModel, hload]
          cases loaded with
          | error e =>
              have hkeeps := @Orchestrator.remembers_load models.orchestrator surroundings path
                (requestedConfig contextLength gpuLayers)
              rw [hload] at hkeeps
              refine Or.inr ⟨rfl, fun id => ?_⟩
              exact congrArg (models.meshPeerConnections id, ·)
                (Prod.ext (congrFun hkeeps.1 id) (congrFun hkeeps.2 id))
          | ok handle =>
              exact Or.inl ⟨handle, path, rfl, rfl, rfl, Orchestrator.loadedBy_of_load hreal hload⟩

/-- A load changes what is known under the number of its handle only. -/
theorem known_next_load {command : ModelCommand} (huses : command.Uses faces)
    (hload : ∃ resolved surroundings modelPath contextLength gpuLayers,
      command = .load resolved surroundings modelPath contextLength gpuLayers) {id : ℕ}
    (hnew : ∀ handle, models.given command = some handle → handle.id ≠ id) :
    (models.next command).known id = models.known id := by
  obtain ⟨resolved, surroundings, modelPath, contextLength, gpuLayers, rfl⟩ := hload
  obtain ⟨-, hbuilt⟩ := huses
  rcases next_load resolved surroundings modelPath contextLength gpuLayers hbuilt.realFirst with
    ⟨handle, path, hgiven, -, hsessions, backend, config, -, -, hbackends, hinfo⟩ | ⟨-, hkeeps⟩
  · have hother := (hnew handle hgiven).symm
    rw [known, hsessions, hbackends, hinfo, Function.update_of_ne hother,
      Function.update_of_ne hother]
    rfl
  · exact hkeeps id

/-- A new peer changes nothing under the numbers of models. -/
theorem known_next_connect (random : UInt32) (address : Except String String)
    (modelName : Option String) {id : ℕ} (hid : id < 2 ^ 63) :
    (models.next (.connect random address modelName)).known id = models.known id := by
  cases address with
  | error e => rfl
  | ok peerAddr =>
      have hother : id ≠ 2 ^ 63 ||| random.toNat := by
        rw [peer_handleId]
        omega
      exact congrArg (·, _) (Function.update_of_ne hother _ _)

/-- What is known of a handle that has been given out and of one that has been unloaded. -/
def live (info : ModelInfo) :
    Option MeshPeerSession × Option InferenceEngine × Option ModelInfo :=
  (none, some info.engine, some info)

def gone : Option MeshPeerSession × Option InferenceEngine × Option ModelInfo := (none, none, none)

/-- Unloading a handle makes it unknown, if its engine lets it go, and no other. -/
theorem known_next_unload {registry : EngineRegistry} (answer : Except InferenceError Unit)
    (other : ℕ) {id : ℕ} {info : ModelInfo} (hget : (registry.get info.engine).isSome)
    (h : models.known id = live info ∨ models.known id = gone) :
    (models.next (.unload registry answer other)).known id =
      if ModelCommand.unloads id (.unload registry answer other) then gone
      else models.known id := by
  have hnone : models.meshPeerConnections id = none := by
    rcases h with hlive | hgone
    · exact congrArg Prod.fst hlive
    · exact congrArg Prod.fst hgone
  by_cases hother : other = id
  · subst hother
    rw [next, unloadModel, hnone]
    rcases h with hlive | hgone
    · have hengine : models.orchestrator.handleBackends other = some info.engine :=
        congrArg (fun known => known.2.1) hlive
      have hinfo : models.orchestrator.modelInfo other = some info :=
        congrArg (fun known => known.2.2) hlive
      obtain ⟨backend, hbackend⟩ := Option.isSome_iff_exists.mp hget
      have hfound : models.orchestrator.getBackend registry ⟨other, info.modelPath, info.engine⟩ =
          some backend := by
        rw [Orchestrator.getBackend, hengine]
        exact hbackend
      rw [hinfo]
      dsimp only
      rw [known, Orchestrator.unload_of_some _ _ hfound]
      cases answer with
      | error e => rfl
      | ok _ => simp [gone, hnone, ModelCommand.unloads, Orchestrator.forget, Except.toOption]
    · have hinfo : models.orchestrator.modelInfo other = none :=
        congrArg (fun known => known.2.2) hgone
      rw [hinfo, hgone, ite_self]
  · have hkeep : ModelCommand.unloads id (.unload registry answer other) = false := by
      cases answer with
      | error e => rfl
      | ok _ => exact decide_eq_false hother
    have hne : id ≠ other := fun h => hother h.symm
    rw [hkeep, if_neg Bool.false_ne_true, next, unloadModel]
    cases models.meshPeerConnections other with
    | some session => exact congrArg (·, _) (Function.update_of_ne hne _ _)
    | none =>
        dsimp only
        cases models.orchestrator.modelInfo other with
        | none => rfl
        | some found =>
            dsimp only
            rw [known]
            cases hfound : models.orchestrator.getBackend registry
                ⟨other, found.modelPath, found.engine⟩ with
            | none =>
                rw [Orchestrator.unload_of_none _ _ hfound]
                rfl
            | some backend =>
                rw [Orchestrator.unload_of_some _ _ hfound]
                split_ifs
                · simp [known, Orchestrator.forget, Function.update_of_ne hne]
                · rfl

/-- What a command does to a handle that no load gives out again. -/
theorem known_next {command : ModelCommand} (huses : command.Uses faces) {id : ℕ}
    (hid : id < 2 ^ 63) {info : ModelInfo} {registry : EngineRegistry}
    (hfaces : registry.faces = faces) (hget : (registry.get info.engine).isSome)
    (hnew : ∀ handle, models.given command = some handle → handle.id ≠ id)
    (h : models.known id = live info ∨ models.known id = gone) :
    (models.next command).known id = if command.unloads id then gone else models.known id := by
  cases command with
  | load resolved surroundings modelPath contextLength gpuLayers =>
      exact known_next_load huses ⟨_, _, _, _, _, rfl⟩ hnew
  | connect random address modelName => exact known_next_connect random address modelName hid
  | unload other answer handleId =>
      refine known_next_unload answer handleId ?_ h
      rwa [EngineRegistry.isSome_get_congr (huses.trans hfaces.symm)]

/-- What commands do to a handle that no load gives out again. -/
theorem known_exec {commands : List ModelCommand} (huses : ∀ command ∈ commands, command.Uses faces)
    {id : ℕ} (hid : id < 2 ^ 63) {info : ModelInfo} {registry : EngineRegistry}
    (hfaces : registry.faces = faces) (hget : (registry.get info.engine).isSome)
    (hnew : ∀ handle, some handle ∈ outputs next given models commands → handle.id ≠ id)
    (h : models.known id = live info) :
    (exec next models commands).known id =
      if commands.any (ModelCommand.unloads id) then gone else live info := by
  induction commands using List.reverseRecOn with
  | nil => exact h
  | append_singleton commands command ih =>
      obtain ⟨hbefore, hcommand⟩ := List.forall_mem_append.mp huses
      rw [outputs_append] at hnew
      have hknown := ih hbefore fun handle hhandle => hnew handle (List.mem_append_left _ hhandle)
      have hstate : (exec next models commands).known id = live info ∨
          (exec next models commands).known id = gone := by
        rw [hknown]
        split_ifs
        · exact Or.inr rfl
        · exact Or.inl rfl
      have hgiven (handle : ModelHandle)
          (hhandle : (exec next models commands).given command = some handle) : handle.id ≠ id :=
        hnew handle (List.mem_append_right _ (by rw [outputs, hhandle]; exact List.mem_cons_self))
      rw [exec_snoc, known_next (List.forall_mem_singleton.mp hcommand) hid hfaces hget hgiven hstate,
        hknown, List.any_append, List.any_cons, List.any_nil, Bool.or_false]
      by_cases hgone : commands.any (ModelCommand.unloads id) = true
      · rw [if_pos hgone, ite_self, if_pos (by rw [hgone]; rfl)]
      · rw [if_neg hgone, Bool.eq_false_iff.mpr hgone, Bool.false_or]

/-- Peers have large numbers, and each session stands under its own. -/
def PeersApart (models : Models) : Prop :=
  ∀ id session, models.meshPeerConnections id = some session →
    session.handleId = id ∧ 2 ^ 63 ≤ id

theorem peersApart_next {command : ModelCommand} (h : models.PeersApart) :
    (models.next command).PeersApart := by
  cases command with
  | load resolved surroundings modelPath contextLength gpuLayers =>
      rw [next]
      cases resolved with
      | error e => exact h
      | ok path => exact h
  | connect random address modelName =>
      cases address with
      | error e => exact h
      | ok peerAddr =>
          intro id session hsession
          by_cases hid : id = 2 ^ 63 ||| random.toNat
          · subst hid
            cases (session_connect random peerAddr modelName).symm.trans hsession
            exact ⟨rfl, Nat.left_le_or⟩
          · exact h id session ((Function.update_of_ne hid _ _).symm.trans hsession)
  | unload registry answer handleId =>
      intro id session hsession
      rw [next, unloadModel] at hsession
      cases hpeer : models.meshPeerConnections handleId with
      | some other =>
          rw [hpeer] at hsession
          by_cases hid : id = handleId
          · subst hid
            cases (Function.update_self _ _ _).symm.trans hsession
          · exact h id session ((Function.update_of_ne hid _ _).symm.trans hsession)
      | none =>
          rw [hpeer] at hsession
          cases hinfo : models.orchestrator.modelInfo handleId <;> rw [hinfo] at hsession <;>
            exact h id session hsession

theorem peersApart_exec (meshRegistered : Bool) (commands : List ModelCommand) :
    (exec next (empty meshRegistered) commands).PeersApart := by
  refine @exec_invariant _ _ next PeersApart (fun _ _ => True) (fun h _ => peersApart_next h) _ ?_ _
    fun _ _ _ => trivial
  intro id session hsession
  cases hsession

/-- What answers a chat with a handle that is known. -/
theorem streamChat_of_live {registry : EngineRegistry} {id : ℕ} {info : ModelInfo}
    {backend : InferenceBackend} (h : models.known id = live info)
    (hget : registry.get info.engine = some backend) :
    models.streamChat registry id = .engine backend ⟨id, info.modelPath, info.engine⟩ := by
  have hpeer : models.meshPeerConnections id = none := congrArg Prod.fst h
  have hengine : models.orchestrator.handleBackends id = some info.engine :=
    congrArg (fun known => known.2.1) h
  have hinfo : models.orchestrator.modelInfo id = some info := congrArg (fun known => known.2.2) h
  have hfound : models.orchestrator.getBackend registry ⟨id, info.modelPath, info.engine⟩ =
      some backend := by
    rw [Orchestrator.getBackend, hengine]
    exact hget
  simp only [streamChat, hpeer, hinfo, hfound]

theorem streamChat_of_gone {registry : EngineRegistry} {id : ℕ} (h : models.known id = gone) :
    models.streamChat registry id = .refused "Model not loaded" := by
  have hpeer : models.meshPeerConnections id = none := congrArg Prod.fst h
  have hinfo : models.orchestrator.modelInfo id = none := congrArg (fun known => known.2.2) h
  simp only [streamChat, hpeer, hinfo]

/-- A build with Candle, which gives out a first handle. -/
def candleBuild : EngineRegistry.Build where
  llamaCpp := none
  candle := some
    { backend := ⟨.candle, true, false, [.gguf], fun path _ => .ok ⟨1, path, .candle⟩⟩
      named := rfl
      real := rfl }
  onnx := none
  dummyLoad := fun path _ => .ok ⟨1, path, .candle⟩
  cloud := none
  mlx := none

def candleSurroundings : LoadSurroundings where
  registry := EngineRegistry.new candleBuild
  detectFormat := fun _ => .ok .gguf
  modelSize := fun _ => 0
  calculateOffload := fun _ _ => ⟨none, true⟩

def candleLoad : ModelCommand := .load (.ok "model.gguf") candleSurroundings "model" none none

/-- The model is unloaded again. -/
def candleUnload : ModelCommand := .unload candleSurroundings.registry (.ok ()) 1

theorem uses_candle : ∀ command ∈ [candleLoad, candleUnload],
    command.Uses candleSurroundings.registry.faces :=
  List.forall_mem_cons.mpr ⟨⟨rfl, candleBuild, none, by simp, (List.append_nil _).symm⟩,
    List.forall_mem_singleton.mpr rfl⟩

/-- The numbers of handles: models are counted up, and peers have random ones. -/
def IsHandleId (id : ℕ) : Prop :=
  id < 2 ^ 53 ∨ ∃ random : UInt32, id = 2 ^ 63 ||| random.toNat

/-- The numbers that the window has for handles. -/
def InWindow (id : ℕ) : Prop := ∃ handleId, IsHandleId handleId ∧ id = JsNumbers.through handleId

/-- A number in the window is that of a model, or a multiple of 1000. -/
theorem small_or_dvd {id : ℕ} (h : InWindow id) : id < 2 ^ 53 ∨ 1000 ∣ id := by
  obtain ⟨handleId, hsmall | ⟨random, rfl⟩, rfl⟩ := h
  · rw [JsNumbers.through_of_lt hsmall]
    exact Or.inl hsmall
  · have hlt := random.toNat_lt
    refine Or.inr (JsNumbers.dvd_through ?_ ?_)
    · exact Nat.left_le_or
    · rw [peer_handleId]
      omega

/-- A peer stays connected unless a command names its number. -/
theorem isSome_peer_next {command : ModelCommand} {handleId : ℕ}
    (hother : ∀ registry answer, command ≠ .unload registry answer handleId)
    (h : (models.meshPeerConnections handleId).isSome) :
    ((models.next command).meshPeerConnections handleId).isSome := by
  cases command with
  | load resolved surroundings modelPath contextLength gpuLayers => cases resolved <;> exact h
  | connect random address modelName =>
      cases address with
      | error e => exact h
      | ok peerAddr =>
          by_cases hid : handleId = 2 ^ 63 ||| random.toNat
          · rw [hid, session_connect]
            rfl
          · exact (congrArg Option.isSome (Function.update_of_ne hid _ _)).trans h
  | unload registry answer other =>
      have hid : handleId ≠ other := fun hsame => hother registry answer (by rw [hsame])
      rw [next, unloadModel]
      cases models.meshPeerConnections other with
      | some session => exact (congrArg Option.isSome (Function.update_of_ne hid _ _)).trans h
      | none => cases models.orchestrator.modelInfo other <;> exact h

theorem isSome_peer_exec {commands : List ModelCommand} {handleId : ℕ}
    (hother : ∀ registry answer, .unload registry answer handleId ∉ commands)
    (h : (models.meshPeerConnections handleId).isSome) :
    ((exec next models commands).meshPeerConnections handleId).isSome := by
  induction commands using List.reverseRecOn with
  | nil => exact h
  | append_singleton commands command ih =>
      rw [exec_snoc]
      refine isSome_peer_next (fun registry answer hsame => ?_) (ih fun registry answer hmem => ?_)
      · exact hother registry answer (List.mem_append_right _ (List.mem_singleton.mpr hsame.symm))
      · exact hother registry answer (List.mem_append_left _ hmem)

/-- **Hardly any peer can be reached from the window.** A peer whose number is no multiple of 1000
is answered with a session, but no number that the window can have is its own: no chat reaches it,
and it stays connected for as long as the app runs. -/
theorem peer_out_of_reach {before later : List ModelCommand} {meshRegistered : Bool}
    {random : UInt32} {peerAddr : String} {modelName : Option String}
    (hodd : ¬ 1000 ∣ 2 ^ 63 ||| random.toNat)
    (hwindow : ∀ registry answer id, .unload registry answer id ∈ later → InWindow id) :
    let models := exec next (empty meshRegistered)
      (before ++ .connect random (.ok peerAddr) modelName :: later)
    (∃ session, models.meshPeerConnections (2 ^ 63 ||| random.toNat) = some session) ∧
      ∀ registry id session, InWindow id → models.streamChat registry id = .peer session →
        session.handleId ≠ 2 ^ 63 ||| random.toNat := by
  have hforeign {id : ℕ} (hid : InWindow id) : id ≠ 2 ^ 63 ||| random.toNat := by
    rintro rfl
    rcases small_or_dvd hid with hsmall | hdvd
    · rw [peer_handleId] at hsmall
      omega
    · exact hodd hdvd
  dsimp only
  constructor
  · rw [← Option.isSome_iff_exists, exec_append]
    refine @isSome_peer_exec (next _ (.connect random (.ok peerAddr) modelName)) later _
      (fun registry answer hmem => ?_) ?_
    · exact hforeign (hwindow registry answer _ hmem) rfl
    · rw [session_connect]
      rfl
  · intro registry id session hid hchat
    have hapart := peersApart_exec meshRegistered
      (before ++ .connect random (.ok peerAddr) modelName :: later) id session
    rw [streamChat] at hchat
    cases hpeer : (exec next (empty meshRegistered)
        (before ++ .connect random (.ok peerAddr) modelName :: later)).meshPeerConnections id with
    | some other =>
        rw [hpeer] at hchat
        obtain rfl := ChatTarget.peer.inj hchat
        rw [(hapart hpeer).1]
        exact hforeign hid
    | none =>
        rw [hpeer] at hchat
        dsimp only at hchat
        split at hchat
        · cases hchat
        · split at hchat <;> cases hchat

theorem peer_out_of_reach_one :
    let stay := ModelCommand.unload [] (.ok ()) (JsNumbers.through (2 ^ 63 ||| (1 : UInt32).toNat))
    let models := exec next (empty false) ([] ++ .connect 1 (.ok "10.0.0.2:7878") none :: [stay])
    (∃ session, models.meshPeerConnections (2 ^ 63 ||| (1 : UInt32).toNat) = some session) ∧
      ∀ registry id session, InWindow id → models.streamChat registry id = .peer session →
        session.handleId ≠ 2 ^ 63 ||| (1 : UInt32).toNat := by
  refine peer_out_of_reach (by decide) fun registry answer id hmem => ?_
  cases List.mem_singleton.mp hmem
  exact ⟨_, Or.inr ⟨1, rfl⟩, rfl⟩

end Models

end HiveBear.Desktop
