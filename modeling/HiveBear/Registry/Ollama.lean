/-
# Importing from Ollama

Ollama keeps the weights of a model in a blob, a plain file. Importing a model records the path
of the blob as the directory of the model and the digest as the name of its file. Resolving joins
the two, and finds nothing there; removing deletes what is recorded as the directory, which fails
for a plain file. If it does not fail the blob is gone. So no imported model can be resolved and
removed as it should.
-/

import HiveBear.Library.Json
import HiveBear.Library.Texts
import HiveBear.Registry.Reconcile

namespace HiveBear.Registry

open Json LabelledRun Paths Texts

/-! ## Ollama's models -/

structure OllamaLayer where
  digest : String
  size : UInt64
  mediaType : String

/-- A manifest is read for its layers, which may be missing. -/
structure OllamaManifest where
  layers : List OllamaLayer

section Manifest

variable {F : Type}

open Fields

def OllamaLayer.json : Codec F OllamaLayer :=
  ((field "digest" Codec.string none).both <|
    (field "size" Codec.uint64 none).both <|
    field "mediaType" Codec.string none).object.refine
    (fun layer => (layer.digest, layer.size, layer.mediaType))
    (fun raw => some ⟨raw.1, raw.2.1, raw.2.2⟩)

def OllamaManifest.json : Codec F OllamaManifest :=
  (field "layers" OllamaLayer.json.seq (some [])).object.refine OllamaManifest.layers
    (fun layers => some ⟨layers⟩)

end Manifest

/-- The index, the directories and the files that the registry works on. -/
structure RegistryState where
  index : List IndexEntry
  dirs : List Location
  files : List Location

namespace RegistryState

variable (state : RegistryState) (cwd : Location) (path : Text)

/-- The same, as it is removed from. -/
def store : Store := ⟨state.index.map IndexEntry.toModelMetadata, state.dirs, state.files⟩

/-- A path leads to a directory or a file. -/
def isThere : Bool :=
  !path.isEmpty &&
    (state.dirs.contains (leadsTo cwd path) &&
        (passes cwd (components path)).all state.dirs.contains ||
      state.files.contains (leadsTo cwd path) &&
        (passes cwd (components path).dropLast).all state.dirs.contains)

theorem isThere_iff {state : RegistryState} {cwd : Location} {path : Text} :
    state.isThere cwd path = true ↔ state.store.pathExists cwd path := by
  simp only [isThere, Store.pathExists, Store.isDir, store, Bool.and_eq_true, Bool.or_eq_true,
    Bool.not_eq_true', List.isEmpty_eq_false_iff, List.contains_iff_mem, List.all_eq_true]
  exact and_or_left

end RegistryState

/-- The Ollama installation that has been found, if any, and the JSON values in its files. -/
structure OllamaSource (F : Type) where
  ollamaDir : Option Text
  readJson : Text → Option (Value F)

/-- Take `model:tag` apart. -/
def parseModelTag (modelId : String) : Text × Text :=
  (splitOnce [':'] modelId.toList).getD (modelId.toList, "latest".toList)

def ollamaLibrary (ollamaDir : Text) : Text :=
  join (join (join (join ollamaDir "models".toList) "manifests".toList)
    "registry.ollama.ai".toList) "library".toList

def blobsDir (ollamaDir : Text) : Text := join (join ollamaDir "models".toList) "blobs".toList

/-- The name of a blob's file. -/
def blobName (digest : String) : Text := digest.toList.map fun c => if c = ':' then '-' else c

namespace OllamaSource

variable {F : Type} (source : OllamaSource F) (cwd : Location) (state : RegistryState)

/-- What a manifest says of a model. -/
def parseOllamaManifest (modelName tag manifestPath ollamaDir : Text) : Option IndexEntry := do
  let manifest ← (source.readJson manifestPath).bind OllamaManifest.json.read
  let layer ← manifest.layers.find? fun layer =>
    layer.mediaType = "application/vnd.ollama.image.model"
  let digest := blobName layer.digest
  let blobPath := join (blobsDir ollamaDir) digest
  let shown := String.ofList (modelName ++ ':' :: tag)
  return {
    id := s!"ollama/{shown}"
    installed :=
      if state.isThere cwd blobPath then
        some ⟨blobPath, layer.size.toNat, some layer.digest, String.ofList digest⟩
      else none
    name := shown
    formats := [.gguf]
    source := .ollama (String.ofList tag)
    huggingfaceId := none
    description := some s!"Imported from Ollama — {shown}"
    tags := ["ollama", String.ofList modelName]
    downloadsCount := none
    likesCount := none }

/-- Look a model up in Ollama's library. -/
def get (modelId : String) : Option IndexEntry := do
  let ollamaDir ← source.ollamaDir
  let (modelName, tag) := parseModelTag modelId
  let manifestPath := join (join (ollamaLibrary ollamaDir) modelName) tag
  if state.isThere cwd manifestPath then
    source.parseOllamaManifest cwd state modelName tag manifestPath ollamaDir
  else none

end OllamaSource

/-! ## Importing and resolving -/

namespace ModelRegistry

variable {F : Type} (registry : ModelRegistry) (source : OllamaSource F) (modelId : String)

/-- Import a model from Ollama. The index may fail to be saved. -/
def importOllama (saving : Except RegistryError Unit) (state : RegistryState) :
    RegistryState × Except RegistryError InstalledInfo :=
  match source.get registry.cwd state modelId with
  | none =>
      (state, .error (.modelNotFound (s!"Ollama model '{modelId}' not found. Run " ++
        "`hivebear import-ollama` to list available models.")))
  | some entry =>
      match entry.installed with
      | none =>
          (state, .error (.modelNotFound
            s!"Ollama model '{modelId}' found in manifests but blob file is missing."))
      | some installed =>
          ({ state with index := IndexEntry.upsert state.index entry },
            saving.map fun _ => installed)

/-- The GGUF file below a directory of the models that an id names. -/
def resolveInModelsDir (tree : DirTree) : Option Text :=
  match components modelId.toList with
  | [.normal name] =>
      (pickGguf registry.lower (scanModelDir registry.lower tree [name]).ggufs).map fun file =>
        join (join registry.modelsDir modelId.toList) file.relative
  | _ => none

/-- The recorded file of a model, if it is there. -/
def resolveInIndex (state : RegistryState) : Option Text := do
  let entry ← IndexEntry.find state.index modelId
  let installed ← entry.installed
  let modelFile := join installed.path installed.filename.toList
  if state.isThere registry.cwd modelFile then some modelFile else none

/-- Resolve an id or a path to the path of a file. -/
def resolve (tree : DirTree) (state : RegistryState) : Except RegistryError Text :=
  if state.isThere registry.cwd modelId.toList then .ok modelId.toList
  else
    match (registry.resolveInIndex modelId state).or (registry.resolveInModelsDir modelId tree) with
    | some path => .ok path
    | none =>
        .error (.modelNotFound (s!"'{modelId}' is not a file path or installed model. Use " ++
          s!"`hivebear install {modelId}` first."))

end ModelRegistry

/-! ## What becomes of an imported model -/

section Imported

variable {F : Type} {registry : ModelRegistry} {source : OllamaSource F} {modelId : String}
  {state : RegistryState}

theorem find_store (state : RegistryState) (modelId : String) :
    state.store.index.find modelId =
      (IndexEntry.find state.index modelId).map IndexEntry.toModelMetadata := by
  rw [RegistryState.store, LocalIndex.find, List.find?_map]
  rfl

/-- How far a removal of something that was there has come: what was recorded is still there, or
it was a directory and is gone. -/
def Deletes (registry : ModelRegistry) (before : Store) (installed : InstalledInfo) : Store × RemovePhase → Prop
  | (store, .finding) => store = before
  | (store, .deleting info) => store = before ∧ info = installed
  | (store, .saving _) =>
      before.isDir registry.cwd installed.path ∧ ¬ store.pathExists registry.cwd installed.path
  | (store, .returned (.ok _)) =>
      before.isDir registry.cwd installed.path ∧ ¬ store.pathExists registry.cwd installed.path
  | (_, .returned (.error _)) => True

/-- What is deleted with a directory is not there any more. -/
theorem not_pathExists_without {store : Store} {cwd : Location} {path : Text}
    (h : store.isDir cwd path ∨ leadsTo cwd path ∈ store.files) :
    ¬ (store.without (store.tree (leadsTo cwd path))).pathExists cwd path := by
  have hgone : leadsTo cwd path ∈ store.tree (leadsTo cwd path) := by
    refine List.mem_filter.mpr ⟨?_, decide_eq_true List.prefix_rfl⟩
    rcases h with hdir | hfile
    · exact List.mem_append_left _ hdir.2.1
    · exact List.mem_append_right _ hfile
  rintro (⟨-, hdirs, -⟩ | ⟨-, hfiles, -⟩)
  · simp [Store.without, hgone] at hdirs
  · simp [Store.without, hgone] at hfiles

theorem deletes_removeStep {before : Store} {installed : InstalledInfo} {metadata : ModelMetadata}
    (hknown : before.index.find modelId = some metadata)
    (hrecorded : metadata.installed = some installed)
    (hthere : before.pathExists registry.cwd installed.path)
    {state next : Store × RemovePhase} {event : InstallEvent}
    (h : Deletes registry before installed state)
    (step : RemoveStep registry modelId state event next) :
    Deletes registry before installed next := by
  cases step with
  | notFound | notDir | deleteFails | saveFails => trivial
  | found known recorded =>
      obtain rfl : _ = before := h
      rw [hknown] at known
      cases known
      rw [hrecorded] at recorded
      cases recorded
      exact ⟨rfl, rfl⟩
  | notInstalled known absent =>
      obtain rfl : _ = before := h
      rw [hknown] at known
      cases known
      rw [hrecorded] at absent
      cases absent
  | gone absent =>
      obtain ⟨rfl, rfl⟩ : _ = before ∧ _ = installed := h
      exact absurd hthere absent
  | delete there =>
      obtain ⟨rfl, rfl⟩ : _ = before ∧ _ = installed := h
      exact ⟨there, not_pathExists_without (Or.inl there)⟩
  | save => exact h

/-- **What was recorded of a model was a directory, and is gone** when it has been removed. -/
theorem gone_of_removed {before last : Store} {installed : InstalledInfo}
    {metadata : ModelMetadata} (hknown : before.index.find modelId = some metadata)
    (hrecorded : metadata.installed = some installed)
    (hthere : before.pathExists registry.cwd installed.path) {events : List InstallEvent}
    {freedBytes : ℕ} (run : Run (RemoveStep registry modelId) (before, .finding) events
      (last, .returned (.ok freedBytes))) :
    before.isDir registry.cwd installed.path ∧ ¬ last.pathExists registry.cwd installed.path :=
  @Run.invariant _ _ _ (Deletes registry before installed)
    (deletes_removeStep hknown hrecorded hthere) _ _ _ run rfl

/-- The blob of a model that is imported is there. -/
theorem isThere_of_get {entry : IndexEntry} {installed : InstalledInfo}
    (hentry : source.get registry.cwd state modelId = some entry)
    (hinstalled : entry.installed = some installed) :
    state.isThere registry.cwd installed.path = true := by
  simp only [OllamaSource.get, Option.bind_eq_bind, Option.bind_eq_some_iff] at hentry
  obtain ⟨ollamaDir, -, hentry⟩ := hentry
  split_ifs at hentry
  simp only [OllamaSource.parseOllamaManifest, Option.bind_eq_bind,
    Option.bind_eq_some_iff] at hentry
  obtain ⟨manifest, -, layer, -, hentry⟩ := hentry
  cases hentry
  dsimp only at hinstalled
  split_ifs at hinstalled with hthere
  cases hinstalled
  exact hthere

variable (registry) in
/-- An imported model can be used: its id resolves to its blob, and it can be removed, which
leaves the blob and the other entries in place. -/
structure Usable (tree : DirTree) (state : RegistryState) (modelId : String) (blob : Text) :
    Prop where
  resolved : registry.resolve modelId tree state = .ok blob
  removed : ∃ events last freedBytes,
    Run (RemoveStep registry modelId) (state.store, .finding) events
      (last, .returned (.ok freedBytes)) ∧
    last.index.find modelId = none ∧ last.pathExists registry.cwd blob ∧
    ∀ other, other ≠ modelId → last.index.find other = state.store.index.find other

/-- An imported model that has been removed had a directory as its blob, and has lost it. -/
theorem blob_gone_of_removed {saving : Except RegistryError Unit} {entry : IndexEntry}
    {installed : InstalledInfo} (hentry : source.get registry.cwd state modelId = some entry)
    (hok : (registry.importOllama source modelId saving state).2 = .ok installed)
    {events : List InstallEvent} {last : Store} {freedBytes : ℕ}
    (run : Run (RemoveStep registry entry.id)
      ((registry.importOllama source modelId saving state).1.store, .finding) events
      (last, .returned (.ok freedBytes))) :
    state.store.isDir registry.cwd installed.path ∧
      ¬ last.pathExists registry.cwd installed.path := by
  rw [ModelRegistry.importOllama, hentry] at hok run
  cases hinstalled : entry.installed with
  | none => simp [hinstalled] at hok
  | some info =>
      simp only [hinstalled] at hok run
      obtain rfl : info = installed := by
        cases saving with
        | error e => cases hok
        | ok _ => exact Except.ok.inj hok
      have hthere : state.store.pathExists registry.cwd info.path :=
        RegistryState.isThere_iff.mp (isThere_of_get hentry hinstalled)
      have hfind : (IndexEntry.find (IndexEntry.upsert state.index entry) entry.id).map
          IndexEntry.toModelMetadata = some entry.toModelMetadata := by
        rw [IndexEntry.find_upsert_self]
        rfl
      rw [← find_store { state with index := IndexEntry.upsert state.index entry }] at hfind
      have hgone := gone_of_removed hfind hinstalled hthere run
      exact hgone

/-- **An imported model is never usable**: if it can be removed, its blob is deleted. -/
theorem imported_never_usable (registry : ModelRegistry) (source : OllamaSource F)
    (modelId : String) (saving : Except RegistryError Unit) (tree : DirTree)
    {state : RegistryState} {entry : IndexEntry} {installed : InstalledInfo}
    (hentry : source.get registry.cwd state modelId = some entry)
    (hok : (registry.importOllama source modelId saving state).2 = .ok installed) :
    ¬ Usable registry tree (registry.importOllama source modelId saving state).1 entry.id
      installed.path := by
  rintro ⟨-, events, last, freedBytes, run, -, hblob, -⟩
  exact (blob_gone_of_removed hentry hok run).2 hblob

end Imported

/-! ## A library with one model -/

/-- A manifest of one layer. -/
def smallManifest : Value Unit :=
  .obj [("layers", .arr [.obj [("mediaType", .str "application/vnd.ollama.image.model"),
    ("digest", .str "sha256:ab"), ("size", .int 5)]])]

/-- Ollama in `/o`, where every file is that manifest. -/
def smallOllama : OllamaSource Unit := ⟨some "/o".toList, fun _ => some smallManifest⟩

def manifestDirs : List Text :=
  ["models".toList, "manifests".toList, "registry.ollama.ai".toList, "library".toList, ['m']]

/-- The directories and the files of that library. -/
def ollamaState : RegistryState where
  index := []
  dirs := [] :: [['o'], "models".toList, "blobs".toList] :: (manifestDirs.inits.map (['o'] :: ·))
  files := [[['o'], "models".toList, "blobs".toList, "sha256-ab".toList],
    ['o'] :: manifestDirs ++ ["8b".toList]]

def emptyTree : DirTree where
  entries := []
  nodup := List.nodup_nil
  below := List.forall_mem_nil _
  named := List.forall_mem_nil _
  parents := List.forall_mem_nil _

/-- What is known of its model. -/
def smallEntry : IndexEntry := (smallOllama.get [] ollamaState "m:8b").get (by decide)

/-- Where its model is taken to be installed. -/
def blobInfo : InstalledInfo :=
  ⟨"/o/models/blobs/sha256-ab".toList, 5, some "sha256:ab", "sha256-ab"⟩

/-- The state behind its import. -/
def importedState : RegistryState :=
  (plainRegistry.importOllama smallOllama "m:8b" (.ok ()) ollamaState).1

theorem imported_never_usable_small :
    ¬ Usable plainRegistry emptyTree importedState smallEntry.id blobInfo.path :=
  imported_never_usable plainRegistry smallOllama "m:8b" (.ok ()) emptyTree
    (Option.some_get _).symm rfl

/-- The import succeeds. Then the id cannot be resolved, and the model cannot be removed. -/
theorem imported_unusable :
    (plainRegistry.importOllama smallOllama "m:8b" (.ok ()) ollamaState).2 = .ok blobInfo ∧
      (∃ message, plainRegistry.resolve "ollama/m:8b" emptyTree importedState =
        .error (.modelNotFound message)) ∧
      ∀ events last freedBytes, ¬ Run (RemoveStep plainRegistry "ollama/m:8b")
        (importedState.store, .finding) events (last, .returned (.ok freedBytes)) := by
  refine ⟨rfl, ⟨_, rfl⟩, ?_⟩
  intro events last freedBytes run
  have hentry : smallOllama.get plainRegistry.cwd ollamaState "m:8b" = some smallEntry :=
    (Option.some_get _).symm
  have hid : smallEntry.id = "ollama/m:8b" := by decide
  have hdir := (@blob_gone_of_removed _ plainRegistry smallOllama "m:8b" ollamaState (.ok ()) _
    blobInfo hentry rfl events last freedBytes (hid ▸ run)).1
  have hnone : leadsTo plainRegistry.cwd blobInfo.path ∉ ollamaState.dirs := by decide
  exact hnone hdir.2.1

end HiveBear.Registry
