/-
# Installing a model

An install runs several downloads in turn. If an earlier attempt was interrupted, it first
resumes that one, and an error of it is only logged. Then it finds the repository of the
model, asks for its files, downloads one of them, and after that tries to get a tokenizer
from one repository after the other, whose errors are ignored. The file of the model and an
interrupted one are downloaded under the model id, a tokenizer under a key of its own.

The steps of an install are interleaved with calls of `cancel_download`. Where it waits for
an answer to a request that is not a download, that request has been started by the step
that leads there.
-/

import HiveBear.Library.Run
import HiveBear.Registry.Transfer

namespace HiveBear.Registry

open LabelledRun Paths

/-! ## The registry -/

/-- What a registry is set up with. The directory of the models is never the empty path. -/
structure ModelRegistry where
  cwd : Location
  modelsDir : Text
  /-- The file of the local index. -/
  indexFile : Text
  streamRetries : ℕ
  sha256 : List UInt8 → String
  uppercase : String → String
  lowercase : String → String
  /-- The HuggingFace repository of a model that the index or the builtin models know. -/
  knownRepo : String → Option String
  modelsDir_ne : modelsDir ≠ []

/-- What an install is asked for. -/
structure InstallCall where
  modelId : String
  quantPreference : Option String
  filePreference : Option String
  now : ℕ

/-- A file of a repository, as the API names it. -/
structure HfSibling where
  filename : String
  size : Option ℕ

structure RemoteFile where
  filename : String
  sizeBytes : ℕ
  sha256 : Option String
  downloadUrl : String

def contains (text pattern : String) : Bool := decide (pattern.toList <:+: text.toList)

def startsWith (text start : String) : Bool := decide (start.toList <+: text.toList)

/-- A name ends like that of a GGUF file. -/
def isGguf (filename : String) : Bool := decide (".gguf".toList <:+ filename.toList)

/-- The downloadable files of a repository. -/
def listFiles (repoId : String) (siblings : List HfSibling) : List RemoteFile :=
  (siblings.filter fun sibling => isGguf sibling.filename).map fun sibling =>
    { filename := sibling.filename
      sizeBytes := sibling.size.getD 0
      sha256 := none
      downloadUrl := s!"https://huggingface.co/{repoId}/resolve/main/{sibling.filename}" }

theorem isGguf_of_mem_listFiles {repoId : String} {siblings : List HfSibling} {file : RemoteFile}
    (h : file ∈ listFiles repoId siblings) : isGguf file.filename = true := by
  obtain ⟨sibling, hsibling, rfl⟩ := List.mem_map.mp h
  exact (List.mem_filter.mp hsibling).2

/-- The first of the smallest files. -/
def smallest : List RemoteFile → Option RemoteFile
  | [] => none
  | file :: files =>
      match smallest files with
      | some other => if other.sizeBytes < file.sizeBytes then some other else some file
      | none => some file

def preferredQuants : List String := ["Q4_K_M", "Q5_K_M", "Q4_K_S", "Q5_K_S", "Q6_K", "Q8_0"]

namespace ModelRegistry

variable (registry : ModelRegistry)

/-- Pick the file that is preferred, else one of the preferred quantization, else of a good
one, else the smallest. -/
def pickFile (files : List RemoteFile) (quantPreference filePreference : Option String) :
    Except RegistryError RemoteFile :=
  let named (pattern : String) : Option RemoteFile :=
    files.find? fun file => contains (registry.uppercase file.filename) pattern
  match filePreference with
  | some filename =>
      match files.find? fun file => file.filename = filename with
      | some file => .ok file
      | none =>
          let available := ", ".intercalate (files.map RemoteFile.filename)
          .error (.noFilesFound s!"File '{filename}' not found. Available: {available}")
  | none =>
      let preferred := quantPreference.bind fun quant =>
        named (String.ofList ((registry.uppercase quant).toList.map fun c =>
          if c = '-' then '_' else c))
      match preferred.or ((preferredQuants.findSome? named).or (smallest files)) with
      | some file => .ok file
      | none => .error (.noFilesFound "No files available")

/-- Choose the file to download: one whose download has been interrupted, if none is asked
for. -/
def chooseFile (call : InstallCall) (files : List RemoteFile) (partials : List String) :
    Except RegistryError RemoteFile :=
  match call.filePreference with
  | some filename => registry.pickFile files call.quantPreference (some filename)
  | none =>
      match partials.findSome? fun name => files.find? fun file => file.filename = name with
      | some resuming => .ok resuming
      | none => registry.pickFile files call.quantPreference none

theorem mem_of_smallest {files : List RemoteFile} {file : RemoteFile}
    (h : smallest files = some file) : file ∈ files := by
  induction files generalizing file with
  | nil => cases h
  | cons first files ih =>
      rw [smallest] at h
      split at h
      · rename_i other hother
        split_ifs at h <;> cases h
        · exact List.mem_cons_of_mem _ (ih hother)
        · exact List.mem_cons_self
      · cases h
        exact List.mem_cons_self

/-- The file that is picked is one of the files. -/
theorem mem_of_pickFile {files : List RemoteFile} {quantPreference filePreference : Option String}
    {file : RemoteFile}
    (h : registry.pickFile files quantPreference filePreference = .ok file) : file ∈ files := by
  cases filePreference with
  | some filename =>
      simp only [pickFile] at h
      split at h <;> cases h
      exact List.mem_of_find?_eq_some ‹_›
  | none =>
      simp only [pickFile] at h
      split at h <;> cases h
      rename_i hpicked
      simp only [Option.or_eq_some_iff] at hpicked
      rcases hpicked with hquant | ⟨-, hnamed | ⟨-, hsmall⟩⟩
      · obtain ⟨quant, -, hfound⟩ := Option.bind_eq_some_iff.mp hquant
        exact List.mem_of_find?_eq_some hfound
      · obtain ⟨-, pattern, -, -, hfound, -⟩ := List.findSome?_eq_some_iff.mp hnamed
        exact List.mem_of_find?_eq_some hfound
      · exact mem_of_smallest hsmall

/-- The file that is chosen is one of the files. -/
theorem mem_of_chooseFile {call : InstallCall} {files : List RemoteFile} {partials : List String}
    {file : RemoteFile} (h : registry.chooseFile call files partials = .ok file) :
    file ∈ files := by
  rw [chooseFile] at h
  split at h
  · exact registry.mem_of_pickFile h
  · split at h
    · cases h
      rename_i hresumed
      obtain ⟨-, name, -, -, hfound, -⟩ := List.findSome?_eq_some_iff.mp hresumed
      exact List.mem_of_find?_eq_some hfound
    · exact registry.mem_of_pickFile h

/-- Repositories that have the tokenizer of a family of models. -/
def familyRepos (repoId modelId : String) : List String :=
  let combined := registry.lowercase s!"{repoId} {modelId}"
  if contains combined "llama-3.2-1b" then ["unsloth/Llama-3.2-1B-Instruct"]
  else if contains combined "llama-3.2-3b" then ["unsloth/Llama-3.2-3B-Instruct"]
  else if contains combined "llama-3.1-8b" ∨ contains combined "llama-3-8b" then
    ["unsloth/Meta-Llama-3.1-8B-Instruct"]
  else if contains combined "llama-3" ∨ contains combined "llama3" then
    ["unsloth/Llama-3.2-1B-Instruct", "unsloth/Meta-Llama-3.1-8B-Instruct"]
  else if contains combined "mistral" then
    ["unsloth/mistral-7b-instruct-v0.2", "mistralai/Mistral-7B-v0.1"]
  else if contains combined "qwen" then
    ["Qwen/Qwen2.5-0.5B-Instruct", "Qwen/Qwen2.5-1.5B-Instruct", "Qwen/Qwen2.5-7B-Instruct"]
  else if contains combined "deepseek" then ["deepseek-ai/DeepSeek-R1-Distill-Qwen-7B"]
  else []

/-- The other repositories that are tried for a tokenizer, behind the model's own. -/
def otherRepos (repoId modelId : String) (base : Option String) : List String :=
  let baseRepos :=
    match base with
    | some base =>
        if startsWith base "meta-llama/" then [base.replace "meta-llama/" "unsloth/", base]
        else [base]
    | none => []
  ((baseRepos ++ registry.familyRepos repoId modelId).eraseDups).filter fun repo =>
    decide (repo ≠ repoId)

/-! ## The downloads of an install -/

/-- The directory of a model. -/
def modelDir (modelId : String) : Text := join registry.modelsDir modelId.toList

/-- Where it is. -/
def modelPlace (modelId : String) : Location := leadsTo registry.cwd (registry.modelDir modelId)

/-- What is to be created for it. -/
def missingDirs (world : World) (modelId : String) : List Location :=
  missing world.dirs registry.cwd (components (registry.modelDir modelId))

variable (call : InstallCall)

/-- A download into the directory of the model, under a key. -/
def job (key url filename : String) (sha256 : Option String) : Job where
  target :=
    { url := url
      filename := filename
      partialPath :=
        String.ofList (join (registry.modelDir call.modelId) (filename ++ ".partial").toList)
      finalPath := String.ofList (join (registry.modelDir call.modelId) filename.toList)
      sha256 := registry.sha256 }
  call := ⟨sha256, key, registry.streamRetries, call.now⟩
  destDir := registry.modelDir call.modelId

/-- The download of a file of the repository. -/
def fileJob (file : RemoteFile) : Job :=
  registry.job call call.modelId file.downloadUrl file.filename file.sha256

/-- The download of an interrupted file from where it came from. -/
def resumeJob (relative : String) (metadata : PartialMeta) : Job :=
  registry.job call call.modelId metadata.url relative metadata.sha256Expected

/-- The download of a tokenizer from a repository. -/
def tokenizerJob (repo : String) : Job :=
  registry.job call s!"{call.modelId}-tokenizer"
    s!"https://huggingface.co/{repo}/resolve/main/tokenizer.json" "tokenizer.json" none

/-- What the index is told of the file of a download. -/
def installedInfo (world : World) (job : Job) : InstalledInfo where
  path := registry.modelDir call.modelId
  sizeBytes := (((world.files job.target.filename).finalFile).map List.length).getD 0
  sha256 := job.call.expectedSha256
  filename := job.target.filename

/-- The file of the index, and what is renamed to it. -/
def indexPlaces : List Location :=
  [leadsTo registry.cwd (registry.indexFile ++ ".tmp".toList),
    leadsTo registry.cwd registry.indexFile]

end ModelRegistry

/-- How deep below a model's directory files are looked for. -/
def maxModelScanDepth : ℕ := 3

/-- Names that a scan of a model's directory finds a `.partial` file by: the directories in
front are not hidden, and the name itself may be anything. -/
def Scanned (relative : String) : Prop :=
  (segments relative.toList).length ≤ maxModelScanDepth + 1 ∧
    ∀ segment ∈ (segments relative.toList).dropLast, segment ≠ [] ∧ segment.head? ≠ some '.'

/-- The directory of an interrupted file is there. -/
def World.hasFolder (world : World) (modelDir : Location) (relative : String) : Prop :=
  ∀ place ∈ (walk modelDir (folder relative.toList)).inits, place ∈ world.dirs

instance (world : World) (modelDir : Location) (relative : String) :
    Decidable (world.hasFolder modelDir relative) :=
  inferInstanceAs (Decidable (∀ _ ∈ _, _))

/-- An interrupted download that a scan finds. -/
def World.hasPartial (world : World) (modelDir : Location) (relative : String) : Prop :=
  Scanned relative ∧ (world.files relative).partialFile.isSome ∧ world.hasFolder modelDir relative

/-- Where there is no partial file a scan finds none. -/
theorem not_hasPartial {world : World} {name : String}
    (h : (world.files name).partialFile = none) (modelDir : Location) :
    ¬ world.hasPartial modelDir name := by
  rintro ⟨-, hsome, -⟩
  rw [h] at hsome
  cases hsome

/-- One that can be resumed, because it is known where it came from. -/
def World.resumable (world : World) (modelDir : Location) (relative : String)
    (metadata : PartialMeta) : Prop :=
  world.hasPartial modelDir relative ∧ (world.files relative).metadata = some metadata ∧
    metadata.url ≠ ""

/-- The size that interrupted downloads are ordered by, which is that of the complete file. -/
def World.size (world : World) (relative : String) : ℕ :=
  ((world.files relative).finalFile.map List.length).getD 0

/-! ## The steps -/

/-- How far an install is. -/
inductive InstallPhase
  | checking
  | preparing
  /-- It looks for an interrupted download. -/
  | looking
  | resuming (job : Job) (phase : TransferPhase)
  /-- The interrupted download is complete and is to be recorded. -/
  | adopting (job : Job)
  | resolving
  | searching
  | listing (repoId : String)
  | awaitingFiles (repoId : String)
  | downloading (repoId : String) (job : Job) (phase : TransferPhase)
  /-- The size of the downloaded file is read. -/
  | measuring (repoId : String) (job : Job)
  /-- It looks for a tokenizer. -/
  | equipping (repoId : String) (job : Job)
  | askingBase (repoId : String) (job : Job)
  | awaitingBase (repoId : String) (job : Job)
  /-- A tokenizer is downloaded, with these repositories left to try. -/
  | fetching (job current : Job) (rest : List Job) (phase : TransferPhase)
  | recording (job : Job)
  | returned (result : Except RegistryError InstalledInfo)

section

variable (registry : ModelRegistry) (call : InstallCall)

/-- The phase behind creating the directory: an interrupted download is only looked for if no
file is asked for. -/
def afterPreparing : InstallPhase :=
  match call.filePreference with
  | none => .looking
  | some _ => .resolving

/-- One step of an install, or a call of `cancel_download` beside it. -/
inductive InstallStep : World × InstallPhase → InstallEvent → World × InstallPhase → Prop
  | cancel {world : World} {phase : InstallPhase} (key : String) :
      InstallStep (world, phase) ⟨.cancel key (world.cancelAnswer key), []⟩
        (world.cancelDownload key, phase)
  | alreadyInstalled {world : World} (installed : (world.index call.modelId).isSome) :
      InstallStep (world, .checking) ⟨.work, []⟩
        (world, .returned (.error (.alreadyInstalled call.modelId)))
  | check {world : World} (absent : world.index call.modelId = none) :
      InstallStep (world, .checking) ⟨.work, []⟩ (world, .preparing)
  | prepare {world : World} :
      InstallStep (world, .preparing)
        ⟨.work, registry.missingDirs world call.modelId⟩
        (world.addDirs (registry.missingDirs world call.modelId),
          afterPreparing call)
  | prepareFails {world : World} (made : ℕ) (message : String) :
      InstallStep (world, .preparing)
        ⟨.work, (registry.missingDirs world call.modelId).take made⟩
        (world.addDirs ((registry.missingDirs world call.modelId).take made),
          .returned (.error (.io message)))
  | nothingFound {world : World}
      (none : ∀ relative metadata,
        ¬ world.resumable (registry.modelPlace call.modelId) relative metadata) :
      InstallStep (world, .looking) ⟨.work, []⟩ (world, .resolving)
  /-- Of the interrupted downloads, the one with the largest complete file is resumed; the
  name breaks ties. -/
  | found {world : World} (relative : String) (metadata : PartialMeta)
      (resumable : world.resumable (registry.modelPlace call.modelId) relative metadata)
      (first : ∀ other metadata,
        world.resumable (registry.modelPlace call.modelId) other metadata →
          world.size other < world.size relative ∨
            world.size other = world.size relative ∧ relative ≤ other) :
      InstallStep (world, .looking) ⟨.found relative, []⟩
        (world, .resuming (registry.resumeJob call relative metadata) .mkdir)
  | resume {world world' : World} {job : Job} {phase phase' : TransferPhase}
      {event : InstallEvent}
      (step : TransferStep registry.cwd job (world, phase) event (world', phase')) :
      InstallStep (world, .resuming job phase) event (world', .resuming job phase')
  | resumed {world : World} {job : Job} {path : String} :
      InstallStep (world, .resuming job (.running (.returned (.ok path)))) ⟨.work, []⟩
        (world, .adopting job)
  /-- Why the interrupted download could not be resumed is only logged. -/
  | notResumed {world : World} {job : Job} {error : RegistryError} :
      InstallStep (world, .resuming job (.running (.returned (.error error)))) ⟨.work, []⟩
        (world, .resolving)
  | adopt {world : World} {job : Job} :
      InstallStep (world, .adopting job) ⟨.save, registry.indexPlaces⟩
        (world.setInstalled call.modelId (registry.installedInfo call world job),
          .returned (.ok (registry.installedInfo call world job)))
  /-- The size of the file cannot be read. -/
  | notMeasured {world : World} {job : Job} :
      InstallStep (world, .adopting job) ⟨.work, []⟩ (world, .resolving)
  /-- The index cannot be saved, but knows the model. -/
  | notAdopted {world : World} {job : Job} :
      InstallStep (world, .adopting job) ⟨.save, registry.indexPlaces⟩
        (world.setInstalled call.modelId (registry.installedInfo call world job), .resolving)
  | isRepo {world : World} (slash : '/' ∈ call.modelId.toList) :
      InstallStep (world, .resolving) ⟨.work, []⟩ (world, .listing call.modelId)
  | known {world : World} {repoId : String} (noSlash : '/' ∉ call.modelId.toList)
      (known : registry.knownRepo call.modelId = some repoId) :
      InstallStep (world, .resolving) ⟨.work, []⟩ (world, .listing repoId)
  | search {world : World} (noSlash : '/' ∉ call.modelId.toList)
      (unknown : registry.knownRepo call.modelId = none) :
      InstallStep (world, .resolving) ⟨.request, []⟩ (world, .searching)
  | searchFails {world : World} (message : String) :
      InstallStep (world, .searching) ⟨.work, []⟩
        (world, .returned (.error (.huggingFaceError message)))
  /-- The first result counts, if it names its repository. -/
  | searched {world : World} (repoId : String) :
      InstallStep (world, .searching) ⟨.work, []⟩ (world, .listing repoId)
  | notFound {world : World} :
      InstallStep (world, .searching) ⟨.work, []⟩
        (world, .returned (.error (.modelNotFound
          s!"Could not resolve '{call.modelId}' to a HuggingFace repository")))
  | list {world : World} {repoId : String} :
      InstallStep (world, .listing repoId) ⟨.request, []⟩ (world, .awaitingFiles repoId)
  | listFails {world : World} {repoId : String} (message : String) :
      InstallStep (world, .awaitingFiles repoId) ⟨.work, []⟩
        (world, .returned (.error (.huggingFaceError message)))
  | noFiles {world : World} {repoId : String} (siblings : List HfSibling)
      (empty : listFiles repoId siblings = []) :
      InstallStep (world, .awaitingFiles repoId) ⟨.work, []⟩
        (world, .returned (.error (.noFilesFound call.modelId)))
  | notChosen {world : World} {repoId : String} {error : RegistryError}
      (siblings : List HfSibling) (partials : List String)
      (nonempty : listFiles repoId siblings ≠ [])
      (chosen : registry.chooseFile call (listFiles repoId siblings) partials = .error error) :
      InstallStep (world, .awaitingFiles repoId) ⟨.work, []⟩ (world, .returned (.error error))
  | choose {world : World} {repoId : String} {file : RemoteFile} (siblings : List HfSibling)
      (partials : List String) (sorted : partials.Pairwise (· ≤ ·))
      (scanned : ∀ name, name ∈ partials ↔
        world.hasPartial (registry.modelPlace call.modelId) name)
      (chosen : registry.chooseFile call (listFiles repoId siblings) partials = .ok file) :
      InstallStep (world, .awaitingFiles repoId) ⟨.chosen file.filename, []⟩
        (world, .downloading repoId (registry.fileJob call file) .mkdir)
  | download {world world' : World} {repoId : String} {job : Job}
      {phase phase' : TransferPhase} {event : InstallEvent}
      (step : TransferStep registry.cwd job (world, phase) event (world', phase')) :
      InstallStep (world, .downloading repoId job phase) event
        (world', .downloading repoId job phase')
  | downloaded {world : World} {repoId : String} {job : Job} {path : String} :
      InstallStep (world, .downloading repoId job (.running (.returned (.ok path)))) ⟨.work, []⟩
        (world, .measuring repoId job)
  | notDownloaded {world : World} {repoId : String} {job : Job} {error : RegistryError} :
      InstallStep (world, .downloading repoId job (.running (.returned (.error error))))
        ⟨.work, []⟩ (world, .returned (.error error))
  | measure {world : World} {repoId : String} {job : Job} :
      InstallStep (world, .measuring repoId job) ⟨.work, []⟩ (world, .equipping repoId job)
  | measureFails {world : World} {repoId : String} {job : Job} (message : String) :
      InstallStep (world, .measuring repoId job) ⟨.work, []⟩
        (world, .returned (.error (.io message)))
  | equipped {world : World} {repoId : String} {job : Job}
      (there : (world.files "tokenizer.json").finalFile.isSome) :
      InstallStep (world, .equipping repoId job) ⟨.work, []⟩ (world, .recording job)
  | equip {world : World} {repoId : String} {job : Job}
      (absent : (world.files "tokenizer.json").finalFile = none) :
      InstallStep (world, .equipping repoId job) ⟨.work, []⟩ (world, .askingBase repoId job)
  | askBase {world : World} {repoId : String} {job : Job} :
      InstallStep (world, .askingBase repoId job) ⟨.request, []⟩ (world, .awaitingBase repoId job)
  | based {world : World} {repoId : String} {job : Job} (base : Option String) :
      InstallStep (world, .awaitingBase repoId job) ⟨.work, []⟩
        (world, .fetching job (registry.tokenizerJob call repoId)
          ((registry.otherRepos repoId call.modelId base).map (registry.tokenizerJob call)) .mkdir)
  | fetch {world world' : World} {job current : Job} {rest : List Job}
      {phase phase' : TransferPhase} {event : InstallEvent}
      (step : TransferStep registry.cwd current (world, phase) event (world', phase')) :
      InstallStep (world, .fetching job current rest phase) event
        (world', .fetching job current rest phase')
  | fetched {world : World} {job current : Job} {rest : List Job} {path : String} :
      InstallStep (world, .fetching job current rest (.running (.returned (.ok path))))
        ⟨.work, []⟩ (world, .recording job)
  | fetchNext {world : World} {job current next : Job} {rest : List Job}
      {error : RegistryError} :
      InstallStep
        (world, .fetching job current (next :: rest) (.running (.returned (.error error))))
        ⟨.work, []⟩ (world, .fetching job next rest .mkdir)
  | fetchedNone {world : World} {job current : Job} {error : RegistryError} :
      InstallStep (world, .fetching job current [] (.running (.returned (.error error))))
        ⟨.work, []⟩ (world, .recording job)
  | record {world : World} {job : Job} :
      InstallStep (world, .recording job) ⟨.save, registry.indexPlaces⟩
        (world.setInstalled call.modelId (registry.installedInfo call world job),
          .returned (.ok (registry.installedInfo call world job)))
  | notRecorded {world : World} {job : Job} (error : RegistryError) :
      InstallStep (world, .recording job) ⟨.save, registry.indexPlaces⟩
        (world.setInstalled call.modelId (registry.installedInfo call world job),
          .returned (.error error))

end

/-- A registry with its models in `/models`. -/
def plainRegistry : ModelRegistry where
  cwd := []
  modelsDir := "/models".toList
  indexFile := "/registry.json".toList
  streamRetries := 5
  sha256 _ := "00"
  uppercase := id
  lowercase := id
  knownRepo _ := none
  modelsDir_ne := by decide

end HiveBear.Registry
