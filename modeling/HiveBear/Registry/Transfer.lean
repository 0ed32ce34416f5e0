/-
# A download among others

A download of the registry runs in a world that it shares with the rest of an install: the
directories that exist, the files, and the channels through which downloads are cancelled.
Its phases are those of the download machine, with the attempts of a request taken apart:
between two attempts the download sleeps, and a cancellation may arrive.

A cancellation is looked for at the head of the loop and at each item of a stream, and
nowhere else. Every step says what kind of step it is and which files and directories it
creates, overwrites or deletes.
-/

import HiveBear.Library.Paths
import HiveBear.Registry.Download

namespace HiveBear.Registry

open Paths

/-! ## One attempt -/

/-- What comes of an attempt with so many retries left: nothing yet if it is repeated. -/
def attemptResult (url : String) (maxRetries retries : ℕ) (outcome : Except String Response) :
    Option (Except RegistryError Response) :=
  match outcome with
  | .ok response =>
      if response.isSuccess then some (.ok response)
      else if (response.status = 429 ∨ response.isServerError) ∧ 0 < retries then none
      else some (.error (response.statusError url))
  | .error e =>
      if 0 < retries then none
      else some (.error (.downloadError s!"Download failed after {maxRetries + 1} attempts: {e}"))

/-- A request is its attempts, one after the other. -/
theorem sendFrom_eq (url : String) (maxRetries retries : ℕ) (attempts : Attempts) :
    sendFrom url maxRetries attempts retries =
      match attemptResult url maxRetries retries (attempts (maxRetries - retries)) with
      | some result => result
      | none => sendFrom url maxRetries attempts (retries - 1) := by
  cases retries with
  | zero =>
      rw [sendFrom, Nat.sub_zero]
      cases attempts maxRetries with
      | error e => rfl
      | ok response => by_cases hsuccess : response.isSuccess <;> simp [attemptResult, hsuccess]
  | succ retries =>
      rw [sendFrom]
      cases attempts (maxRetries - (retries + 1)) with
      | error e => simp [attemptResult]
      | ok response =>
          by_cases hsuccess : response.isSuccess
          · simp [attemptResult, hsuccess]
          · by_cases htransient : response.status = 429 ∨ response.isServerError <;>
              simp [attemptResult, hsuccess, htransient]

/-- What a request in flight is for. -/
inductive Asked
  /-- The bytes from an offset on. -/
  | bytes (bytesDownloaded retriesLeft : ℕ) (metadata : PartialMeta)
  /-- The whole file, behind an unsatisfiable range. -/
  | whole (retriesLeft : ℕ) (metadata : PartialMeta)

/-- How a download goes on behind a request. -/
def Asked.after (disk : Disk) : Asked → Except RegistryError Response → Disk × DownloadPhase
  | .bytes bytesDownloaded retriesLeft metadata, .ok response =>
      (disk, .responding bytesDownloaded retriesLeft metadata response)
  | .bytes bytesDownloaded retriesLeft metadata, .error e =>
      if 0 < bytesDownloaded then
        if "416".toList <:+: e.text.toList then
          ({ disk with partialFile := none }, .restarting retriesLeft metadata)
        else (disk, .returned (.error e))
      else (disk, .cleaning e)
  | .whole retriesLeft metadata, .ok response => (disk, .responding 0 retriesLeft metadata response)
  | .whole _ _, .error e => (disk, .cleaning e)

/-- Taken together, the attempts lead where the download machine goes in one step. -/
theorem Asked.after_eq (target : Target) (disk : Disk) (attempts : Attempts) :
    (∀ bytesDownloaded retriesLeft metadata,
      (Asked.bytes bytesDownloaded retriesLeft metadata).after disk
          (sendWithRetry target.url requestRetries attempts) =
        target.afterRequest disk bytesDownloaded retriesLeft metadata attempts) ∧
    ∀ retriesLeft metadata,
      (Asked.whole retriesLeft metadata).after disk
          (sendWithRetry target.url requestRetries attempts) =
        target.afterRestart disk retriesLeft metadata attempts := by
  simp only [Target.afterRequest, Target.afterRestart]
  cases sendWithRetry target.url requestRetries attempts with
  | ok response => exact ⟨fun _ _ _ => rfl, fun _ _ => rfl⟩
  | error e => exact ⟨fun _ _ _ => rfl, fun _ _ => rfl⟩

/-- What follows a response is opening the file. -/
theorem proceed_responding (target : Target) (call : DownloadCall) (disk : Disk)
    (bytesDownloaded retriesLeft : ℕ) (metadata : PartialMeta) (response : Response) :
    ∃ disk' offset described totalBytes,
      target.proceed call disk (.responding bytesDownloaded retriesLeft metadata response) =
        some (disk', .opening offset retriesLeft described totalBytes response) := by
  rw [Target.proceed]
  dsimp only
  split_ifs <;> exact ⟨_, _, _, _, rfl⟩

/-! ## The world of a download -/

/-- Information about an installed model. -/
structure InstalledInfo where
  /-- The directory of the model's files. -/
  path : Text
  sizeBytes : ℕ
  sha256 : Option String
  filename : String

/-- What an install works on. The files of a model are given by the name that is joined to
the model's directory. -/
structure World where
  files : String → Disk
  dirs : List Location
  /-- The channel that is registered under a key. -/
  cancellations : String → Option ℕ
  /-- The channels on which a cancellation has been sent. -/
  sent : List ℕ
  /-- The channel of the download that started last. -/
  channel : ℕ
  /-- What the index says of a model that is installed. -/
  index : String → Option InstalledInfo

namespace World

variable (world : World)

/-- The running download finds its cancellation when it looks for it. -/
def cancelSent : Prop := world.channel ∈ world.sent

instance : Decidable world.cancelSent := inferInstanceAs (Decidable (_ ∈ _))

/-- A new channel, under this key. -/
def register (key : String) : World :=
  { world with
    cancellations := Function.update world.cancellations key (some (world.channel + 1))
    channel := world.channel + 1 }

def unregister (key : String) : World :=
  { world with cancellations := Function.update world.cancellations key none }

/-- Cancel the download that is registered under a key. -/
def cancelDownload (key : String) : World :=
  match world.cancellations key with
  | some channel => { world.unregister key with sent := channel :: world.sent }
  | none => world

/-- Whether there is one. -/
def cancelAnswer (key : String) : Bool := (world.cancellations key).isSome

def setFile (name : String) (disk : Disk) : World :=
  { world with files := Function.update world.files name disk }

def addDirs (made : List Location) : World := { world with dirs := world.dirs ++ made }

def setInstalled (modelId : String) (info : InstalledInfo) : World :=
  { world with index := Function.update world.index modelId (some info) }

end World

/-! ## Steps -/

/-- A download: what it asks for, and the directory that its file name is joined to. Its key
is the model id of the call. -/
structure Job where
  target : Target
  call : DownloadCall
  destDir : Text

namespace Job

variable (job : Job)

def finalPath : Text := join job.destDir job.target.filename.toList

def partialPath : Text := join job.destDir (job.target.filename ++ ".partial").toList

def metaPath : Text := join job.destDir (job.target.filename ++ ".partial.meta").toList

/-- What is renamed to the metadata. -/
def tmpPath : Text := job.metaPath ++ ".tmp".toList

/-- The directory that is created before anything else. -/
def parentDir : List Component :=
  match parent (components job.finalPath) with
  | some above => above
  | none => components job.destDir

/-- The files that a phase creates, overwrites or deletes when it proceeds. -/
def touched (disk : Disk) : DownloadPhase → List Text
  | .planning =>
      if planResume (disk.partialFile.map List.length) disk.metadata job.target.url =
          .discardAndRestart then [job.partialPath]
      else []
  | .discarding _ => [job.metaPath]
  | .describing .. => [job.tmpPath, job.metaPath]
  | .responding bytesDownloaded _ metadata response =>
      let totalBytes := response.totalBytes
        (if response.status = 200 then 0 else bytesDownloaded) metadata.totalBytes
      if totalBytes.isSome ∧ totalBytes ≠ metadata.totalBytes then [job.tmpPath, job.metaPath]
      else []
  | .opening .. | .unlinking _ => [job.partialPath]
  | .moving => [job.partialPath, job.finalPath]
  | .tidying | .cleaning _ => [job.metaPath]
  | .requesting .. | .restarting .. | .streaming .. | .interrupted .. | .retrying ..
  | .promoting _ | .verifying | .returned _ => []

/-- Where a download goes when an operation on a file fails that it cannot do without. -/
def failed (message : String) : DownloadPhase → Option DownloadPhase
  | .opening .. | .moving => some (.cleaning (.io message))
  | .verifying => if job.call.expectedSha256.isSome then some (.cleaning (.io message)) else none
  | _ => none

end Job

/-- The phases whose operations may fail and are gone on from all the same. -/
def DownloadPhase.goesOn : DownloadPhase → Bool
  | .planning | .discarding _ | .responding .. | .tidying | .cleaning _ | .unlinking _ => true
  | _ => false

def DownloadPhase.isReturned : DownloadPhase → Bool
  | .returned _ => true
  | _ => false

/-- A download gives its channel up when it cleans up, or else when it returns. -/
def unregisters : DownloadPhase → DownloadPhase → Bool
  | .cleaning _, _ => true
  | .unlinking _, _ => false
  | _, phase' => phase'.isReturned

/-- How far a download is. -/
inductive TransferPhase
  /-- It is about to create its directory. -/
  | mkdir
  /-- It is in a phase of the download machine. -/
  | running (phase : DownloadPhase)
  /-- An attempt is in flight, with so many retries left. -/
  | sending (asked : Asked) (retries : ℕ)
  /-- It sleeps before another attempt. -/
  | waiting (asked : Asked) (retries : ℕ)

/-- What a step is. -/
inductive Kind
  | work
  /-- An HTTP request is started. -/
  | request
  /-- An attempt has failed and is to be repeated. -/
  | retry
  /-- The range was not satisfiable, and the whole file is to be asked for. -/
  | restart
  /-- A stream has ended, and nothing is known to be missing. -/
  | complete
  /-- An interrupted download of this file is to be resumed. -/
  | found (filename : String)
  /-- This file is to be downloaded. -/
  | chosen (filename : String)
  /-- The index is saved. -/
  | save
  /-- A call of `cancel_download` with this answer. -/
  | cancel (key : String) (answer : Bool)
  deriving DecidableEq

/-- A step, and the places it creates, overwrites or deletes. -/
structure InstallEvent where
  kind : Kind
  touched : List Location

/-- Whether the request behind an answer is for the whole file. -/
def afterKind : DownloadPhase → Kind
  | .restarting .. => .restart
  | .promoting _ => .complete
  | _ => .work

section

variable (cwd : Location) (job : Job)

/-- The file of a job is changed, and its channel may be given up. -/
def World.settle (world : World) (disk : Disk) (givenUp : Bool) : World :=
  let world := world.setFile job.target.filename disk
  if givenUp then world.unregister job.call.modelId else world

/-- One step of a download. -/
inductive TransferStep : World × TransferPhase → InstallEvent → World × TransferPhase → Prop
  | mkdir {world : World} :
      TransferStep (world, .mkdir) ⟨.work, missing world.dirs cwd job.parentDir⟩
        ((world.addDirs (missing world.dirs cwd job.parentDir)).register job.call.modelId,
          .running .planning)
  /-- A directory cannot be created, and those in front of it are there. -/
  | mkdirFails {world : World} (made : ℕ) (message : String) :
      TransferStep (world, .mkdir) ⟨.work, (missing world.dirs cwd job.parentDir).take made⟩
        (world.addDirs ((missing world.dirs cwd job.parentDir).take made),
          .running (.returned (.error (.io message))))
  | proceed {world : World} {disk : Disk} {phase phase' : DownloadPhase}
      (proceeds : job.target.proceed job.call (world.files job.target.filename) phase =
        some (disk, phase'))
      (free : phase = .moving → leadsTo cwd job.finalPath ∉ world.dirs) :
      TransferStep (world, .running phase)
        ⟨.work, (job.touched (world.files job.target.filename) phase).map (leadsTo cwd)⟩
        (world.settle job disk (unregisters phase phase'), .running phase')
  /-- An operation fails, and the download goes on as if it had not. -/
  | goOn {world : World} {disk : Disk} {phase phase' : DownloadPhase}
      (proceeds : job.target.proceed job.call (world.files job.target.filename) phase =
        some (disk, phase'))
      (goesOn : phase.goesOn) :
      TransferStep (world, .running phase) ⟨.work, []⟩
        (world.settle job (world.files job.target.filename) (unregisters phase phase'),
          .running phase')
  | fail {world : World} {phase phase' : DownloadPhase} (message : String)
      (fails : job.failed message phase = some phase') :
      TransferStep (world, .running phase) ⟨.work, []⟩ (world, .running phase')
  /-- Metadata cannot be saved. The channel stays registered. -/
  | describeFails {world : World} {bytesDownloaded : ℕ} {previous : Option PartialMeta}
      (message : String) :
      TransferStep (world, .running (.describing bytesDownloaded previous))
        ⟨.work, [leadsTo cwd job.tmpPath]⟩ (world, .running (.returned (.error (.io message))))
  /-- The head of the loop, cancelled and not. -/
  | cancelRequest {world : World} {bytesDownloaded retriesLeft : ℕ} {metadata : PartialMeta}
      (sent : world.cancelSent) :
      TransferStep (world, .running (.requesting bytesDownloaded retriesLeft metadata))
        ⟨.work, []⟩ (world, .running (.cleaning cancelled))
  | request {world : World} {bytesDownloaded retriesLeft : ℕ} {metadata : PartialMeta}
      (notSent : ¬ world.cancelSent) :
      TransferStep (world, .running (.requesting bytesDownloaded retriesLeft metadata))
        ⟨.request, []⟩
        (world, .sending (.bytes bytesDownloaded retriesLeft metadata) requestRetries)
  | restart {world : World} {retriesLeft : ℕ} {metadata : PartialMeta} :
      TransferStep (world, .running (.restarting retriesLeft metadata)) ⟨.request, []⟩
        (world, .sending (.whole retriesLeft metadata) requestRetries)
  | retry {world : World} {asked : Asked} {retries : ℕ} (outcome : Except String Response)
      (repeated : attemptResult job.target.url requestRetries retries outcome = none) :
      TransferStep (world, .sending asked retries) ⟨.retry, []⟩
        (world, .waiting asked (retries - 1))
  | again {world : World} {asked : Asked} {retries : ℕ} :
      TransferStep (world, .waiting asked retries) ⟨.request, []⟩ (world, .sending asked retries)
  | answer {world : World} {disk : Disk} {phase' : DownloadPhase} {asked : Asked} {retries : ℕ}
      {result : Except RegistryError Response} (outcome : Except String Response)
      (decided : attemptResult job.target.url requestRetries retries outcome = some result)
      (after : asked.after (world.files job.target.filename) result = (disk, phase')) :
      TransferStep (world, .sending asked retries)
        ⟨afterKind phase',
          if afterKind phase' = .restart then [leadsTo cwd job.partialPath] else []⟩
        (world.settle job disk phase'.isReturned, .running phase')
  /-- An item of the stream arrives, whatever it is. -/
  | cancelStream {world : World} {bytesDownloaded retriesLeft : ℕ} {metadata : PartialMeta}
      {totalBytes : Option ℕ} {body : List UInt8} (sent : world.cancelSent) :
      TransferStep
        (world, .running (.streaming bytesDownloaded retriesLeft metadata totalBytes body))
        ⟨.work, []⟩ (world, .running (.cleaning cancelled))
  | chunk {world : World} {bytesDownloaded retriesLeft : ℕ} {metadata : PartialMeta}
      {totalBytes : Option ℕ} {chunk rest : List UInt8} (notSent : ¬ world.cancelSent) :
      TransferStep
        (world,
          .running (.streaming bytesDownloaded retriesLeft metadata totalBytes (chunk ++ rest)))
        ⟨.work, [leadsTo cwd job.partialPath]⟩
        (world.setFile job.target.filename
            { world.files job.target.filename with
              partialFile := (world.files job.target.filename).partialFile.map (· ++ chunk) },
          .running
            (.streaming (bytesDownloaded + chunk.length) retriesLeft metadata totalBytes rest))
  | chunkFails {world : World} {bytesDownloaded retriesLeft : ℕ} {metadata : PartialMeta}
      {totalBytes : Option ℕ} {body : List UInt8} (notSent : ¬ world.cancelSent)
      (message : String) :
      TransferStep
        (world, .running (.streaming bytesDownloaded retriesLeft metadata totalBytes body))
        ⟨.work, [leadsTo cwd job.partialPath]⟩ (world, .running (.cleaning (.io message)))
  | streamError {world : World} {bytesDownloaded retriesLeft : ℕ} {metadata : PartialMeta}
      {totalBytes : Option ℕ} {body : List UInt8} (notSent : ¬ world.cancelSent) :
      TransferStep
        (world, .running (.streaming bytesDownloaded retriesLeft metadata totalBytes body))
        ⟨.work, []⟩ (world, .running (.interrupted retriesLeft metadata))
  /-- The stream ends, which is no item. -/
  | streamEnd {world : World} {bytesDownloaded retriesLeft : ℕ} {metadata : PartialMeta}
      {totalBytes : Option ℕ} {body : List UInt8} :
      TransferStep
        (world, .running (.streaming bytesDownloaded retriesLeft metadata totalBytes body))
        ⟨afterKind (afterStream bytesDownloaded retriesLeft metadata totalBytes), []⟩
        (world, .running (afterStream bytesDownloaded retriesLeft metadata totalBytes))

end

end HiveBear.Registry
