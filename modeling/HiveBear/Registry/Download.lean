/-
# Resumable downloads

A download collects a file under a `.partial` name, next to metadata that names the URL
it comes from, and renames it when it is complete. An interrupted download keeps what it
has; the next call decides from the two files whether to continue behind it.

The download is modelled as a machine over the disk. Between two of its phases there is at
most one operation on a file, so that a crash can happen between any two of them. Requests
and the body of a response come from outside. The operations on files succeed.
-/

import Mathlib.Algebra.Group.Nat.Defs
import Mathlib.Data.List.Infix

namespace HiveBear.Registry

/-! ## Data -/

/-- Errors of the registry. -/
inductive RegistryError
  | modelNotFound (message : String)
  | downloadError (message : String)
  | downloadInterrupted (modelId : String)
  | integrityError (path expected actual : String)
  | alreadyInstalled (modelId : String)
  | noFilesFound (message : String)
  | huggingFaceError (message : String)
  | indexError (message : String)
  | io (message : String)

/-- The text of an error. -/
def RegistryError.text : RegistryError → String
  | .modelNotFound message => s!"Model not found: {message}"
  | .downloadError message => s!"Download failed: {message}"
  | .downloadInterrupted modelId =>
      s!"Download interrupted — resume with `hivebear install {modelId}`"
  | .integrityError path expected actual =>
      s!"Integrity check failed for {path}: expected SHA-256 {expected}, got {actual}"
  | .alreadyInstalled modelId => s!"Model already installed: {modelId}"
  | .noFilesFound message => s!"No downloadable files found for model: {message}"
  | .huggingFaceError message => s!"HuggingFace API error: {message}"
  | .indexError message => s!"Local index error: {message}"
  | .io message => s!"IO error: {message}"

/-- Metadata stored alongside a partial download. -/
structure PartialMeta where
  /-- The URL the `.partial` bytes came from. -/
  url : String
  /-- Full size of the file, once a response revealed it. -/
  totalBytes : Option ℕ
  sha256Expected : Option String
  modelId : String
  filename : String
  startedAt : ℕ

/-- What to do with the bytes already in a `.partial` file. -/
inductive ResumePlan
  /-- Nothing usable on disk: start at offset 0. -/
  | fresh
  /-- Keep the bytes already written and continue from `offset`. -/
  | resume (offset : ℕ)
  /-- The stored bytes belong to a different URL. -/
  | discardAndRestart
  deriving DecidableEq

/-- Decide whether an interrupted download can be resumed. Metadata that is missing or
cannot be read is no reason to throw bytes away. -/
def planResume (storedLength : Option ℕ) (metadata : Option PartialMeta) (url : String) :
    ResumePlan :=
  match storedLength.filter fun length => 0 < length with
  | none => .fresh
  | some length =>
      match metadata with
      | some metadata => if metadata.url = url then .resume length else .discardAndRestart
      | none => .resume length

/-- Bytes on disk are kept unless metadata names another URL. -/
theorem planResume_of_pos {length : ℕ} (hpos : 0 < length) (metadata : Option PartialMeta)
    (url : String) :
    planResume (some length) metadata url =
      if ∃ described ∈ metadata, described.url ≠ url then .discardAndRestart
      else .resume length := by
  have hkept : (some length).filter (fun length => 0 < length) = some length := by
    simp [Option.filter, hpos]
  rw [planResume, hkept]
  cases metadata with
  | none => simp
  | some described => by_cases hurl : described.url = url <;> simp [hurl]

/-- The number that decimal digits denote, if it fits 64 bits. A leading plus sign is
accepted. -/
def parseU64 (text : List Char) : Option ℕ :=
  let digits : List Char :=
    match text with
    | '+' :: rest => rest
    | _ => text
  let value : ℕ := digits.foldl (fun n c => 10 * n + (c.toNat - '0'.toNat)) 0
  if digits ≠ [] ∧ digits.all Char.isDigit ∧ value < 2 ^ 64 then some value else none

/-- Text without blanks at its ends. -/
def trim (text : List Char) : List Char :=
  ((text.dropWhile Char.isWhitespace).reverse.dropWhile Char.isWhitespace).reverse

/-- Total size advertised by a header `Content-Range: bytes <start>-<end>/<total>`: the
number behind its last slash. -/
def parseContentRangeTotal (value : String) : Option ℕ :=
  let total := (value.toList.reverse.takeWhile fun c => c ≠ '/').reverse
  if '/' ∈ value.toList then parseU64 (trim total) else none

example : parseContentRangeTotal "bytes 0-99/ 100" = some 100 := by decide

example : parseContentRangeTotal "bytes 0-99/*" = none := by decide

/-! ## Requests -/

/-- A response to a request. The body is what the server would send in full. -/
structure Response where
  status : ℕ
  reason : String
  contentRange : Option String
  contentLength : Option ℕ
  body : List UInt8

namespace Response

variable (response : Response)

def isSuccess : Prop := 200 ≤ response.status ∧ response.status < 300

def isServerError : Prop := 500 ≤ response.status ∧ response.status < 600

instance : Decidable response.isSuccess := inferInstanceAs (Decidable (_ ∧ _))

instance : Decidable response.isServerError := inferInstanceAs (Decidable (_ ∧ _))

/-- The response holds only a range of the file. -/
def isPartialContent : Bool := response.status = 206

/-- The error for a status that is not retried any more. -/
def statusError (url : String) : RegistryError :=
  .downloadError <|
    match response.status with
    | 401 | 403 => s!"Access denied (HTTP {response.status} {response.reason}). " ++
        "You may need to set HF_TOKEN for gated models."
    | 404 => "File not found (HTTP 404). The model file may have been moved or renamed."
    | 416 => "Requested range not satisfiable (HTTP 416)."
    | 429 => "Rate limited (HTTP 429). Try again in a few minutes, or set HF_TOKEN for " ++
        "higher limits."
    | status => s!"HTTP {status} {response.reason} for {url}"

/-- The size of the whole file, as far as it is known: from the range, else from the
length of the body, which on a partial response counts from the offset, else as before. -/
def totalBytes (bytesDownloaded : ℕ) (known : Option ℕ) : Option ℕ :=
  let rangeTotal :=
    if response.isPartialContent then response.contentRange.bind parseContentRangeTotal else none
  let lengthTotal :=
    if response.isPartialContent then response.contentLength.map fun length =>
      length + bytesDownloaded
    else response.contentLength
  rangeTotal.or (lengthTotal.or known)

end Response

/-- The outcomes of the attempts of a request: a network error or a response. -/
abbrev Attempts := ℕ → Except String Response

/-- The attempts of a request from one on, with so many retries left. -/
def sendFrom (url : String) (maxRetries : ℕ) (attempts : Attempts) :
    ℕ → Except RegistryError Response
  | 0 =>
      match attempts maxRetries with
      | .ok response =>
          if response.isSuccess then .ok response else .error (response.statusError url)
      | .error e =>
          .error (.downloadError s!"Download failed after {maxRetries + 1} attempts: {e}")
  | retries + 1 =>
      match attempts (maxRetries - (retries + 1)) with
      | .ok response =>
          if response.isSuccess then .ok response
          else if response.status = 429 ∨ response.isServerError then
            sendFrom url maxRetries attempts retries
          else .error (response.statusError url)
      | .error _ => sendFrom url maxRetries attempts retries

/-- Send a request with retries for transient errors. -/
def sendWithRetry (url : String) (maxRetries : ℕ) (attempts : Attempts) :
    Except RegistryError Response :=
  sendFrom url maxRetries attempts maxRetries

/-- How many retries every request gets. -/
def requestRetries : ℕ := 3

/-- A request that succeeds returns the response of one of its attempts. -/
theorem sendFrom_ok {url : String} {maxRetries retries : ℕ} {attempts : Attempts}
    {response : Response} (h : sendFrom url maxRetries attempts retries = .ok response) :
    ∃ i, attempts i = .ok response ∧ response.isSuccess := by
  induction retries with
  | zero =>
      rw [sendFrom] at h
      split at h
      · rename_i received hreceived
        split_ifs at h with hsuccess
        cases h
        exact ⟨maxRetries, hreceived, hsuccess⟩
      · cases h
  | succ retries ih =>
      rw [sendFrom] at h
      split at h
      · rename_i received hreceived
        split_ifs at h with hsuccess htransient
        · cases h
          exact ⟨_, hreceived, hsuccess⟩
        · exact ih h
      · exact ih h

/-! ## The download -/

/-- The files of a download. Metadata is there only if it can be read. -/
structure Disk where
  partialFile : Option (List UInt8)
  metadata : Option PartialMeta
  finalFile : Option (List UInt8)

/-- Where a download comes from and goes to. -/
structure Target where
  url : String
  filename : String
  partialPath : String
  finalPath : String
  /-- The digest of some bytes in hexadecimal. -/
  sha256 : List UInt8 → String

/-- What a call asks for, besides its target. -/
structure DownloadCall where
  expectedSha256 : Option String
  modelId : String
  streamRetries : ℕ
  now : ℕ

/-- How far a download is. -/
inductive DownloadPhase
  /-- It is about to look at the files. -/
  | planning
  /-- The bytes of another URL are removed, their metadata is not. -/
  | discarding (previous : Option PartialMeta)
  /-- It is about to save metadata. -/
  | describing (bytesDownloaded : ℕ) (previous : Option PartialMeta)
  /-- It is at the head of the loop. -/
  | requesting (bytesDownloaded retriesLeft : ℕ) (metadata : PartialMeta)
  /-- The range was not satisfiable, and the bytes on disk are removed. -/
  | restarting (retriesLeft : ℕ) (metadata : PartialMeta)
  | responding (bytesDownloaded retriesLeft : ℕ) (metadata : PartialMeta) (response : Response)
  | opening (bytesDownloaded retriesLeft : ℕ) (metadata : PartialMeta) (totalBytes : Option ℕ)
      (response : Response)
  /-- It writes the body of a response. -/
  | streaming (bytesDownloaded retriesLeft : ℕ) (metadata : PartialMeta)
      (totalBytes : Option ℕ) (body : List UInt8)
  /-- The stream has failed or ended too early. -/
  | interrupted (retriesLeft : ℕ) (metadata : PartialMeta)
  | retrying (retriesLeft : ℕ) (metadata : PartialMeta)
  /-- The stream is through. -/
  | promoting (knownTotal : Option ℕ)
  | verifying
  | moving
  /-- The file is in place, its metadata is still to be removed. -/
  | tidying
  /-- Metadata and bytes are to be removed, one after the other. -/
  | cleaning (error : RegistryError)
  | unlinking (error : RegistryError)
  | returned (result : Except RegistryError String)

/-- The error of a cancelled download. -/
def cancelled : RegistryError := .downloadError "Download cancelled by user"

namespace Target

variable (target : Target) (call : DownloadCall)

/-- The metadata that a call saves. -/
def describe (previous : Option PartialMeta) : PartialMeta where
  url := target.url
  totalBytes := previous.bind PartialMeta.totalBytes
  sha256Expected := call.expectedSha256
  modelId := call.modelId
  filename := target.filename
  startedAt := (previous.map PartialMeta.startedAt).getD call.now

/-- What a download does next on its own, up to an operation on a file. -/
def proceed (disk : Disk) : DownloadPhase → Option (Disk × DownloadPhase)
  | .planning =>
      match planResume (disk.partialFile.map List.length) disk.metadata target.url with
      | .fresh => some (disk, .describing 0 disk.metadata)
      | .discardAndRestart => some ({ disk with partialFile := none }, .discarding disk.metadata)
      | .resume offset => some (disk, .describing offset disk.metadata)
  | .discarding previous => some ({ disk with metadata := none }, .describing 0 previous)
  | .describing bytesDownloaded previous =>
      let metadata := target.describe call previous
      some ({ disk with metadata := some metadata },
        .requesting bytesDownloaded call.streamRetries metadata)
  | .responding bytesDownloaded retriesLeft metadata response =>
      -- a full response means that the range was ignored
      let offset := if response.status = 200 then 0 else bytesDownloaded
      let totalBytes := response.totalBytes offset metadata.totalBytes
      if totalBytes.isSome ∧ totalBytes ≠ metadata.totalBytes then
        let described := { metadata with totalBytes := totalBytes }
        some ({ disk with metadata := some described },
          .opening offset retriesLeft described totalBytes response)
      else some (disk, .opening offset retriesLeft metadata totalBytes response)
  | .opening bytesDownloaded retriesLeft metadata totalBytes response =>
      let opened :=
        if response.isPartialContent ∧ 0 < bytesDownloaded then disk.partialFile.getD [] else []
      some ({ disk with partialFile := some opened },
        .streaming bytesDownloaded retriesLeft metadata totalBytes response.body)
  | .interrupted retriesLeft metadata =>
      if retriesLeft = 0 then some (disk, .returned (.error (.downloadInterrupted call.modelId)))
      else some (disk, .retrying (retriesLeft - 1) metadata)
  | .retrying retriesLeft metadata =>
      -- a retry resumes from what is on disk
      some (disk, .requesting ((disk.partialFile.map List.length).getD 0) retriesLeft metadata)
  | .promoting knownTotal =>
      let onDisk := (disk.partialFile.map List.length).getD 0
      if knownTotal.any fun total => onDisk < total then
        some (disk, .returned (.error (.downloadInterrupted call.modelId)))
      else some (disk, .verifying)
  | .verifying =>
      match call.expectedSha256, disk.partialFile with
      | none, _ => some (disk, .moving)
      | some _, none => none
      | some expected, some bytes =>
          let actual := target.sha256 bytes
          if actual.toList.map Char.toLower ≠ expected.toList.map Char.toLower then
            some (disk, .cleaning (.integrityError target.partialPath expected actual))
          else some (disk, .moving)
  | .moving =>
      match disk.partialFile with
      | some bytes => some ({ disk with partialFile := none, finalFile := some bytes }, .tidying)
      | none => none
  | .tidying => some ({ disk with metadata := none }, .returned (.ok target.finalPath))
  | .cleaning error => some ({ disk with metadata := none }, .unlinking error)
  | .unlinking error => some ({ disk with partialFile := none }, .returned (.error error))
  | .requesting .. | .restarting .. | .streaming .. | .returned _ => none

/-- The outcome of a request for the bytes from an offset on. -/
def afterRequest (disk : Disk) (bytesDownloaded retriesLeft : ℕ) (metadata : PartialMeta)
    (attempts : Attempts) : Disk × DownloadPhase :=
  match sendWithRetry target.url requestRetries attempts with
  | .ok response => (disk, .responding bytesDownloaded retriesLeft metadata response)
  | .error e =>
      if 0 < bytesDownloaded then
        if "416".toList <:+: e.text.toList then
          ({ disk with partialFile := none }, .restarting retriesLeft metadata)
        else (disk, .returned (.error e))
      else (disk, .cleaning e)

/-- The outcome of the request for the whole file behind an unsatisfiable range. -/
def afterRestart (disk : Disk) (retriesLeft : ℕ) (metadata : PartialMeta)
    (attempts : Attempts) : Disk × DownloadPhase :=
  match sendWithRetry target.url requestRetries attempts with
  | .ok response => (disk, .responding 0 retriesLeft metadata response)
  | .error e => (disk, .cleaning e)

end Target

/-- The stream has ended without an error: it is through unless bytes are missing. -/
def afterStream (bytesDownloaded retriesLeft : ℕ) (metadata : PartialMeta)
    (totalBytes : Option ℕ) : DownloadPhase :=
  if totalBytes.any fun total => bytesDownloaded < total then .interrupted retriesLeft metadata
  else .promoting totalBytes

end HiveBear.Registry
