/-
# Resuming downloads

Calls of a download follow each other on one disk. A process may crash between any two
operations, and what it has written last may then be lost. The server is honest: it always
serves the same content, honours ranges and states the true size; its connections may fail
at any time.

What carries all of it is that, from the first request on, the `.partial` file holds a
prefix of the content. A download is promoted only if as many bytes are on disk as the
content has, so what it promotes is the content.
-/

import HiveBear.Library.Run
import HiveBear.Registry.Download

namespace HiveBear.Registry

open LabelledRun

/-! ## An honest server -/

/-- A response to a request for the bytes of the content from an offset on. -/
inductive HonestResponse (content : List UInt8) (offset : ℕ) (response : Response) : Prop
  /-- All of the content, with its length. -/
  | full (status : response.status = 200) (body : response.body = content)
      (length : response.contentLength = some content.length)
  /-- A range from the offset on, with the size of the whole content in its range header, or
  else with the length of everything behind the offset. -/
  | range (requested : 0 < offset) (status : response.status = 206)
      (body : response.body <+: content.drop offset)
      (total : response.contentRange.bind parseContentRangeTotal = some content.length ∨
        response.contentRange.bind parseContentRangeTotal = none ∧
          response.contentLength = some (content.length - offset))

/-- Every attempt fails or gets an honest response. -/
def HonestAttempts (content : List UInt8) (offset : ℕ) (attempts : Attempts) : Prop :=
  ∀ i response, attempts i = .ok response → response.isSuccess →
    HonestResponse content offset response

/-! ## Runs -/

/-- The disk, and the call that runs or has returned, if the process is still there. -/
structure System where
  disk : Disk
  running : Option (DownloadCall × DownloadPhase)

/-- What a crash leaves of a partial file. -/
def Disk.cut (disk : Disk) (kept : ℕ) : Disk :=
  { disk with partialFile := disk.partialFile.map (List.take kept) }

inductive DownloadEvent
  | call
  | request
  | work
  | crash

/-- One event of a system that downloads this content to its target. -/
inductive Step (target : Target) (content : List UInt8) : System → DownloadEvent → System → Prop
  /-- A call starts, with no other running. -/
  | call {disk : Disk} {running : Option (DownloadCall × DownloadPhase)} (call : DownloadCall)
      (idle : ∀ last ∈ running, ∃ result, last.2 = .returned result) :
      Step target content ⟨disk, running⟩ .call ⟨disk, some (call, .planning)⟩
  | crash {disk : Disk} {last : DownloadCall × DownloadPhase} (kept : ℕ) :
      Step target content ⟨disk, some last⟩ .crash ⟨disk.cut kept, none⟩
  | work {disk disk' : Disk} {call : DownloadCall} {phase phase' : DownloadPhase}
      (proceeds : target.proceed call disk phase = some (disk', phase')) :
      Step target content ⟨disk, some (call, phase)⟩ .work ⟨disk', some (call, phase')⟩
  | request {disk disk' : Disk} {call : DownloadCall} {bytesDownloaded retriesLeft : ℕ}
      {metadata : PartialMeta} {phase' : DownloadPhase} {attempts : Attempts}
      (honest : HonestAttempts content bytesDownloaded attempts)
      (outcome : target.afterRequest disk bytesDownloaded retriesLeft metadata attempts =
        (disk', phase')) :
      Step target content ⟨disk, some (call, .requesting bytesDownloaded retriesLeft metadata)⟩
        .request ⟨disk', some (call, phase')⟩
  | restart {disk disk' : Disk} {call : DownloadCall} {retriesLeft : ℕ} {metadata : PartialMeta}
      {phase' : DownloadPhase} {attempts : Attempts} (honest : HonestAttempts content 0 attempts)
      (outcome : target.afterRestart disk retriesLeft metadata attempts = (disk', phase')) :
      Step target content ⟨disk, some (call, .restarting retriesLeft metadata)⟩ .request
        ⟨disk', some (call, phase')⟩
  /-- The download is found cancelled before a request. -/
  | cancelRequest {disk : Disk} {call : DownloadCall} {bytesDownloaded retriesLeft : ℕ}
      {metadata : PartialMeta} :
      Step target content ⟨disk, some (call, .requesting bytesDownloaded retriesLeft metadata)⟩
        .work ⟨disk, some (call, .cleaning cancelled)⟩
  /-- The download is found cancelled when a chunk arrives. -/
  | cancelStream {disk : Disk} {call : DownloadCall} {bytesDownloaded retriesLeft : ℕ}
      {metadata : PartialMeta} {totalBytes : Option ℕ} {body : List UInt8} :
      Step target content
        ⟨disk, some (call, .streaming bytesDownloaded retriesLeft metadata totalBytes body)⟩ .work
        ⟨disk, some (call, .cleaning cancelled)⟩
  | chunk {disk : Disk} {call : DownloadCall} {bytesDownloaded retriesLeft : ℕ}
      {metadata : PartialMeta} {totalBytes : Option ℕ} {chunk rest : List UInt8} :
      Step target content
        ⟨disk, some (call,
          .streaming bytesDownloaded retriesLeft metadata totalBytes (chunk ++ rest))⟩ .work
        ⟨{ disk with partialFile := disk.partialFile.map (· ++ chunk) }, some (call,
          .streaming (bytesDownloaded + chunk.length) retriesLeft metadata totalBytes rest)⟩
  | streamError {disk : Disk} {call : DownloadCall} {bytesDownloaded retriesLeft : ℕ}
      {metadata : PartialMeta} {totalBytes : Option ℕ} {body : List UInt8} :
      Step target content
        ⟨disk, some (call, .streaming bytesDownloaded retriesLeft metadata totalBytes body)⟩ .work
        ⟨disk, some (call, .interrupted retriesLeft metadata)⟩
  /-- The stream ends without an error, possibly too early. -/
  | streamEnd {disk : Disk} {call : DownloadCall} {bytesDownloaded retriesLeft : ℕ}
      {metadata : PartialMeta} {totalBytes : Option ℕ} {body : List UInt8} :
      Step target content
        ⟨disk, some (call, .streaming bytesDownloaded retriesLeft metadata totalBytes body)⟩ .work
        ⟨disk, some (call, afterStream bytesDownloaded retriesLeft metadata totalBytes)⟩

/-! ## The invariant -/

variable {target : Target} {content : List UInt8}

/-- The partial file, if there is one, holds a prefix of the content. -/
def Intact (content : List UInt8) (disk : Disk) : Prop :=
  ∀ bytes, disk.partialFile = some bytes → bytes <+: content

/-- The partial file is intact, or metadata proves that it is of another URL. -/
def Startable (target : Target) (content : List UInt8) (disk : Disk) : Prop :=
  Intact content disk ∨ ∃ metadata, disk.metadata = some metadata ∧ metadata.url ≠ target.url

/-- A disk on which a call can start; once something has been requested it is intact. -/
def Ready (target : Target) (content : List UInt8) (requested : Prop) (disk : Disk) : Prop :=
  Startable target content disk ∧ (requested → Intact content disk)

/-- An offset other than 0 is the number of bytes on disk. -/
def AtOffset (offset : ℕ) (disk : Disk) : Prop :=
  0 < offset → ∃ bytes, disk.partialFile = some bytes ∧ bytes.length = offset

/-- The partial file and the rest of a body are a prefix of the content, and the total size is
that of the content. -/
def Receiving (content : List UInt8) (disk : Disk) (totalBytes : Option ℕ)
    (body : List UInt8) : Prop :=
  totalBytes = some content.length ∧
    ∃ bytes, disk.partialFile = some bytes ∧ bytes ++ body <+: content

/-- What holds of the disk in a phase. -/
def PhaseInvariant (target : Target) (content : List UInt8) (requested : Prop) (disk : Disk) :
    DownloadPhase → Prop
  | .planning => Ready target content requested disk
  | .describing bytesDownloaded _ | .requesting bytesDownloaded .. =>
      Intact content disk ∧ AtOffset bytesDownloaded disk
  | .responding bytesDownloaded _ _ response =>
      Intact content disk ∧ AtOffset bytesDownloaded disk ∧
        HonestResponse content bytesDownloaded response
  | .opening bytesDownloaded _ _ totalBytes response =>
      Intact content disk ∧ AtOffset bytesDownloaded disk ∧ totalBytes = some content.length ∧
        if response.isPartialContent ∧ 0 < bytesDownloaded then
          response.body <+: content.drop bytesDownloaded
        else response.body <+: content
  | .streaming _ _ _ totalBytes body => Receiving content disk totalBytes body
  | .promoting knownTotal =>
      Intact content disk ∧ disk.partialFile.isSome ∧ knownTotal = some content.length
  | .verifying | .moving => disk.partialFile = some content
  | .tidying | .returned (.ok _) => Intact content disk ∧ disk.finalFile = some content
  | .discarding _ | .restarting .. | .interrupted .. | .retrying .. | .cleaning _ | .unlinking _
  | .returned (.error _) => Intact content disk

/-- What holds of a system. -/
def SystemInvariant (target : Target) (content : List UInt8) (requested : Prop)
    (system : System) : Prop :=
  match system.running with
  | none => Ready target content requested system.disk
  | some (_, phase) => PhaseInvariant target content requested system.disk phase

/-- What holds of a system behind these events. -/
def HistoryInvariant (target : Target) (content : List UInt8) (events : List DownloadEvent)
    (system : System) : Prop :=
  SystemInvariant target content (.request ∈ events) system

variable {requested : Prop} {disk disk' : Disk} {call : DownloadCall}

/-! ## Disks -/

theorem intact_of_eq (h : Intact content disk) (hsame : disk'.partialFile = disk.partialFile) :
    Intact content disk' := by
  intro bytes hbytes
  rw [hsame] at hbytes
  exact h bytes hbytes

theorem intact_of_none (h : disk.partialFile = none) : Intact content disk := by
  intro bytes hbytes
  rw [h] at hbytes
  cases hbytes

theorem Intact.ready (h : Intact content disk) : Ready target content requested disk :=
  ⟨Or.inl h, fun _ => h⟩

theorem atOffset_zero (disk : Disk) : AtOffset 0 disk := fun h => absurd h (lt_irrefl 0)

theorem atOffset_of_eq {offset : ℕ} (h : AtOffset offset disk)
    (hsame : disk'.partialFile = disk.partialFile) : AtOffset offset disk' := by
  rw [AtOffset, hsame]
  exact h

/-- The offset that is read off the disk. -/
theorem atOffset_length (disk : Disk) :
    AtOffset ((disk.partialFile.map List.length).getD 0) disk := by
  intro hpos
  cases hfile : disk.partialFile with
  | none =>
      rw [hfile] at hpos
      exact absurd hpos (lt_irrefl 0)
  | some bytes => exact ⟨bytes, rfl, rfl⟩

/-- A crash cuts an intact file to an intact one. -/
theorem Intact.cut (h : Intact content disk) (kept : ℕ) : Intact content (disk.cut kept) := by
  intro bytes hbytes
  rw [Disk.cut, Option.map_eq_some_iff] at hbytes
  obtain ⟨whole, hwhole, rfl⟩ := hbytes
  exact (List.take_prefix kept whole).trans (h whole hwhole)

theorem Ready.cut (h : Ready target content requested disk) (kept : ℕ) :
    Ready target content requested (disk.cut kept) :=
  ⟨h.1.imp (fun hintact => hintact.cut kept) id, fun hrequested => (h.2 hrequested).cut kept⟩

/-- A body that continues a file with the content behind it leads to a prefix again. -/
theorem append_prefix {bytes body : List UInt8} (hbytes : bytes <+: content)
    (hbody : body <+: content.drop bytes.length) : bytes ++ body <+: content := by
  obtain ⟨rest, rfl⟩ := hbytes
  rw [List.drop_left] at hbody
  exact (List.prefix_append_right_inj bytes).mpr hbody

/-! ## Phases -/

/-- The plan of a call on a disk on which it can start. -/
theorem planResume_spec (h : Startable target content disk) :
    match planResume (disk.partialFile.map List.length) disk.metadata target.url with
    | .fresh => Intact content disk
    | .resume offset => Intact content disk ∧ AtOffset offset disk
    | .discardAndRestart => True := by
  cases hfile : disk.partialFile with
  | none => exact intact_of_none hfile
  | some bytes =>
      rw [Option.map_some]
      rcases Nat.eq_zero_or_pos bytes.length with hzero | hpos
      · rw [hzero]
        intro stored hstored
        rw [hfile] at hstored
        cases hstored
        rw [List.length_eq_zero_iff.mp hzero]
        exact List.nil_prefix
      · rw [planResume_of_pos hpos]
        split_ifs with hforeign
        · trivial
        · exact ⟨h.resolve_right hforeign, fun _ => ⟨bytes, hfile, rfl⟩⟩

/-- A file that holds all of the content is intact. -/
theorem intact_of_content (h : disk.partialFile = some content) : Intact content disk := by
  intro bytes hbytes
  rw [h] at hbytes
  cases hbytes
  exact List.prefix_rfl

/-- While a body is written, the partial file is there and intact. -/
theorem Receiving.intact {totalBytes : Option ℕ} {body : List UInt8}
    (h : Receiving content disk totalBytes body) :
    Intact content disk ∧ disk.partialFile.isSome := by
  obtain ⟨-, written, hfile, hbody⟩ := h
  constructor
  · intro bytes hbytes
    rw [hfile] at hbytes
    cases hbytes
    exact (List.prefix_append written body).trans hbody
  · rw [hfile]
    rfl

/-- A chunk of the body has been written. -/
theorem Receiving.write {totalBytes : Option ℕ} {chunk rest : List UInt8}
    (h : Receiving content disk totalBytes (chunk ++ rest)) :
    Receiving content { disk with partialFile := disk.partialFile.map (· ++ chunk) } totalBytes
      rest := by
  obtain ⟨htotal, written, hfile, hbody⟩ := h
  refine ⟨htotal, written ++ chunk, ?_, ?_⟩
  · rw [hfile]
    rfl
  · rwa [List.append_assoc]

/-- Every phase leaves a disk on which a call can start. -/
theorem ready_of_phaseInvariant {phase : DownloadPhase}
    (h : PhaseInvariant target content requested disk phase) :
    Ready target content requested disk := by
  cases phase with
  | planning => exact h
  | discarding previous => exact Intact.ready h
  | describing bytesDownloaded previous => exact h.1.ready
  | requesting bytesDownloaded retriesLeft metadata => exact h.1.ready
  | restarting retriesLeft metadata => exact Intact.ready h
  | responding bytesDownloaded retriesLeft metadata response => exact h.1.ready
  | opening bytesDownloaded retriesLeft metadata totalBytes response => exact h.1.ready
  | streaming bytesDownloaded retriesLeft metadata totalBytes body => exact (Receiving.intact h).1.ready
  | interrupted retriesLeft metadata => exact Intact.ready h
  | retrying retriesLeft metadata => exact Intact.ready h
  | promoting knownTotal => exact h.1.ready
  | verifying => exact (intact_of_content h).ready
  | moving => exact (intact_of_content h).ready
  | tidying => exact h.1.ready
  | cleaning error => exact Intact.ready h
  | unlinking error => exact Intact.ready h
  | returned result =>
      cases result with
      | error e => exact Intact.ready h
      | ok path => exact h.1.ready

/-- An offset other than 0 lies within the content. -/
theorem offset_le {offset : ℕ} (hintact : Intact content disk) (hoffset : AtOffset offset disk) :
    offset ≤ content.length := by
  rcases Nat.eq_zero_or_pos offset with rfl | hpos
  · exact Nat.zero_le _
  · obtain ⟨bytes, hfile, rfl⟩ := hoffset hpos
    exact (hintact bytes hfile).length_le

/-- The total size that a download takes from an honest response. -/
theorem totalBytes_of_honest {offset : ℕ} {response : Response} (known : Option ℕ)
    (hle : offset ≤ content.length) (h : HonestResponse content offset response) :
    response.totalBytes (if response.status = 200 then 0 else offset) known =
      some content.length := by
  cases h with
  | full hstatus _ hlength => simp [Response.totalBytes, Response.isPartialContent, hstatus, hlength]
  | range _ hstatus _ htotal =>
      rcases htotal with hrange | ⟨hrange, hlength⟩
      · simp [Response.totalBytes, Response.isPartialContent, hstatus, hrange]
      · simp [Response.totalBytes, Response.isPartialContent, hstatus, hrange, hlength, hle]

/-- The body of an honest response continues what the download keeps. -/
theorem body_of_honest {offset : ℕ} {response : Response}
    (h : HonestResponse content offset response) :
    if response.isPartialContent ∧ 0 < (if response.status = 200 then 0 else offset) then
      response.body <+: content.drop (if response.status = 200 then 0 else offset)
    else response.body <+: content := by
  cases h with
  | full hstatus hbody _ => simp [Response.isPartialContent, hstatus, hbody]
  | range hpos hstatus hbody _ => simpa [Response.isPartialContent, hstatus, hpos] using hbody

/-- The answer of an honest server is taken up at its offset, whether or not metadata is still to be
written. -/
theorem phaseInvariant_responding {phase' : DownloadPhase} {bytesDownloaded retriesLeft : ℕ}
    {metadata : PartialMeta} {response : Response}
    (h : PhaseInvariant target content requested disk
      (.responding bytesDownloaded retriesLeft metadata response))
    (hproceeds : target.proceed call disk
      (.responding bytesDownloaded retriesLeft metadata response) = some (disk', phase')) :
    PhaseInvariant target content requested disk' phase' := by
  obtain ⟨hintact, hoffset, hhonest⟩ := h
  have htotal := totalBytes_of_honest metadata.totalBytes (offset_le hintact hoffset) hhonest
  have hbody := body_of_honest hhonest
  have hkept : AtOffset (if response.status = 200 then 0 else bytesDownloaded) disk := by
    split
    · exact atOffset_zero disk
    · exact hoffset
  rw [Target.proceed] at hproceeds
  dsimp only at hproceeds
  rw [htotal] at hproceeds
  split at hproceeds <;> cases hproceeds
  · exact ⟨intact_of_eq hintact rfl, atOffset_of_eq hkept rfl, rfl, hbody⟩
  · exact ⟨hintact, hkept, rfl, hbody⟩

/-- A file opened for an honest body is one that the body continues. -/
theorem phaseInvariant_opening {phase' : DownloadPhase} {bytesDownloaded retriesLeft : ℕ}
    {metadata : PartialMeta} {totalBytes : Option ℕ} {response : Response}
    (h : PhaseInvariant target content requested disk
      (.opening bytesDownloaded retriesLeft metadata totalBytes response))
    (hproceeds : target.proceed call disk
      (.opening bytesDownloaded retriesLeft metadata totalBytes response) =
        some (disk', phase')) :
    PhaseInvariant target content requested disk' phase' := by
  obtain ⟨hintact, hoffset, htotal, hbody⟩ := h
  cases hproceeds
  apply And.intro htotal
  split at hbody
  · rename_i hrange
    obtain ⟨bytes, hfile, rfl⟩ := hoffset hrange.2
    refine ⟨bytes, ?_, append_prefix (hintact bytes hfile) hbody⟩
    rw [if_pos hrange, hfile]
    rfl
  · rename_i hfull
    refine ⟨[], ?_, hbody⟩
    rw [if_neg hfull]

/-- A partial file of the full size is promoted only as the content. -/
theorem phaseInvariant_promoting {phase' : DownloadPhase} {knownTotal : Option ℕ}
    (h : PhaseInvariant target content requested disk (.promoting knownTotal))
    (hproceeds : target.proceed call disk (.promoting knownTotal) = some (disk', phase')) :
    PhaseInvariant target content requested disk' phase' := by
  obtain ⟨hintact, hexists, rfl⟩ := h
  obtain ⟨bytes, hfile⟩ := Option.isSome_iff_exists.mp hexists
  rw [Target.proceed, hfile] at hproceeds
  split at hproceeds <;> cases hproceeds
  · exact hintact
  · rename_i hcomplete
    have hle : content.length ≤ bytes.length := by simpa using hcomplete
    rw [PhaseInvariant, hfile, (hintact bytes hfile).eq_of_length_le hle]

/-- What a download does on its own keeps the invariant. -/
theorem phaseInvariant_proceed {phase phase' : DownloadPhase}
    (h : PhaseInvariant target content requested disk phase)
    (hproceeds : target.proceed call disk phase = some (disk', phase')) :
    PhaseInvariant target content requested disk' phase' := by
  cases phase with
  | planning =>
      have hplan := planResume_spec h.1
      rw [Target.proceed] at hproceeds
      split at hproceeds <;> rename_i hcase <;> rw [hcase] at hplan <;> cases hproceeds
      · exact ⟨hplan, atOffset_zero disk⟩
      · exact intact_of_none rfl
      · exact hplan
  | discarding previous =>
      cases hproceeds
      exact ⟨intact_of_eq h rfl, atOffset_zero _⟩
  | describing bytesDownloaded previous =>
      cases hproceeds
      exact ⟨intact_of_eq h.1 rfl, atOffset_of_eq h.2 rfl⟩
  | responding bytesDownloaded retriesLeft metadata response => exact phaseInvariant_responding h hproceeds
  | opening bytesDownloaded retriesLeft metadata totalBytes response => exact phaseInvariant_opening h hproceeds
  | interrupted retriesLeft metadata =>
      rw [Target.proceed] at hproceeds
      split at hproceeds <;> cases hproceeds <;> exact h
  | retrying retriesLeft metadata =>
      cases hproceeds
      exact ⟨h, atOffset_length disk⟩
  | promoting knownTotal => exact phaseInvariant_promoting h hproceeds
  | verifying =>
      rw [Target.proceed] at hproceeds
      split at hproceeds
      · cases hproceeds
        exact h
      · cases hproceeds
      · dsimp only at hproceeds
        split at hproceeds <;> cases hproceeds
        · exact intact_of_content h
        · exact h
  | moving =>
      have hfile : disk.partialFile = some content := h
      rw [Target.proceed, hfile] at hproceeds
      cases hproceeds
      exact ⟨intact_of_none rfl, rfl⟩
  | tidying =>
      cases hproceeds
      exact ⟨intact_of_eq h.1 rfl, h.2⟩
  | cleaning error =>
      cases hproceeds
      exact intact_of_eq h rfl
  | unlinking error =>
      cases hproceeds
      exact intact_of_none rfl
  | requesting | restarting | streaming | returned => cases hproceeds

/-- A request leads on, or leaves the partial file intact. -/
theorem phaseInvariant_afterRequest {bytesDownloaded retriesLeft : ℕ} {metadata : PartialMeta}
    {phase' : DownloadPhase} {attempts : Attempts}
    (h : Intact content disk ∧ AtOffset bytesDownloaded disk)
    (honest : HonestAttempts content bytesDownloaded attempts)
    (houtcome : target.afterRequest disk bytesDownloaded retriesLeft metadata attempts =
      (disk', phase')) :
    PhaseInvariant target content requested disk' phase' := by
  rw [Target.afterRequest] at houtcome
  split at houtcome
  · rename_i response hsent
    obtain ⟨i, hreceived, hsuccess⟩ := sendFrom_ok hsent
    cases houtcome
    exact ⟨h.1, h.2, honest i response hreceived hsuccess⟩
  · split_ifs at houtcome <;> cases houtcome
    · exact intact_of_none rfl
    · exact h.1
    · exact h.1

theorem phaseInvariant_afterRestart {retriesLeft : ℕ} {metadata : PartialMeta}
    {phase' : DownloadPhase} {attempts : Attempts} (h : Intact content disk)
    (honest : HonestAttempts content 0 attempts)
    (houtcome : target.afterRestart disk retriesLeft metadata attempts = (disk', phase')) :
    PhaseInvariant target content requested disk' phase' := by
  rw [Target.afterRestart] at houtcome
  split at houtcome
  · rename_i response hsent
    obtain ⟨i, hreceived, hsuccess⟩ := sendFrom_ok hsent
    cases houtcome
    exact ⟨h, atOffset_zero disk, honest i response hreceived hsuccess⟩
  · cases houtcome
    exact h

/-- Only the first phase depends on whether something has been requested. -/
theorem PhaseInvariant.of_imp {requested' : Prop} (himp : requested' → requested)
    {phase : DownloadPhase} (h : PhaseInvariant target content requested disk phase) :
    PhaseInvariant target content requested' disk phase := by
  cases phase with
  | planning => exact ⟨h.1, fun hrequested => h.2 (himp hrequested)⟩
  | returned result => cases result <;> exact h
  | _ => exact h

/-- **Every event keeps the invariant.** -/
theorem systemInvariant_step {requested' : Prop} {system system' : System}
    {event : DownloadEvent} (himp : requested' → requested ∨ event = .request)
    (h : SystemInvariant target content requested system)
    (step : Step target content system event system') :
    SystemInvariant target content requested' system' := by
  cases step with
  | call call idle =>
      have hkept : requested' → requested := fun hrequested => (himp hrequested).resolve_right nofun
      rename_i disk running
      have hready : Ready target content requested disk := by
        cases running with
        | none => exact h
        | some last => exact ready_of_phaseInvariant h
      exact ⟨hready.1, fun hrequested => hready.2 (hkept hrequested)⟩
  | crash kept =>
      have hkept : requested' → requested := fun hrequested => (himp hrequested).resolve_right nofun
      have hready := (ready_of_phaseInvariant h).cut kept
      exact ⟨hready.1, fun hrequested => hready.2 (hkept hrequested)⟩
  | work proceeds =>
      have hkept : requested' → requested := fun hrequested => (himp hrequested).resolve_right nofun
      exact (phaseInvariant_proceed h proceeds).of_imp hkept
  | request honest outcome => exact phaseInvariant_afterRequest h honest outcome
  | restart honest outcome => exact phaseInvariant_afterRestart h honest outcome
  | cancelRequest => exact h.1
  | cancelStream => exact (Receiving.intact h).1
  | chunk => exact Receiving.write h
  | streamError => exact (Receiving.intact h).1
  | streamEnd =>
      obtain ⟨hintact, hexists⟩ := Receiving.intact h
      show PhaseInvariant target content requested' _ (afterStream _ _ _ _)
      rw [afterStream]
      split
      · exact hintact
      · exact ⟨hintact, hexists, h.1⟩

/-- **Resumable downloads are correct.** From the first request on, the partial file is a
prefix of the content, and a call that has returned without an error has put exactly the
content in place. -/
theorem download_correct {start system : System} {events : List DownloadEvent}
    (hidle : start.running = none) (hstart : Startable target content start.disk)
    (run : Run (Step target content) start events system) :
    (.request ∈ events → Intact content system.disk) ∧
      ∀ call path, system.running = some (call, .returned (.ok path)) →
        system.disk.finalFile = some content := by
  have hinitial : HistoryInvariant target content [] start := by
    rw [HistoryInvariant, SystemInvariant, hidle]
    exact ⟨hstart, fun hnone => absurd hnone List.not_mem_nil⟩
  have hinvariant : HistoryInvariant target content events system := by
    apply run.history _ hinitial
    intro labels s label t hs step
    apply systemInvariant_step _ hs step
    intro hrequested
    rw [List.mem_append, List.mem_singleton] at hrequested
    exact hrequested.imp_right Eq.symm
  rw [HistoryInvariant, SystemInvariant] at hinvariant
  constructor
  · intro hrequested
    split at hinvariant
    · exact hinvariant.2 hrequested
    · exact (ready_of_phaseInvariant hinvariant).2 hrequested
  · intro call path hreturned
    rw [hreturned] at hinvariant
    exact hinvariant.2

/-- A small file. -/
def smallTarget : Target where
  url := "https://host/model"
  filename := "model"
  partialPath := "models/model.partial"
  finalPath := "models/model"
  sha256 _ := "00"

/-- A call without a digest to check. -/
def plainCall : DownloadCall := ⟨none, "id", 5, 0⟩

/-- The rest of the small file behind its first byte. -/
def smallRange : Response where
  status := 206
  reason := "Partial Content"
  contentRange := some "bytes 1-2/3"
  contentLength := some 2
  body := [2, 3]

theorem honest_smallRange : HonestAttempts [1, 2, 3] 1 fun _ => .ok smallRange := by
  intro i response hresponse _
  cases hresponse
  exact .range (by decide) rfl (by decide) (Or.inl (by decide))

/-- What a download does that finds the first byte on disk. -/
def resumedEvents : List DownloadEvent :=
  [.call, .work, .work, .request, .work, .work, .work, .work, .work, .work, .work, .work]

/-- The small file is in place. -/
def downloaded : System where
  disk := ⟨none, none, some [1, 2, 3]⟩
  running := some (plainCall, .returned (.ok "models/model"))

theorem download_correct_resumed :
    (.request ∈ resumedEvents → Intact [1, 2, 3] downloaded.disk) ∧
      ∀ call path, downloaded.running = some (call, .returned (.ok path)) →
        downloaded.disk.finalFile = some [1, 2, 3] := by
  have hstart : Startable smallTarget [1, 2, 3] ⟨some [1], none, none⟩ := by
    apply Or.inl
    rintro bytes ⟨⟩
    decide
  have planning : Run (Step smallTarget [1, 2, 3]) ⟨⟨some [1], none, none⟩, none⟩ _ _ :=
    Run.single (Step.call plainCall fun last hlast => absurd hlast (Option.not_mem_none last))
  have planned := planning.snoc (Step.work rfl)
  have requesting := planned.snoc (Step.work rfl)
  have responding := requesting.snoc (Step.request honest_smallRange rfl)
  have opening := responding.snoc (Step.work rfl)
  have streaming := opening.snoc (Step.work rfl)
  have written := streaming.snoc (@Step.chunk _ _ _ _ _ _ _ _ [2, 3] [])
  have promoting := written.snoc Step.streamEnd
  have verifying := promoting.snoc (Step.work rfl)
  have moving := verifying.snoc (Step.work rfl)
  have tidying := moving.snoc (Step.work rfl)
  have returned := tidying.snoc (Step.work rfl)
  have run : Run (Step smallTarget [1, 2, 3]) _ resumedEvents downloaded := returned
  exact download_correct rfl hstart run

end HiveBear.Registry
