/-
# Metadata of another URL

Metadata that names another URL proves that the bytes on disk are of another file, and the download
starts over. It discards the bytes, but it takes the total size over from the metadata, and goes by
it where a response does not say how long the file is. So what another file has left is inert
exactly if its size had not become known.

Two sessions are compared up to the time in their metadata. A download that has found no bytes
goes on like one that has found an empty file until the file is opened.
-/

import HiveBear.Registry.Resume
import HiveBear.Registry.Session

namespace HiveBear.Registry

/-! ## What is seen of a session -/

/-- Metadata of a download that has started at another time. -/
def PartialMeta.retime (time : ℕ) (metadata : PartialMeta) : PartialMeta :=
  { metadata with startedAt := time }

def PartialMeta.untimed (metadata : PartialMeta) : PartialMeta := metadata.retime 0

/-- What a call leaves and what is seen of it from outside, apart from times. -/
structure Outcome where
  result : Option (Except RegistryError String)
  finalFile : Option (List UInt8)
  requests : List ℕ
  written : List PartialMeta

def DownloadPhase.result : DownloadPhase → Option (Except RegistryError String)
  | .returned result => some result
  | _ => none

def Session.outcome (session : Session) : Outcome where
  result := session.phase.result
  finalFile := session.disk.finalFile
  requests := session.requests
  written := session.written.map PartialMeta.untimed

/-- The files without what an interrupted download has left. -/
def Disk.cleared (disk : Disk) : Disk := { disk with partialFile := none, metadata := none }

/-- **Inert leftovers.** Whatever comes from outside, the outcome is as if there were neither
bytes nor metadata on disk. -/
def Inert (target : Target) (call : DownloadCall) (start : Disk) : Prop :=
  ∀ script, (target.download call start script).outcome =
    (target.download call start.cleared script).outcome

/-! ## Sessions of another time -/

def Disk.retime (time : ℕ) (disk : Disk) : Disk :=
  { disk with metadata := disk.metadata.map (PartialMeta.retime time) }

/-- The phases behind the first metadata that is written. -/
def DownloadPhase.Underway : DownloadPhase → Prop
  | .planning | .discarding _ | .describing .. => False
  | _ => True

def DownloadPhase.retime (time : ℕ) : DownloadPhase → DownloadPhase
  | .requesting bytesDownloaded retriesLeft metadata =>
      .requesting bytesDownloaded retriesLeft (metadata.retime time)
  | .restarting retriesLeft metadata => .restarting retriesLeft (metadata.retime time)
  | .responding bytesDownloaded retriesLeft metadata response =>
      .responding bytesDownloaded retriesLeft (metadata.retime time) response
  | .opening bytesDownloaded retriesLeft metadata totalBytes response =>
      .opening bytesDownloaded retriesLeft (metadata.retime time) totalBytes response
  | .streaming bytesDownloaded retriesLeft metadata totalBytes body =>
      .streaming bytesDownloaded retriesLeft (metadata.retime time) totalBytes body
  | .interrupted retriesLeft metadata => .interrupted retriesLeft (metadata.retime time)
  | .retrying retriesLeft metadata => .retrying retriesLeft (metadata.retime time)
  | phase => phase

def Session.retime (time : ℕ) (session : Session) : Session where
  disk := session.disk.retime time
  phase := session.phase.retime time
  requests := session.requests
  written := session.written.map (PartialMeta.retime time)

/-- Times are not seen. -/
theorem outcome_retime (time : ℕ) (session : Session) :
    (session.retime time).outcome = session.outcome := by
  obtain ⟨disk, phase, requests, written⟩ := session
  have hresult : (phase.retime time).result = phase.result := by cases phase <;> rfl
  have hwritten : (written.map (PartialMeta.retime time)).map PartialMeta.untimed =
      written.map PartialMeta.untimed := by
    rw [List.map_map]
    rfl
  simp only [Session.outcome, Session.retime, hresult, hwritten]
  rfl

theorem writtenBetween_retime (time : ℕ) (phase phase' : DownloadPhase) :
    writtenBetween (phase.retime time) (phase'.retime time) =
      (writtenBetween phase phase').map (PartialMeta.retime time) := by
  cases phase with
  | describing => cases phase' <;> rfl
  | responding =>
      cases phase' with
      | opening =>
          simp only [writtenBetween, DownloadPhase.retime, PartialMeta.retime]
          split_ifs <;> rfl
      | _ => rfl
  | _ => rfl

namespace Target

variable {target : Target} {call : DownloadCall}

/-- The time is no reason for what a download does next. -/
theorem proceed_retime (time : ℕ) (disk : Disk) {phase : DownloadPhase} (h : phase.Underway) :
    target.proceed call (disk.retime time) (phase.retime time) =
      (target.proceed call disk phase).map (Prod.map (Disk.retime time)
        (DownloadPhase.retime time)) := by
  cases phase with
  | planning | discarding | describing => exact h.elim
  | responding bytesDownloaded retriesLeft metadata response =>
      rw [proceed]
      dsimp only
      rw [apply_ite (Option.map _)]
      rfl
  | interrupted =>
      rw [proceed, apply_ite (Option.map _)]
      rfl
  | promoting =>
      rw [proceed, apply_ite (Option.map _)]
      rfl
  | verifying =>
      obtain ⟨partialFile, metadata, finalFile⟩ := disk
      obtain ⟨expectedSha256, modelId, streamRetries, now⟩ := call
      cases expectedSha256 with
      | none => rfl
      | some expected =>
          cases partialFile with
          | none => rfl
          | some bytes =>
              rw [proceed]
              dsimp only
              rw [apply_ite (Option.map _)]
              rfl
  | moving =>
      obtain ⟨partialFile, metadata, finalFile⟩ := disk
      cases partialFile <;> rfl
  | opening | retrying | tidying | cleaning | unlinking | requesting | restarting | streaming
  | returned => rfl

theorem underway_proceed {disk disk' : Disk} {phase phase' : DownloadPhase} (h : phase.Underway)
    (proceeds : target.proceed call disk phase = some (disk', phase')) : phase'.Underway := by
  cases phase with
  | planning | discarding | describing => exact h.elim
  | responding =>
      rw [proceed] at proceeds
      dsimp only at proceeds
      split_ifs at proceeds <;> cases proceeds <;> trivial
  | interrupted | promoting =>
      rw [proceed] at proceeds
      split_ifs at proceeds <;> cases proceeds <;> trivial
  | verifying =>
      rw [proceed] at proceeds
      split at proceeds
      · cases proceeds
        trivial
      · cases proceeds
      · dsimp only at proceeds
        split_ifs at proceeds <;> cases proceeds <;> trivial
  | moving =>
      rw [proceed] at proceeds
      split at proceeds <;> cases proceeds
      trivial
  | opening | retrying | tidying | cleaning | unlinking =>
      cases proceeds
      trivial
  | requesting | restarting | streaming | returned => cases proceeds

/-- A session, and the same one at another time. -/
def Retimed (time : ℕ) (session other : Session) : Prop :=
  session.phase.Underway ∧ other = session.retime time

theorem retimed_work {time : ℕ} {session other : Session} (h : Retimed time session other) :
    Retimed time (target.work call session) (target.work call other) := by
  obtain ⟨hunderway, rfl⟩ := h
  have hretime := @proceed_retime target call time session.disk session.phase hunderway
  rw [work, work]
  cases hproceeds : target.proceed call session.disk session.phase with
  | none =>
      rw [hproceeds] at hretime
      have hnone : target.proceed call (session.retime time).disk (session.retime time).phase =
        none := hretime
      rw [hnone]
      exact ⟨hunderway, rfl⟩
  | some next =>
      rw [hproceeds] at hretime
      have hsome : target.proceed call (session.retime time).disk (session.retime time).phase =
        some (next.1.retime time, next.2.retime time) := hretime
      rw [hsome]
      refine ⟨underway_proceed hunderway hproceeds, ?_⟩
      simp only [Session.retime, List.map_append, writtenBetween_retime]

theorem afterRequest_retime (time : ℕ) (disk : Disk) (bytesDownloaded retriesLeft : ℕ)
    (metadata : PartialMeta) (attempts : Attempts) :
    let after := target.afterRequest disk bytesDownloaded retriesLeft metadata attempts
    after.2.Underway ∧
      target.afterRequest (disk.retime time) bytesDownloaded retriesLeft (metadata.retime time)
        attempts = (after.1.retime time, after.2.retime time) := by
  dsimp only
  rw [afterRequest, afterRequest]
  cases sendWithRetry target.url requestRetries attempts with
  | ok response => exact ⟨trivial, rfl⟩
  | error e =>
      dsimp only
      split_ifs <;> exact ⟨trivial, rfl⟩

theorem afterRestart_retime (time : ℕ) (disk : Disk) (retriesLeft : ℕ) (metadata : PartialMeta)
    (attempts : Attempts) :
    let after := target.afterRestart disk retriesLeft metadata attempts
    after.2.Underway ∧
      target.afterRestart (disk.retime time) retriesLeft (metadata.retime time) attempts =
        (after.1.retime time, after.2.retime time) := by
  dsimp only
  rw [afterRestart, afterRestart]
  cases sendWithRetry target.url requestRetries attempts <;> exact ⟨trivial, rfl⟩

theorem retimed_serve {time : ℕ} {session other : Session} (served : Served)
    (h : Retimed time session other) :
    Retimed time (target.serve session served) (target.serve other served) := by
  obtain ⟨hunderway, rfl⟩ := h
  obtain ⟨disk, phase, requests, written⟩ := session
  cases phase with
  | planning | discarding | describing => exact hunderway.elim
  | requesting bytesDownloaded retriesLeft metadata =>
      cases served with
      | answer attempts =>
          obtain ⟨hafter, hretime⟩ := @afterRequest_retime target time disk bytesDownloaded
            retriesLeft metadata attempts
          refine ⟨hafter, ?_⟩
          simp only [serve, Session.retime, DownloadPhase.retime, hretime]
      | _ => exact ⟨trivial, rfl⟩
  | restarting retriesLeft metadata =>
      cases served with
      | answer attempts =>
          obtain ⟨hafter, hretime⟩ := @afterRestart_retime target time disk retriesLeft metadata
            attempts
          refine ⟨hafter, ?_⟩
          simp only [serve, Session.retime, DownloadPhase.retime, hretime]
      | _ => exact ⟨trivial, rfl⟩
  | streaming bytesDownloaded retriesLeft metadata totalBytes body =>
      cases served with
      | streamEnd =>
          simp only [Retimed, serve, Session.retime, DownloadPhase.retime, afterStream]
          split_ifs <;> exact ⟨trivial, rfl⟩
      | _ => exact ⟨trivial, rfl⟩
  | _ => exact ⟨trivial, rfl⟩

/-! ## An empty file and none -/

/-- The phases of a download from offset 0 in front of opening the file. -/
def Unopened : DownloadPhase → Prop
  | .requesting bytesDownloaded .. | .responding bytesDownloaded .. | .opening bytesDownloaded .. =>
      bytesDownloaded = 0
  | .cleaning _ | .unlinking _ => True
  | _ => False

/-- The same session, with an empty file. -/
def blank (session : Session) : Session :=
  { session with disk := { session.disk with partialFile := some [] } }

/-- Two sessions that are the same, but that one has an empty file where the other has none. -/
def Blank (session other : Session) : Prop :=
  session = other ∨
    Unopened other.phase ∧ other.disk.partialFile = none ∧ session = blank other

theorem blank_work {session other : Session} (h : Blank session other) :
    Blank (target.work call session) (target.work call other) := by
  rcases h with rfl | ⟨hunopened, hnone, rfl⟩
  · exact Or.inl rfl
  obtain ⟨⟨partialFile, metadata, finalFile⟩, phase, requests, written⟩ := other
  obtain rfl : partialFile = none := hnone
  cases phase with
  | requesting => exact Or.inr ⟨hunopened, rfl, rfl⟩
  | responding bytesDownloaded retriesLeft metadata response =>
      obtain rfl : bytesDownloaded = 0 := hunopened
      rw [work, work, blank, proceed, proceed]
      dsimp only
      split_ifs <;> exact Or.inr ⟨rfl, rfl, rfl⟩
  | opening bytesDownloaded retriesLeft metadata totalBytes response =>
      obtain rfl : bytesDownloaded = 0 := hunopened
      left
      rw [work, work, blank, proceed, proceed]
      dsimp only
      split_ifs <;> rfl
  | cleaning e => exact Or.inr ⟨trivial, rfl, rfl⟩
  | unlinking e => exact Or.inl rfl
  | _ => exact hunopened.elim

theorem blank_serve {session other : Session} (served : Served) (h : Blank session other) :
    Blank (target.serve session served) (target.serve other served) := by
  rcases h with rfl | ⟨hunopened, hnone, rfl⟩
  · exact Or.inl rfl
  obtain ⟨⟨partialFile, metadata, finalFile⟩, phase, requests, written⟩ := other
  obtain rfl : partialFile = none := hnone
  cases phase with
  | requesting bytesDownloaded retriesLeft metadata =>
      obtain rfl : bytesDownloaded = 0 := hunopened
      cases served with
      | answer attempts =>
          simp only [serve, blank, afterRequest]
          cases sendWithRetry target.url requestRetries attempts with
          | ok response => exact Or.inr ⟨rfl, rfl, rfl⟩
          | error e => exact Or.inr ⟨trivial, rfl, rfl⟩
      | cancel => exact Or.inr ⟨trivial, rfl, rfl⟩
      | _ => exact Or.inr ⟨rfl, rfl, rfl⟩
  | responding | opening | cleaning | unlinking => exact Or.inr ⟨hunopened, rfl, rfl⟩
  | _ => exact hunopened.elim

/-! ## The first request -/

variable {start : Disk} {foreign : PartialMeta}

/-- Behind foreign metadata the first request is for the whole file. -/
theorem download_nil_of_foreign (hmetadata : start.metadata = some foreign)
    (hforeign : foreign.url ≠ target.url) :
    let described := target.describe call (some foreign)
    Blank (target.download call start [])
      ⟨⟨none, some described, start.finalFile⟩, .requesting 0 call.streamRetries described, [],
        [described]⟩ := by
  obtain ⟨partialFile, metadata, finalFile⟩ := start
  obtain rfl : metadata = some foreign := hmetadata
  rcases partialFile with _ | _ | ⟨byte, bytes⟩
  · exact Or.inl rfl
  · exact Or.inr ⟨rfl, rfl, rfl⟩
  · left
    have hplan : planResume (some (bytes.length + 1)) (some foreign) target.url =
        .discardAndRestart := by
      rw [planResume_of_pos (Nat.succ_pos _), if_pos ⟨foreign, rfl, hforeign⟩]
    have hwork : target.work call ⟨⟨some (byte :: bytes), some foreign, finalFile⟩, .planning, [], []⟩ =
        ⟨⟨none, some foreign, finalFile⟩, .discarding (some foreign), [], []⟩ := by
      rw [work, proceed]
      simp only [Option.map_some, List.length_cons, hplan]
      rfl
    show (target.work call)^[4] (target.work call _) = _
    rw [hwork]
    rfl

/-- And so it is with nothing on disk. -/
theorem download_nil_cleared (start : Disk) :
    let described := target.describe call none
    target.download call start.cleared [] =
      ⟨⟨none, some described, start.finalFile⟩, .requesting 0 call.streamRetries described, [],
        [described]⟩ := rfl

theorem outcome_of_blank {session other : Session} (h : Blank session other) :
    session.outcome = other.outcome := by
  rcases h with rfl | ⟨-, -, rfl⟩ <;> rfl

/-- Foreign metadata without a size goes unnoticed. -/
theorem inert_of_foreign (hmetadata : start.metadata = some foreign)
    (hforeign : foreign.url ≠ target.url) (hsize : foreign.totalBytes = none) :
    Inert target call start := by
  intro script
  have hdescribed : (target.describe call (some foreign)).retime call.now =
      target.describe call none := by
    rw [describe, describe, PartialMeta.retime]
    simp [hsize]
  have hretimed : Retimed call.now
      ⟨⟨none, some (target.describe call (some foreign)), start.finalFile⟩,
        .requesting 0 call.streamRetries (target.describe call (some foreign)), [],
        [target.describe call (some foreign)]⟩ (target.download call start.cleared []) := by
    refine ⟨trivial, ?_⟩
    rw [download_nil_cleared, ← hdescribed]
    rfl
  have hblank := @react_related target call Blank blank_work blank_serve _ _
    (@download_nil_of_foreign target call start foreign hmetadata hforeign) script
  obtain ⟨-, hcleared⟩ := @react_related target call (Retimed call.now) retimed_work
    retimed_serve _ _ hretimed script
  exact (outcome_of_blank hblank).trans
    ((outcome_retime call.now _).symm.trans (congrArg Session.outcome hcleared.symm))

/-- A size is taken over from foreign metadata. -/
theorem not_inert_of_foreign (hmetadata : start.metadata = some foreign)
    (hforeign : foreign.url ≠ target.url) (hsize : foreign.totalBytes ≠ none) :
    ¬ Inert target call start := by
  intro hinert
  have hstart := hinert []
  rw [outcome_of_blank (download_nil_of_foreign hmetadata hforeign), download_nil_cleared] at hstart
  have hwritten := congrArg Outcome.written hstart
  have hdescribed := List.head_eq_of_cons_eq hwritten
  exact hsize (congrArg PartialMeta.totalBytes hdescribed)

end Target

/-- **Foreign metadata is inert just if it has no size.** -/
theorem foreign_metadata_inert_iff (target : Target) (call : DownloadCall) {start : Disk}
    {foreign : PartialMeta} (hmetadata : start.metadata = some foreign)
    (hforeign : foreign.url ≠ target.url) :
    Inert target call start ↔ foreign.totalBytes = none := by
  constructor
  · intro hinert
    by_contra hsize
    exact Target.not_inert_of_foreign hmetadata hforeign hsize hinert
  · exact Target.inert_of_foreign hmetadata hforeign

/-- What is left of another file, of which this size is known. -/
def leftover (totalBytes : Option ℕ) : Disk :=
  ⟨some [7], some ⟨"https://host/other", totalBytes, none, "id", "model", 3⟩, none⟩

theorem foreign_metadata_inert_leftover : Inert smallTarget plainCall (leftover none) := by
  have hforeign : "https://host/other" ≠ smallTarget.url := by decide
  exact (@foreign_metadata_inert_iff smallTarget plainCall (leftover none) _ rfl hforeign).mpr rfl

/-- All of the small file, without its length. -/
def chunkedResponse : Response := ⟨200, "OK", none, none, [1, 2, 3]⟩

/-- Behind the metadata of a larger file a complete one is taken for truncated. -/
theorem larger_leftover_shows : ¬ Inert smallTarget plainCall (leftover (some 1000)) := by
  intro hinert
  have houtcome := hinert [.answer fun _ => .ok chunkedResponse, .chunk 3, .streamEnd]
  have hfinal := congrArg Outcome.finalFile houtcome
  have hcleared : (smallTarget.download plainCall (leftover (some 1000)).cleared
      [.answer fun _ => .ok chunkedResponse, .chunk 3, .streamEnd]).disk.finalFile =
        some [1, 2, 3] := by rfl
  have hforeign : (smallTarget.download plainCall (leftover (some 1000))
      [.answer fun _ => .ok chunkedResponse, .chunk 3, .streamEnd]).disk.finalFile = none := by rfl
  cases hforeign.symm.trans (hfinal.trans hcleared)

end HiveBear.Registry
