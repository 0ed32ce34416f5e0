/-
# Giving up what is on disk

A request for a range that the server cannot satisfy is answered with status 416, and then the
bytes on disk are worth nothing. The download tells this answer from other failures by the text of
the error: it looks for the digits 416 in it. The text of an error may also hold them for another
reason, because the URL does or because a network error says so, and then a partial download is
thrown away that could have been resumed.
-/

import HiveBear.Library.Occurrences
import HiveBear.Registry.Resume
import HiveBear.Registry.Session

namespace HiveBear.Registry

/-! ## The attempt that decides -/

/-- The last attempt of a request, with so many retries left. -/
def decidingFrom (maxRetries : ℕ) (attempts : Attempts) : ℕ → Except String Response
  | 0 => attempts maxRetries
  | retries + 1 =>
      match attempts (maxRetries - (retries + 1)) with
      | .ok response =>
          if response.isSuccess then .ok response
          else if response.status = 429 ∨ response.isServerError then
            decidingFrom maxRetries attempts retries
          else .ok response
      | .error _ => decidingFrom maxRetries attempts retries

/-- The attempt of a request that is not repeated. -/
def deciding (attempts : Attempts) : Except String Response :=
  decidingFrom requestRetries attempts requestRetries

/-- What a request returns whose last attempt this is. -/
def resultOf (url : String) (maxRetries : ℕ) : Except String Response → Except RegistryError Response
  | .ok response => if response.isSuccess then .ok response else .error (response.statusError url)
  | .error e => .error (.downloadError s!"Download failed after {maxRetries + 1} attempts: {e}")

theorem sendFrom_eq_resultOf (url : String) (maxRetries retries : ℕ) (attempts : Attempts) :
    sendFrom url maxRetries attempts retries =
      resultOf url maxRetries (decidingFrom maxRetries attempts retries) := by
  induction retries with
  | zero =>
      rw [sendFrom, decidingFrom]
      cases attempts maxRetries <;> rfl
  | succ retries ih =>
      rw [sendFrom, decidingFrom]
      cases attempts (maxRetries - (retries + 1)) with
      | error e => exact ih
      | ok response =>
          dsimp only
          split_ifs with hsuccess htransient
          · rw [resultOf, if_pos hsuccess]
          · exact ih
          · rw [resultOf, if_neg hsuccess]

theorem sendWithRetry_eq_resultOf (url : String) (attempts : Attempts) :
    sendWithRetry url requestRetries attempts =
      resultOf url requestRetries (deciding attempts) :=
  sendFrom_eq_resultOf url requestRetries requestRetries attempts

/-- The server has answered that it cannot satisfy the range. -/
def Unsatisfiable : Except String Response → Prop
  | .ok response => response.status = 416
  | .error _ => False

/-- The digits stand in the text of an error that is about something else: in that of a network
error, or in the URL or the reason that the text repeats. -/
def Misleading (url : String) : Except String Response → Prop
  | .error e => "416".Occurs e
  | .ok response =>
      match response.status with
      | 401 | 403 => "416".Occurs response.reason
      | 404 | 416 | 429 => False
      | status =>
          "416".Occurs (toString status) ∨ "416".Occurs response.reason ∨ "416".Occurs url

theorem not_misleading_of_unsatisfiable {url : String} {outcome : Except String Response}
    (h : Unsatisfiable outcome) : ¬ Misleading url outcome := by
  cases outcome with
  | error e => exact h.elim
  | ok response =>
      have hstatus : response.status = 416 := h
      rw [Misleading, hstatus]
      exact not_false

/-! ## The text of an error -/

theorem occurs_downloadError (message : String) :
    "416".Occurs (RegistryError.downloadError message).text ↔ "416".Occurs message := by
  show "416".Occurs ("Download failed: " ++ message) ↔ _
  rw [String.occurs_append_iff ' ' (by decide) (Or.inl (by decide))]
  exact or_iff_right (by decide)

theorem occurs_accessDenied {status : ℕ} (reason : String)
    (hstatus : ¬ "416".Occurs (toString status)) :
    "416".Occurs (s!"Access denied (HTTP {status} {reason}). " ++
      "You may need to set HF_TOKEN for gated models.") ↔ "416".Occurs reason := by
  show "416".Occurs ("Access denied (HTTP " ++ toString status ++ " " ++ reason ++ "). " ++
    "You may need to set HF_TOKEN for gated models.") ↔ _
  have haccess : ¬ "416".Occurs "Access denied (HTTP " :=
    String.not_occurs_of_notMem (c := '1') (by decide) (by decide)
  have htoken : ¬ "416".Occurs "You may need to set HF_TOKEN for gated models." :=
    String.not_occurs_of_notMem (c := '1') (by decide) (by decide)
  rw [String.occurs_append_iff 'Y' (by decide) (Or.inr (by decide)), or_iff_left htoken,
    String.occurs_append_iff ')' (by decide) (Or.inr (by decide)),
    or_iff_left (by decide : ¬ "416".Occurs "). "),
    String.occurs_around_iff ' ' (by decide) (by decide) (by decide) (by decide),
    String.occurs_append_iff ' ' (by decide) (Or.inl (by decide)), or_iff_right haccess,
    or_iff_right hstatus]

theorem occurs_otherStatus (status : ℕ) (reason url : String) :
    "416".Occurs s!"HTTP {status} {reason} for {url}" ↔
      "416".Occurs (toString status) ∨ "416".Occurs reason ∨ "416".Occurs url := by
  show "416".Occurs ("HTTP " ++ toString status ++ " " ++ reason ++ " for " ++ url) ↔ _
  rw [String.occurs_around_iff ' ' (by decide) (by decide) (by decide) (by decide),
    String.occurs_around_iff ' ' (by decide) (by decide) (by decide) (by decide),
    String.occurs_append_iff ' ' (by decide) (Or.inl (by decide)),
    or_iff_right (by decide : ¬ "416".Occurs "HTTP "), or_assoc]

/-- The text of the error for a status holds the digits if the status is 416, or for another
reason. -/
theorem occurs_statusError (response : Response) (url : String) :
    "416".Occurs (response.statusError url).text ↔
      response.status = 416 ∨ Misleading url (.ok response) := by
  rw [Response.statusError, occurs_downloadError, Misleading]
  generalize response.status = status
  split
  · exact (occurs_accessDenied response.reason (by decide)).trans (or_iff_right (by decide)).symm
  · exact (occurs_accessDenied response.reason (by decide)).trans (or_iff_right (by decide)).symm
  · refine iff_of_false ?_ (not_or.mpr ⟨by decide, not_false⟩)
    exact String.not_occurs_of_notMem (c := '1') (by decide) (by decide)
  · refine iff_of_true ?_ (Or.inl rfl)
    exact String.occurs_between "Requested range not satisfiable (HTTP " "416" ")."
  · refine iff_of_false ?_ (not_or.mpr ⟨by decide, not_false⟩)
    exact String.not_occurs_of_notMem (c := '1') (by decide) (by decide)
  · rename_i hrange _
    simp only [occurs_otherStatus]
    exact (or_iff_right hrange).symm

/-- The text of the error of a request that has failed. -/
theorem occurs_of_failed {url : String} {outcome : Except String Response} {e : RegistryError}
    (h : resultOf url requestRetries outcome = .error e) :
    "416".Occurs e.text ↔ Unsatisfiable outcome ∨ Misleading url outcome := by
  cases outcome with
  | ok response =>
      rw [resultOf] at h
      split_ifs at h
      cases h
      exact occurs_statusError response url
  | error message =>
      cases h
      rw [occurs_downloadError]
      show "416".Occurs ("Download failed after 4 attempts: " ++ message) ↔
        False ∨ "416".Occurs message
      have hfixed : ¬ "416".Occurs "Download failed after 4 attempts: " :=
        String.not_occurs_of_notMem (c := '1') (by decide) (by decide)
      rw [String.occurs_append_iff ' ' (by decide) (Or.inl (by decide)),
        or_iff_right hfixed, false_or]

/-! ## Requests for a range -/

/-- The offset of a request is the length of what is on disk. -/
def AtLength (disk : Disk) : DownloadPhase → Prop
  | .describing bytesDownloaded _ | .requesting bytesDownloaded .. =>
      bytesDownloaded = (disk.partialFile.map List.length).getD 0
  | .discarding _ => disk.partialFile = none
  | _ => True

namespace Target

variable {target : Target} {call : DownloadCall}

/-- What a plan makes of the bytes on disk. -/
theorem planResume_cases (stored : Option ℕ) (metadata : Option PartialMeta) (url : String) :
    planResume stored metadata url = .fresh ∧ stored.getD 0 = 0 ∨
      planResume stored metadata url = .resume (stored.getD 0) ∨
      planResume stored metadata url = .discardAndRestart := by
  cases stored with
  | none => exact Or.inl ⟨rfl, rfl⟩
  | some length =>
      rcases Nat.eq_zero_or_pos length with rfl | hpos
      · exact Or.inl ⟨rfl, rfl⟩
      · rw [planResume_of_pos hpos]
        split_ifs
        · exact Or.inr (Or.inr rfl)
        · exact Or.inr (Or.inl rfl)

theorem atLength_proceed {disk disk' : Disk} {phase phase' : DownloadPhase}
    (h : AtLength disk phase) (proceeds : target.proceed call disk phase = some (disk', phase')) :
    AtLength disk' phase' := by
  cases phase with
  | planning =>
      rw [proceed] at proceeds
      rcases planResume_cases (disk.partialFile.map List.length) disk.metadata target.url with
        ⟨hplan, hzero⟩ | hplan | hplan <;> rw [hplan] at proceeds <;> cases proceeds
      · exact hzero.symm
      · rfl
      · rfl
  | discarding previous =>
      cases proceeds
      have hnone : disk.partialFile = none := h
      show 0 = (disk.partialFile.map List.length).getD 0
      rw [hnone]
      rfl
  | describing bytesDownloaded previous =>
      cases proceeds
      exact h
  | retrying retriesLeft metadata =>
      cases proceeds
      rfl
  | interrupted | promoting =>
      rw [proceed] at proceeds
      split_ifs at proceeds <;> cases proceeds <;> trivial
  | responding =>
      rw [proceed] at proceeds
      dsimp only at proceeds
      split_ifs at proceeds <;> cases proceeds <;> trivial
  | verifying =>
      rw [proceed] at proceeds
      split at proceeds
      · cases proceeds
        trivial
      · cases proceeds
      · dsimp only at proceeds
        split_ifs at proceeds <;> cases proceeds <;> trivial
  | moving =>
      rw [proceed] at proceeds
      split at proceeds <;> cases proceeds
      trivial
  | opening | tidying | cleaning | unlinking =>
      cases proceeds
      trivial
  | requesting | restarting | streaming | returned => cases proceeds

theorem atLength_work (session : Session) (h : AtLength session.disk session.phase) :
    AtLength (target.work call session).disk (target.work call session).phase := by
  rw [work]
  split
  · rename_i proceeds
    exact atLength_proceed h proceeds
  · exact h

/-- No input leads straight to another request. -/
theorem atLength_serve (session : Session) (served : Served)
    (h : AtLength session.disk session.phase) :
    AtLength (target.serve session served).disk (target.serve session served).phase := by
  rw [serve.eq_def]
  split
  · dsimp only
    rw [afterRequest]
    split
    · trivial
    · split_ifs <;> trivial
  · dsimp only
    rw [afterRestart]
    split <;> trivial
  · trivial
  · trivial
  · trivial
  · trivial
  · dsimp only
    rw [afterStream]
    split <;> trivial
  · exact h

theorem atLength_download (start : Disk) (script : List Served) :
    AtLength (target.download call start script).disk
      (target.download call start script).phase :=
  download_invariant atLength_work atLength_serve trivial script

end Target

/-! ## What is claimed -/

/-- A session that waits for the answer to a request, with bytes on disk. -/
def Session.AsksForRest (session : Session) : Prop :=
  (∃ bytesDownloaded retriesLeft metadata,
      session.phase = .requesting bytesDownloaded retriesLeft metadata) ∧
    ∃ bytes, session.disk.partialFile = some bytes ∧ bytes ≠ []

/-- **Only a range that cannot be satisfied gives up the bytes on disk.** If a request fails for
another reason, the download returns its error and leaves the files as they are. -/
def Session.KeepsProgress (target : Target) (call : DownloadCall) (session : Session)
    (attempts : Attempts) : Prop :=
  session.AsksForRest → ∀ e, sendWithRetry target.url requestRetries attempts = .error e →
    let next := target.react call session (.answer attempts)
    (next.disk.partialFile ≠ session.disk.partialFile → Unsatisfiable (deciding attempts)) ∧
      (¬ Unsatisfiable (deciding attempts) →
        next.disk = session.disk ∧ next.phase = .returned (.error e))

/-- A request for the rest fails with an error whose text misleads. -/
def Session.Misled (target : Target) (session : Session) (attempts : Attempts) : Prop :=
  session.AsksForRest ∧ (∃ e, sendWithRetry target.url requestRetries attempts = .error e) ∧
    Misleading target.url (deciding attempts)

variable {target : Target} {call : DownloadCall}

/-- What a request for the rest leads to when it fails. -/
theorem react_of_failed {session : Session} {attempts : Attempts} {e : RegistryError}
    (hasks : session.AsksForRest) (hlength : AtLength session.disk session.phase)
    (hfailed : sendWithRetry target.url requestRetries attempts = .error e) :
    let next := target.react call session (.answer attempts)
    if "416".Occurs e.text then next.disk.partialFile = none
    else next.disk = session.disk ∧ next.phase = .returned (.error e) := by
  obtain ⟨⟨bytesDownloaded, retriesLeft, metadata, hphase⟩, bytes, hfile, hbytes⟩ := hasks
  obtain ⟨disk, phase, requests, written⟩ := session
  obtain rfl : phase = .requesting bytesDownloaded retriesLeft metadata := hphase
  have hpos : 0 < bytesDownloaded := by
    have hoffset : bytesDownloaded = (disk.partialFile.map List.length).getD 0 := hlength
    rw [hoffset, show disk.partialFile = some bytes from hfile]
    exact List.length_pos_iff.mpr hbytes
  have hreact : target.react call
      ⟨disk, .requesting bytesDownloaded retriesLeft metadata, requests, written⟩
        (.answer attempts) =
      let after := target.afterRequest disk bytesDownloaded retriesLeft metadata attempts
      target.settle call ⟨after.1, after.2, requests ++ [bytesDownloaded], written⟩ := rfl
  rw [hreact]
  by_cases hdigits : "416".Occurs e.text
  · have hafter : target.afterRequest disk bytesDownloaded retriesLeft metadata attempts =
        ({ disk with partialFile := none }, .restarting retriesLeft metadata) := by
      rw [Target.afterRequest, hfailed]
      dsimp only
      rw [if_pos hpos]
      exact if_pos hdigits
    rw [hafter, if_pos hdigits, Target.settle_of_waiting rfl]
  · have hafter : target.afterRequest disk bytesDownloaded retriesLeft metadata attempts =
        (disk, .returned (.error e)) := by
      rw [Target.afterRequest, hfailed]
      dsimp only
      rw [if_pos hpos]
      exact if_neg hdigits
    rw [hafter, if_neg hdigits, Target.settle_of_waiting rfl]
    exact ⟨rfl, rfl⟩

/-- One request keeps the progress just if it is not misled. -/
theorem keepsProgress_iff {session : Session} {attempts : Attempts}
    (hlength : AtLength session.disk session.phase) :
    session.KeepsProgress target call attempts ↔ ¬ session.Misled target attempts := by
  have hdigits {e : RegistryError}
      (hfailed : sendWithRetry target.url requestRetries attempts = .error e) :=
    occurs_of_failed ((sendWithRetry_eq_resultOf target.url attempts).symm.trans hfailed)
  constructor
  · rintro hkeeps ⟨hasks, ⟨e, hfailed⟩, hmisleading⟩
    have hnext := @react_of_failed target call session attempts e hasks hlength hfailed
    rw [if_pos ((hdigits hfailed).mpr (Or.inr hmisleading))] at hnext
    obtain ⟨hgiven, -⟩ := hkeeps hasks e hfailed
    obtain ⟨-, bytes, hfile, -⟩ := hasks
    have hunsatisfiable : Unsatisfiable (deciding attempts) := by
      apply hgiven
      rw [hnext, hfile]
      nofun
    exact not_misleading_of_unsatisfiable hunsatisfiable hmisleading
  · intro hnot hasks e hfailed
    have hnext := @react_of_failed target call session attempts e hasks hlength hfailed
    have hhonest : ¬ Misleading target.url (deciding attempts) := fun hmisleading =>
      hnot ⟨hasks, ⟨e, hfailed⟩, hmisleading⟩
    by_cases hunsatisfiable : Unsatisfiable (deciding attempts)
    · exact ⟨fun _ => hunsatisfiable, fun hnot => absurd hunsatisfiable hnot⟩
    · rw [if_neg (mt (hdigits hfailed).mp (not_or.mpr ⟨hunsatisfiable, hhonest⟩))] at hnext
      exact ⟨fun hother => absurd (congrArg Disk.partialFile hnext.1) hother, fun _ => hnext⟩

/-- **A download throws progress away only for a real 416** in all its requests, whatever comes
from outside, just if none of them is misled by the digits in another text. -/
theorem only_416_gives_up_iff (target : Target) (call : DownloadCall) (start : Disk)
    (script : List Served) :
    (∀ before attempts, before ++ [.answer attempts] <+: script →
        (target.download call start before).KeepsProgress target call attempts) ↔
      ∀ before attempts, before ++ [.answer attempts] <+: script →
        ¬ (target.download call start before).Misled target attempts := by
  constructor
  · intro hkeeps before attempts hpart
    exact (keepsProgress_iff (Target.atLength_download start before)).mp
      (hkeeps before attempts hpart)
  · intro hnot before attempts hpart
    exact (keepsProgress_iff (Target.atLength_download start before)).mpr
      (hnot before attempts hpart)

/-- A file whose URL holds the digits. -/
def numberedTarget : Target := { smallTarget with url := "https://host/model-416m" }

def unavailable : Response := ⟨503, "Service Unavailable", none, some 0, []⟩

/-- A server that is busy for a while costs the bytes on disk. -/
theorem unavailable_gives_up :
    ¬ ∀ before attempts, before ++ [.answer attempts] <+: [.answer fun _ => .ok unavailable] →
      (numberedTarget.download plainCall ⟨some [1], none, none⟩ before).KeepsProgress
        numberedTarget plainCall attempts := by
  intro hkeeps
  have hmisled : (numberedTarget.download plainCall ⟨some [1], none, none⟩ []).Misled
      numberedTarget fun _ => .ok unavailable := by
    refine ⟨⟨⟨1, 5, _, rfl⟩, [1], rfl, by decide⟩, ⟨_, sendWithRetry_eq_resultOf _ _⟩, ?_⟩
    exact Or.inr (Or.inr (by decide))
  exact (keepsProgress_iff (Target.atLength_download _ _)).mp
    (hkeeps [] _ (List.prefix_refl _)) hmisled

end HiveBear.Registry
