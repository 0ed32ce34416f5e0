/-
# One call of a download

What happens in a call of a download is determined by the files it finds and by what comes from
outside: the outcomes of the attempts of each request, how much of a body arrives, how a stream
ends, and whether the download is cancelled. Between two of these the download works by itself
until it waits for the next one.

A session also keeps what can be seen from outside: the requests that are sent, each with the
offset of its range, and the metadata that is written.
-/

import HiveBear.Library.Run
import HiveBear.Registry.Download

namespace HiveBear.Registry

open LabelledRun

/-- What comes from outside. -/
inductive Served
  /-- The outcomes of the attempts of a request. -/
  | answer (attempts : Attempts)
  /-- So many bytes of the body. -/
  | chunk (size : ℕ)
  | streamError
  /-- The stream ends without an error, possibly too early. -/
  | streamEnd
  /-- The download finds that it has been cancelled. -/
  | cancel

structure Session where
  disk : Disk
  phase : DownloadPhase
  /-- The offsets of the requests sent so far. -/
  requests : List ℕ
  /-- The metadata written so far. -/
  written : List PartialMeta

/-- The metadata that is written between two phases. -/
def writtenBetween : DownloadPhase → DownloadPhase → List PartialMeta
  | .describing .., .requesting _ _ metadata => [metadata]
  | .responding _ _ metadata _, .opening _ _ described _ _ =>
      if described.totalBytes ≠ metadata.totalBytes then [described] else []
  | _, _ => []

namespace Target

variable (target : Target) (call : DownloadCall)

/-- One step that needs nothing from outside. -/
def work (session : Session) : Session :=
  match target.proceed call session.disk session.phase with
  | some (disk, phase) =>
      { session with
        disk := disk
        phase := phase
        written := session.written ++ writtenBetween session.phase phase }
  | none => session

/-- What comes from outside is taken in by the phases that wait for it. -/
def serve (session : Session) (served : Served) : Session :=
  match session.phase, served with
  | .requesting bytesDownloaded retriesLeft metadata, .answer attempts =>
      let after := target.afterRequest session.disk bytesDownloaded retriesLeft metadata attempts
      { session with
        disk := after.1
        phase := after.2
        requests := session.requests ++ [bytesDownloaded] }
  | .restarting retriesLeft metadata, .answer attempts =>
      let after := target.afterRestart session.disk retriesLeft metadata attempts
      { session with
        disk := after.1
        phase := after.2
        requests := session.requests ++ [0] }
  | .requesting .., .cancel | .streaming .., .cancel =>
      { session with phase := .cleaning cancelled }
  | .streaming bytesDownloaded retriesLeft metadata totalBytes body, .chunk size =>
      { session with
        disk := { session.disk with
          partialFile := session.disk.partialFile.map (· ++ body.take size) }
        phase := .streaming (bytesDownloaded + (body.take size).length) retriesLeft metadata
          totalBytes (body.drop size) }
  | .streaming _ retriesLeft metadata _ _, .streamError =>
      { session with phase := .interrupted retriesLeft metadata }
  | .streaming bytesDownloaded retriesLeft metadata totalBytes _, .streamEnd =>
      { session with phase := afterStream bytesDownloaded retriesLeft metadata totalBytes }
  | _, _ => session

/-- The session works until it waits. From no phase does it take more steps by itself. -/
def settle (session : Session) : Session := (target.work call)^[5] session

def react (session : Session) (served : Served) : Session :=
  target.settle call (target.serve session served)

/-- The session of a call that finds these files, behind what has come from outside. -/
def download (start : Disk) (script : List Served) : Session :=
  exec (target.react call) (target.settle call ⟨start, .planning, [], []⟩) script

variable {target call}

theorem download_concat (start : Disk) (script : List Served) (served : Served) :
    target.download call start (script ++ [served]) =
      target.react call (target.download call start script) served :=
  exec_snoc _ _ _ _

/-- What each step by itself and each input keeps, every session has. -/
theorem download_invariant {Inv : Session → Prop}
    (hwork : ∀ session, Inv session → Inv (target.work call session))
    (hserve : ∀ session served, Inv session → Inv (target.serve session served))
    {start : Disk} (hstart : Inv ⟨start, .planning, [], []⟩) (script : List Served) :
    Inv (target.download call start script) := by
  have hsettle (session : Session) (h : Inv session) : Inv (target.settle call session) :=
    Function.Iterate.rec Inv h (fun session h => hwork session h) 5
  induction script using List.reverseRecOn with
  | nil => exact hsettle _ hstart
  | append_singleton script served ih =>
      rw [download_concat]
      exact hsettle _ (hserve _ served ih)

/-- Two sessions stay related if each step by itself and each input keeps them so. -/
theorem react_related {R : Session → Session → Prop}
    (hwork : ∀ {first second}, R first second →
      R (target.work call first) (target.work call second))
    (hserve : ∀ {first second} served, R first second →
      R (target.serve first served) (target.serve second served))
    {first second : Session} (h : R first second) (script : List Served) :
    R (exec (target.react call) first script) (exec (target.react call) second script) := by
  have hsettle (n : ℕ) {first second : Session} (h : R first second) :
      R ((target.work call)^[n] first) ((target.work call)^[n] second) := by
    induction n generalizing first second with
    | zero => exact h
    | succ n ih => exact ih (hwork h)
  induction script using List.reverseRecOn with
  | nil => exact h
  | append_singleton script served ih =>
      rw [exec_snoc, exec_snoc]
      exact hsettle 5 (hserve served ih)

/-- How many steps a download takes by itself from a phase on, at most. -/
def stepsLeft : DownloadPhase → ℕ
  | .promoting _ => 4
  | .planning | .verifying => 3
  | .discarding _ | .responding .. | .interrupted .. | .moving | .cleaning _ => 2
  | .describing .. | .opening .. | .retrying .. | .tidying | .unlinking _ => 1
  | .requesting .. | .restarting .. | .streaming .. | .returned _ => 0

theorem stepsLeft_proceed {disk disk' : Disk} {phase phase' : DownloadPhase}
    (h : target.proceed call disk phase = some (disk', phase')) :
    stepsLeft phase' < stepsLeft phase := by
  cases phase with
  | requesting | restarting | streaming | returned => cases h
  | discarding | describing | opening | retrying | tidying | cleaning | unlinking =>
      cases h
      simp [stepsLeft]
  | responding =>
      rw [proceed] at h
      dsimp only at h
      split_ifs at h <;> cases h <;> simp [stepsLeft]
  | planning | interrupted | promoting =>
      simp only [proceed] at h
      split at h <;> cases h <;> simp [stepsLeft]
  | verifying =>
      simp only [proceed] at h
      split at h
      · cases h
        simp [stepsLeft]
      · cases h
      · split at h <;> cases h <;> simp [stepsLeft]
  | moving =>
      simp only [proceed] at h
      split at h <;> cases h
      simp [stepsLeft]

/-- Work goes on for fewer steps than are left. -/
theorem proceed_iterate_work {n : ℕ} {session : Session} (h : stepsLeft session.phase ≤ n) :
    let last := (target.work call)^[n] session
    target.proceed call last.disk last.phase = none := by
  induction n generalizing session with
  | zero =>
      by_contra hproceeds
      obtain ⟨⟨disk, phase⟩, hproceeds⟩ := Option.ne_none_iff_exists'.mp hproceeds
      have hless := stepsLeft_proceed hproceeds
      exact absurd (hless.trans_le h) (Nat.not_lt_zero _)
  | succ n ih =>
      cases hproceeds : target.proceed call session.disk session.phase with
      | none =>
          have hstays : target.work call session = session := by rw [work, hproceeds]
          dsimp only
          rwa [Function.iterate_fixed hstays]
      | some next =>
          apply ih
          rw [work, hproceeds]
          exact Nat.le_of_lt_succ ((stepsLeft_proceed hproceeds).trans_le h)

/-- **A session that has settled waits** for what comes from outside. -/
theorem proceed_settle (session : Session) :
    let settled := target.settle call session
    target.proceed call settled.disk settled.phase = none := by
  apply proceed_iterate_work
  cases session.phase <;> simp [stepsLeft]

/-- A session that waits stays as it is. -/
theorem settle_of_waiting {session : Session}
    (h : target.proceed call session.disk session.phase = none) :
    target.settle call session = session := by
  have hwork : target.work call session = session := by rw [work, h]
  exact Function.iterate_fixed hwork 5

end Target

end HiveBear.Registry
