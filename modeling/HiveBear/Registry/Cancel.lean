/-
# Cancelling an install

`cancel_download` returns true when it finds a channel under the model id, whichever
download of the install has registered it. Whether the install then stops depends on that
download and on where it is: the cancellation of a resumed download looks like an ordinary
failure to resume, and a download only looks for a cancellation at the head of its loop and
at each item of a stream.

A cancellation is heeded if it meets the download of the model's file before that is through,
and if behind it no attempt is repeated, no range is asked for again as a whole, and no
stream ends as complete. What carries the result is that a cancelled download then only
moves towards its cleanup.
-/

import HiveBear.Registry.Install

namespace HiveBear.Registry

open LabelledRun Paths

/-! ## What is claimed -/

/-- A step of the install itself. -/
def InstallEvent.isOwn (event : InstallEvent) : Bool :=
  match event.kind with
  | .cancel _ _ => false
  | _ => true

/-- How many steps an install takes at most behind a cancellation that it heeds. -/
def stepsToStop : ℕ := 14

/-- **Cancel means cancel.** Behind the cancellation the install starts no request. It takes
only so many steps, and whenever it cannot go on it has returned an error. -/
def Stops (registry : ModelRegistry) (call : InstallCall) (late : List InstallEvent)
    (state : World × InstallPhase) : Prop :=
  (∀ event ∈ late, event.kind ≠ .request) ∧
    late.countP InstallEvent.isOwn ≤ stepsToStop ∧
    ((∃ error, state.2 = .returned (.error error)) ∨
      ∃ event next, event.isOwn = true ∧ InstallStep registry call state event next)

/-- A call of `cancel_download` that returns true. -/
def cancelTrue (key : String) : InstallEvent := ⟨.cancel key true, []⟩

/-! ## The condition -/

/-- The phases of a download behind which it looks for a cancellation, or fails, before it
starts another request or is complete; while an attempt is in flight, as far as it is not
repeated. -/
def TransferPhase.Heeding : TransferPhase → Prop
  | .mkdir | .waiting _ _ => False
  | .sending _ _ => True
  | .running phase =>
      match phase with
      | .restarting .. | .promoting _ | .verifying | .moving | .tidying | .returned (.ok _) => False
      | _ => True

/-- The download of the model's file has been cancelled. -/
def MainCancelled : World × InstallPhase → Prop
  | (world, .downloading _ _ _) => world.cancelSent
  | _ => False

/-- A cancellation of the model meets the download of its file where that heeds it, and behind
it no step is taken past it. -/
def Heeded (call : InstallCall) (state : World × InstallPhase) (event : InstallEvent) : Prop :=
  match event.kind with
  | .cancel key true =>
      key = call.modelId →
        state.1.cancellations key = some state.1.channel ∧
          ∃ repoId job phase, state.2 = .downloading repoId job phase ∧ phase.Heeding
  | .retry | .restart | .complete => ¬ MainCancelled state
  | _ => True

/-! ## A cancelled download -/

/-- How far a cancelled download is from having returned. -/
def TransferPhase.toGo : TransferPhase → ℕ
  | .mkdir | .waiting _ _ => 0
  | .sending _ _ => 10
  | .running phase =>
      match phase with
      | .planning => 13
      | .discarding _ => 12
      | .describing .. => 11
      | .responding .. => 9
      | .opening .. => 8
      | .streaming .. => 7
      | .interrupted .. => 6
      | .retrying .. => 5
      | .requesting .. => 4
      | .cleaning _ => 3
      | .unlinking _ => 2
      | _ => 1

/-- A cancelled download that goes on by itself stays where it heeds the cancellation. -/
theorem proceed_heeding {target : Target} {call : DownloadCall} {disk disk' : Disk}
    {phase phase' : DownloadPhase} (h : (TransferPhase.running phase).Heeding)
    (proceeds : target.proceed call disk phase = some (disk', phase')) :
    (TransferPhase.running phase').Heeding ∧
      (TransferPhase.running phase').toGo < (TransferPhase.running phase).toGo := by
  cases phase with
  | planning =>
      rw [Target.proceed] at proceeds
      split at proceeds <;> cases proceeds <;> exact ⟨trivial, by simp [TransferPhase.toGo]⟩
  | interrupted retriesLeft metadata =>
      rw [Target.proceed] at proceeds
      split at proceeds <;> cases proceeds <;> exact ⟨trivial, by simp [TransferPhase.toGo]⟩
  | responding bytesDownloaded retriesLeft metadata response =>
      obtain ⟨_, _, _, _, hopening⟩ :=
        proceed_responding target call disk bytesDownloaded retriesLeft metadata response
      rw [hopening] at proceeds
      cases proceeds
      exact ⟨trivial, by simp [TransferPhase.toGo]⟩
  | discarding | describing | opening | retrying | cleaning | unlinking =>
      cases proceeds
      exact ⟨trivial, by simp [TransferPhase.toGo]⟩
  | restarting | promoting | verifying | moving | tidying => exact absurd h not_false
  | requesting | streaming | returned => cases proceeds

/-- What a download does on its own, it does in every phase in which it heeds a cancellation
and waits for nothing. -/
theorem exists_proceed {target : Target} {call : DownloadCall} (disk : Disk)
    {phase : DownloadPhase} (h : (TransferPhase.running phase).Heeding) :
    (∃ disk' phase', target.proceed call disk phase = some (disk', phase')) ∨
      (∃ bytesDownloaded retriesLeft metadata,
        phase = .requesting bytesDownloaded retriesLeft metadata) ∨
      (∃ bytesDownloaded retriesLeft metadata totalBytes body,
        phase = .streaming bytesDownloaded retriesLeft metadata totalBytes body) ∨
      ∃ error, phase = .returned (.error error) := by
  cases phase with
  | requesting bytesDownloaded retriesLeft metadata => exact Or.inr (Or.inl ⟨_, _, _, rfl⟩)
  | streaming bytesDownloaded retriesLeft metadata totalBytes body =>
      exact Or.inr (Or.inr (Or.inl ⟨_, _, _, _, _, rfl⟩))
  | returned result =>
      cases result with
      | error error => exact Or.inr (Or.inr (Or.inr ⟨error, rfl⟩))
      | ok path => exact absurd h not_false
  | restarting | promoting | verifying | moving | tidying => exact absurd h not_false
  | planning =>
      left
      rw [Target.proceed]
      split <;> exact ⟨_, _, rfl⟩
  | interrupted retriesLeft metadata =>
      left
      rw [Target.proceed]
      split <;> exact ⟨_, _, rfl⟩
  | responding bytesDownloaded retriesLeft metadata response =>
      obtain ⟨_, _, _, _, hopening⟩ :=
        proceed_responding target call disk bytesDownloaded retriesLeft metadata response
      exact Or.inl ⟨_, _, hopening⟩
  | discarding | describing | opening | retrying | cleaning | unlinking =>
      exact Or.inl ⟨_, _, rfl⟩

@[simp]
theorem cancelSent_settle (job : Job) (world : World) (disk : Disk) (givenUp : Bool) :
    (world.settle job disk givenUp).cancelSent ↔ world.cancelSent := by
  cases givenUp <;> rfl

/-- **One step of a cancelled download.** It starts no request, and it comes closer to its
end, unless it goes past the cancellation. -/
theorem transferStep_heeding {cwd : Location} {job : Job} {world world' : World}
    {phase phase' : TransferPhase} {event : InstallEvent} (h : phase.Heeding)
    (sent : world.cancelSent)
    (heeded : event.kind ≠ .retry ∧ event.kind ≠ .restart ∧ event.kind ≠ .complete)
    (step : TransferStep cwd job (world, phase) event (world', phase')) :
    phase'.Heeding ∧ world'.cancelSent ∧ event.kind ≠ .request ∧ phase'.toGo < phase.toGo := by
  cases step with
  | mkdir | mkdirFails | restart | again => exact absurd h not_false
  | request notSent | chunk notSent | chunkFails notSent | streamError notSent =>
      exact absurd sent notSent
  | retry => exact absurd rfl heeded.1
  | proceed proceeds free =>
      obtain ⟨hheeding, hless⟩ := proceed_heeding h proceeds
      exact ⟨hheeding, (cancelSent_settle ..).mpr sent, nofun, hless⟩
  | goOn proceeds goesOn =>
      obtain ⟨hheeding, hless⟩ := proceed_heeding h proceeds
      exact ⟨hheeding, (cancelSent_settle ..).mpr sent, nofun, hless⟩
  | @fail _ before _ message fails =>
      cases before with
      | opening =>
          cases fails
          exact ⟨trivial, sent, nofun, by simp [TransferPhase.toGo]⟩
      | verifying | moving => exact absurd h not_false
      | _ => cases fails
  | describeFails => exact ⟨trivial, sent, nofun, by simp [TransferPhase.toGo]⟩
  | cancelRequest | cancelStream => exact ⟨trivial, sent, nofun, by simp [TransferPhase.toGo]⟩
  | @answer _ disk phase' asked retries result outcome decided after =>
      have hkept : (World.settle job world disk phase'.isReturned).cancelSent :=
        (cancelSent_settle ..).mpr sent
      suffices hphase : (TransferPhase.running phase').Heeding ∧
          afterKind phase' ≠ .request ∧ (TransferPhase.running phase').toGo < 10 from
        ⟨hphase.1, hkept, hphase.2⟩
      have hnot := heeded.2.1
      cases asked <;> cases result <;> rw [Asked.after] at after
      · split_ifs at after <;> cases after
        · exact absurd rfl hnot
        · exact ⟨trivial, nofun, by simp [TransferPhase.toGo]⟩
        · exact ⟨trivial, nofun, by simp [TransferPhase.toGo]⟩
      all_goals
        cases after
        exact ⟨trivial, nofun, by simp [TransferPhase.toGo]⟩
  | @streamEnd _ bytesDownloaded retriesLeft metadata totalBytes body =>
      have hnot := heeded.2.2
      rw [afterStream] at hnot ⊢
      split_ifs at hnot ⊢
      · exact ⟨trivial, sent, nofun, by simp [TransferPhase.toGo]⟩
      · exact absurd rfl hnot

theorem isOwn_afterKind (phase : DownloadPhase) (places : List Location) :
    InstallEvent.isOwn ⟨afterKind phase, places⟩ = true := by
  cases phase <;> rfl

/-- A download does not cancel. -/
theorem transferStep_isOwn {cwd : Location} {job : Job} {before after : World × TransferPhase}
    {event : InstallEvent} (step : TransferStep cwd job before event after) :
    event.isOwn = true := by
  cases step with
  | answer | streamEnd => exact isOwn_afterKind _ _
  | _ => rfl

/-- A cancelled download goes on until it has returned. -/
theorem exists_transferStep {cwd : Location} {job : Job} {world : World} {phase : TransferPhase}
    (h : phase.Heeding) (sent : world.cancelSent) :
    (∃ error, phase = .running (.returned (.error error))) ∨
      ∃ event world' phase', event.isOwn = true ∧
        TransferStep cwd job (world, phase) event (world', phase') := by
  cases phase with
  | mkdir | waiting => exact absurd h not_false
  | sending asked retries =>
      right
      cases hresult : attemptResult job.target.url requestRetries retries (.error "") with
      | none => exact ⟨_, _, _, rfl, .retry _ hresult⟩
      | some result =>
          exact ⟨_, _, _, isOwn_afterKind _ _, .answer _ hresult rfl⟩
  | running phase =>
      rcases exists_proceed (world.files job.target.filename) h with
        ⟨disk, phase', proceeds⟩ | ⟨_, _, _, rfl⟩ | ⟨_, _, _, _, _, rfl⟩ | ⟨error, rfl⟩
      · right
        refine ⟨_, _, _, rfl, .proceed proceeds ?_⟩
        rintro rfl
        exact absurd h not_false
      · exact Or.inr ⟨_, _, _, rfl, .cancelRequest sent⟩
      · exact Or.inr ⟨_, _, _, rfl, .cancelStream sent⟩
      · exact Or.inl ⟨error, rfl⟩

/-! ## A cancelled install -/

/-- The download of the model's file has been cancelled and heeds it, or the install has
returned an error. -/
def Stopping : World × InstallPhase → Prop
  | (world, .downloading _ _ phase) => phase.Heeding ∧ world.cancelSent
  | (_, .returned (.error _)) => True
  | _ => False

/-- How many steps a cancelled install still takes at most. -/
def toGo : World × InstallPhase → ℕ
  | (_, .downloading _ _ phase) => phase.toGo + 1
  | _ => 0

/-- A further cancellation takes nothing back. -/
theorem cancelSent_cancelDownload {world : World} (h : world.cancelSent) (key : String) :
    (world.cancelDownload key).cancelSent := by
  rw [World.cancelDownload]
  split
  · exact List.mem_cons_of_mem _ h
  · exact h

variable {registry : ModelRegistry} {call : InstallCall}

/-- **One step of a cancelled install.** -/
theorem stopping_step {state next : World × InstallPhase} {event : InstallEvent}
    (h : Stopping state) (heeded : Heeded call state event)
    (step : InstallStep registry call state event next) :
    Stopping next ∧ event.kind ≠ .request ∧
      toGo next + (if event.isOwn then 1 else 0) ≤ toGo state := by
  cases step with
  | @cancel world phase key =>
      refine ⟨?_, nofun, ?_⟩
      · cases phase with
        | downloading repoId job phase => exact ⟨h.1, cancelSent_cancelDownload h.2 key⟩
        | returned result =>
            cases result with
            | error => trivial
            | ok => exact h
        | _ => exact h
      · cases phase <;> exact le_rfl
  | @download world world' repoId job phase phase' event step =>
      have hpast : event.kind ≠ .retry ∧ event.kind ≠ .restart ∧ event.kind ≠ .complete := by
        refine ⟨?_, ?_, ?_⟩ <;>
        · intro hkind
          rw [Heeded, hkind] at heeded
          exact heeded h.2
      obtain ⟨hheeding, hsent, hrequest, hless⟩ := transferStep_heeding h.1 h.2 hpast step
      refine ⟨⟨hheeding, hsent⟩, hrequest, ?_⟩
      show phase'.toGo + 1 + _ ≤ phase.toGo + 1
      split <;> omega
  | downloaded => exact absurd h.1 not_false
  | notDownloaded => exact ⟨trivial, nofun, by simp [toGo, InstallEvent.isOwn]⟩
  | _ => exact absurd h not_false

/-- A run of a cancelled install. -/
theorem stopping_run {state last : World × InstallPhase} {events : List InstallEvent}
    (run : Run (Guarded (Heeded call) (InstallStep registry call)) state events last)
    (h : Stopping state) :
    Stopping last ∧ (∀ event ∈ events, event.kind ≠ .request) ∧
      toGo last + events.countP InstallEvent.isOwn ≤ toGo state := by
  induction run with
  | nil => exact ⟨h, fun event hevent => absurd hevent List.not_mem_nil, le_rfl⟩
  | @snoc middle last events event run step ih =>
      obtain ⟨hmiddle, hquiet, hcount⟩ := ih
      obtain ⟨hlast, hrequest, hless⟩ := stopping_step hmiddle step.1 step.2
      refine ⟨hlast, ?_, ?_⟩
      · intro other hother
        rcases List.mem_append.mp hother with hearly | hnow
        · exact hquiet other hearly
        · rwa [List.mem_singleton.mp hnow]
      · rw [List.countP_append, List.countP_singleton]
        omega

/-- A cancelled install goes on until it has returned an error. -/
theorem exists_installStep {state : World × InstallPhase} (h : Stopping state) :
    (∃ error, state.2 = .returned (.error error)) ∨
      ∃ event next, event.isOwn = true ∧ InstallStep registry call state event next := by
  obtain ⟨world, phase⟩ := state
  cases phase with
  | downloading repoId job phase =>
      right
      rcases exists_transferStep h.1 h.2 with ⟨error, rfl⟩ | ⟨event, world', phase', hown, step⟩
      · exact ⟨_, _, rfl, .notDownloaded⟩
      · exact ⟨event, _, hown, .download step⟩
  | returned result =>
      cases result with
      | error error => exact Or.inl ⟨error, rfl⟩
      | ok info => exact absurd h not_false
  | _ => exact absurd h not_false

/-- **The cancellation.** If it is heeded, the install is stopping behind it. -/
theorem stopping_of_cancel {state next : World × InstallPhase}
    (heeded : Heeded call state (cancelTrue call.modelId))
    (step : InstallStep registry call state (cancelTrue call.modelId) next) :
    Stopping next := by
  obtain ⟨hregistered, repoId, job, phase, hphase, hheeding⟩ := heeded rfl
  have hcancel : next = (state.1.cancelDownload call.modelId, state.2) := by
    generalize hevent : cancelTrue call.modelId = event at step
    cases step with
    | cancel key =>
        obtain ⟨hkey, -⟩ := Kind.cancel.inj (congrArg InstallEvent.kind hevent)
        rw [hkey]
    | resume step | download step | fetch step =>
        have hown := transferStep_isOwn step
        rw [← hevent] at hown
        cases hown
    | _ => cases congrArg InstallEvent.kind hevent
  rw [hcancel, hphase]
  refine ⟨hheeding, ?_⟩
  rw [World.cancelDownload, hregistered]
  exact List.mem_cons_self

theorem toGo_le (state : World × InstallPhase) : toGo state ≤ stepsToStop := by
  obtain ⟨world, phase⟩ := state
  cases phase with
  | downloading repoId job phase =>
      cases phase with
      | running phase => cases phase <;> simp [toGo, TransferPhase.toGo, stepsToStop]
      | _ => simp [toGo, TransferPhase.toGo, stepsToStop]
  | _ => simp [toGo]

/-- **Cancel means cancel.** In every run of an install, with calls of `cancel_download` at
any point, in which every cancellation of the model is heeded: behind each that returned
true the install starts no request and returns an error. -/
theorem cancel_means_cancel {start last : World × InstallPhase}
    {events early late : List InstallEvent}
    (run : Run (Guarded (Heeded call) (InstallStep registry call)) start events last)
    (hcancel : events = early ++ cancelTrue call.modelId :: late) :
    Stops registry call late last := by
  obtain ⟨next, before, after⟩ := run.split (hcancel.trans (List.append_cons _ _ _))
  obtain ⟨state, -, first⟩ := before.split rfl
  obtain ⟨heeded, step⟩ := first.of_singleton
  obtain ⟨hlast, hquiet, hcount⟩ := stopping_run after (stopping_of_cancel heeded step)
  have hbound := toGo_le next
  exact ⟨hquiet, by omega, exists_installStep hlast⟩

/-! ## Runs -/

/-- Nothing on disk but the directory of the models, and nothing registered. -/
def emptyWorld : World where
  files _ := ⟨none, none, none⟩
  dirs := [[], ["models".toList]]
  cancellations _ := none
  sent := []
  channel := 0
  index _ := none

/-- An install of a file that is named. -/
def namedCall : InstallCall := ⟨"org/model", none, some "m.gguf", 0⟩

def namedFiles : List HfSibling := [⟨"m.gguf", some 3⟩]

/-- An install that is cancelled at the head of the loop stops. -/
theorem exists_stop {start : World × InstallPhase} {events : List InstallEvent} {world : World}
    {repoId : String} {job : Job} {bytesDownloaded retriesLeft : ℕ} {metadata : PartialMeta}
    (run : Run (Guarded (Heeded call) (InstallStep registry call)) start events
      (world, .downloading repoId job
        (.running (.requesting bytesDownloaded retriesLeft metadata))))
    (sent : world.cancelSent) :
    ∃ late last,
      Run (Guarded (Heeded call) (InstallStep registry call)) start (events ++ late) last ∧
        last.2 = .returned (.error cancelled) := by
  have found : Run (Guarded (Heeded call) (InstallStep registry call))
      (world, .downloading repoId job (.running (.requesting bytesDownloaded retriesLeft metadata)))
      _ _ := Run.single ⟨by trivial, .download (.cancelRequest sent)⟩
  have cleaned := found.snoc ⟨by trivial, .download (.proceed rfl nofun)⟩
  have unlinked := cleaned.snoc ⟨by trivial, .download (.proceed rfl nofun)⟩
  have returned := unlinked.snoc ⟨by trivial, .notDownloaded⟩
  exact ⟨_, _, run.append returned, rfl⟩

theorem cancel_means_cancel_named :
    ∃ late last, Stops plainRegistry namedCall late last ∧
      last.2 = .returned (.error cancelled) := by
  have checked : Run (Guarded (Heeded namedCall) (InstallStep plainRegistry namedCall))
      (emptyWorld, .checking) _ _ := Run.single ⟨by trivial, .check rfl⟩
  have prepared := checked.snoc ⟨by trivial, .prepare⟩
  have resolved := prepared.snoc ⟨by trivial, .isRepo (by decide)⟩
  have listed := resolved.snoc ⟨by trivial, .list⟩
  have chosen := listed.snoc ⟨by trivial, .choose namedFiles [] List.Pairwise.nil
    (fun name => ⟨nofun, fun h => absurd h (not_hasPartial rfl _)⟩) rfl⟩
  have made := chosen.snoc ⟨by trivial, .download .mkdir⟩
  have planned := made.snoc ⟨by trivial, .download (.proceed rfl nofun)⟩
  have described := planned.snoc ⟨by trivial, .download (.proceed rfl nofun)⟩
  have met := described.snoc
    ⟨by exact fun _ => ⟨rfl, _, _, _, rfl, trivial⟩, .cancel namedCall.modelId⟩
  obtain ⟨late, last, whole, hreturned⟩ := exists_stop met List.mem_cons_self
  exact ⟨late, last, cancel_means_cancel whole (List.append_assoc _ _ _), hreturned⟩

/-- What an earlier attempt has left of its download. -/
def interruptedMeta : PartialMeta :=
  ⟨"https://host/m.gguf", some 3, none, "org/model", "m.gguf", 0⟩

def interruptedWorld : World where
  files := Function.update emptyWorld.files "m.gguf" ⟨some [1], some interruptedMeta, none⟩
  dirs := [[], ["models".toList], ["models".toList, "org".toList],
    ["models".toList, "org".toList, "model".toList]]
  cancellations _ := none
  sent := []
  channel := 0
  index _ := none

/-- An install that leaves the choice of a file to the registry. -/
def openCall : InstallCall := ⟨"org/model", none, none, 0⟩

/-- Of the interrupted world, only the one download can be resumed. -/
theorem interruptedWorld_resumable {modelDir : Location} {other : String} {metadata : PartialMeta}
    (h : interruptedWorld.resumable modelDir other metadata) : other = "m.gguf" := by
  by_contra hother
  have hfiles : interruptedWorld.files other = emptyWorld.files other := by
    simp [interruptedWorld, Function.update, hother]
  exact absurd h.1 (not_hasPartial (by rw [hfiles]; rfl) modelDir)

/-- **A swallowed cancellation.** An install whose resumed download is cancelled at the head
of its loop asks for the files of the model all the same. -/
theorem exists_request {start : World × InstallPhase} {events : List InstallEvent}
    {world : World} {job : Job} {bytesDownloaded retriesLeft : ℕ} {metadata : PartialMeta}
    (run : Run (InstallStep registry call) start events
      (world, .resuming job (.running (.requesting bytesDownloaded retriesLeft metadata))))
    (sent : world.cancelSent) (slash : '/' ∈ call.modelId.toList) :
    ∃ late last, Run (InstallStep registry call) start (events ++ late) last ∧
      ∃ event ∈ late, event.kind = .request := by
  have found : Run (InstallStep registry call)
      (world, .resuming job (.running (.requesting bytesDownloaded retriesLeft metadata))) _ _ :=
    Run.single (.resume (.cancelRequest sent))
  have cleaned := found.snoc (.resume (.proceed rfl nofun))
  have unlinked := cleaned.snoc (.resume (.proceed rfl nofun))
  have logged := unlinked.snoc .notResumed
  have resolved := logged.snoc (.isRepo slash)
  have listed := resolved.snoc .list
  exact ⟨_, _, run.append listed, _, List.mem_concat_self, rfl⟩

/-- An interrupted download is resumed and cancelled there. -/
theorem cancelled_resume_goes_on :
    ∃ early late last,
      Run (InstallStep plainRegistry openCall) (interruptedWorld, .checking)
          (early ++ cancelTrue openCall.modelId :: late) last ∧
        ¬ Stops plainRegistry openCall late last := by
  have hresumable : interruptedWorld.resumable (plainRegistry.modelPlace openCall.modelId)
      "m.gguf" interruptedMeta :=
    ⟨⟨⟨by decide, by decide⟩, rfl, by decide⟩, rfl, by decide⟩
  have checked : Run (InstallStep plainRegistry openCall) (interruptedWorld, .checking) _ _ :=
    Run.single (.check rfl)
  have looking := checked.snoc .prepare
  have found := looking.snoc (.found "m.gguf" interruptedMeta hresumable (by
    intro other metadata hother
    rw [interruptedWorld_resumable hother]
    exact Or.inr ⟨rfl, String.le_refl _⟩))
  have made := found.snoc (.resume .mkdir)
  have planned := made.snoc (.resume (.proceed rfl nofun))
  have described := planned.snoc (.resume (.proceed rfl nofun))
  have met := described.snoc (.cancel openCall.modelId)
  obtain ⟨late, last, whole, event, hevent, hrequest⟩ :=
    exists_request met List.mem_cons_self (by decide)
  rw [List.append_assoc] at whole
  exact ⟨_, late, last, whole, fun hstops => hstops.1 event hevent hrequest⟩

end HiveBear.Registry
