/-
# The cancellation registry

The download manager keeps one channel for each model id. `cancel_download` takes the entry of an
id away and sends on its channel, and a download that ends takes the entry of its id away, whoever
has registered it. A download whose first metadata cannot be saved returns without looking at its
entry.

The downloads are those of the transfer machine, any number of them, each taking its steps
whenever it likes and finding the files as others leave them. What their steps do to the channels
are the moves of the registry by itself.
-/

import HiveBear.Library.Run
import HiveBear.Registry.CancelBook
import HiveBear.Registry.Transfer

namespace HiveBear.Registry

open LabelledRun Paths

/-! ## Downloads among each other -/

/-- A download is in progress from its registration on, until it takes its entry away or
returns. -/
def TransferPhase.inProgress : TransferPhase → Bool
  | .mkdir => false
  | .sending _ _ | .waiting _ _ => true
  | .running phase =>
      match phase with
      | .unlinking _ | .returned _ => false
      | _ => true

/-- Saving metadata is the one operation behind which a download returns without looking at its
entry. -/
def TransferPhase.isDescribing : TransferPhase → Bool
  | .running (.describing _ _) => true
  | _ => false

/-- A call of `download`: how far it is, and the channel that it looks at. -/
structure ActiveCall where
  job : Job
  channel : ℕ
  phase : TransferPhase

/-- The registry of the download manager, and the calls of `download`. -/
structure DownloadManager (D : Type*) where
  cancellations : String → Option ℕ
  sent : List ℕ
  newest : ℕ
  calls : D → Option ActiveCall

/-- What happens: a call of `download`, one of `cancel_download` with its answer, or a step of a
download to its next phase. -/
inductive ManagerEvent (D : Type*)
  | call (d : D) (job : Job)
  | cancel (key : String) (answer : Bool)
  | transfer (d : D) (phase' : TransferPhase)

namespace DownloadManager

variable {D : Type*}

/-- Nothing has been called yet. -/
def start : DownloadManager D where
  cancellations _ := none
  sent := []
  newest := 0
  calls _ := none

/-- A world with the channels of the manager and any files, for a download with this channel. -/
structure Shows (manager : DownloadManager D) (channel : ℕ) (world : World) : Prop where
  cancellations : world.cancellations = manager.cancellations
  sent : world.sent = manager.sent
  channel : world.channel = channel

/-- The channels as a step leaves them. -/
def adopt (manager : DownloadManager D) (world : World) : DownloadManager D :=
  { manager with
    cancellations := world.cancellations
    sent := world.sent }

/-- The channel behind which a download registers, or at which it looks. -/
def channelOf (manager : DownloadManager D) (active : ActiveCall) : ℕ :=
  match active.phase with
  | .mkdir => manager.newest
  | _ => active.channel

/-- The newest channel behind a step: only a download that starts makes one. -/
def newestBehind (manager : DownloadManager D) (active : ActiveCall) (world : World) : ℕ :=
  match active.phase with
  | .mkdir => world.channel
  | _ => manager.newest

/-- The downloads that are in progress. -/
def book (manager : DownloadManager D) : CancelBook D where
  cancellations := manager.cancellations
  sent := manager.sent
  newest := manager.newest
  current d := (manager.calls d).bind fun active =>
    if active.phase.inProgress then some (active.job.call.modelId, active.channel) else none

variable [DecidableEq D]

def setCall (manager : DownloadManager D) (d : D) (active : ActiveCall) : DownloadManager D :=
  { manager with calls := Function.update manager.calls d (some active) }

/-- One step of the manager's calls. -/
inductive Step (cwd : Location) :
    DownloadManager D → ManagerEvent D → DownloadManager D → Prop
  | call {manager : DownloadManager D} {d : D} {job : Job} (new : manager.calls d = none) :
      Step cwd manager (.call d job) (manager.setCall d ⟨job, 0, .mkdir⟩)
  | cancel {manager : DownloadManager D} {world : World} {key : String}
      (shows : manager.Shows manager.newest world) :
      Step cwd manager (.cancel key (world.cancelAnswer key))
        (manager.adopt (world.cancelDownload key))
  | transfer {manager : DownloadManager D} {d : D} {active : ActiveCall} {world world' : World}
      {event : InstallEvent} {phase' : TransferPhase} (found : manager.calls d = some active)
      (shows : manager.Shows (manager.channelOf active) world)
      (step : TransferStep cwd active.job (world, active.phase) event (world', phase')) :
      Step cwd manager (.transfer d phase')
        { (manager.adopt world').setCall d
            { active with channel := world'.channel, phase := phase' } with
          newest := manager.newestBehind active world' }

/-- What an event does to the registry. -/
def move (manager : DownloadManager D) : ManagerEvent D → BookMove D
  | .call _ _ => .stay
  | .cancel key _ => .cancel key
  | .transfer d phase' =>
      match manager.calls d with
      | none => .stay
      | some active =>
          if active.phase.inProgress then
            if phase'.inProgress then .stay
            else if active.phase.isDescribing then .forget d
            else .leave d
          else if phase'.inProgress then .register d active.job.call.modelId
          else .stay

end DownloadManager

/-! ### What a step does to the registry -/

/-- What becomes of the channels where a download goes from one phase to another: an entry is
made where the download begins to be in progress, and taken away where it ends to be, but not
where it ends because metadata cannot be saved. -/
structure ChannelEffect (key : String) (phase phase' : TransferPhase) (world world' : World) :
    Prop where
  sent : world'.sent = world.sent
  began : phase.inProgress = false → phase'.inProgress = true →
    phase = .mkdir ∧ world'.channel = world.channel + 1 ∧
      world'.cancellations = Function.update world.cancellations key (some (world.channel + 1))
  ended : phase.inProgress = true → phase'.inProgress = false → phase.isDescribing = false →
    world'.channel = world.channel ∧
      world'.cancellations = Function.update world.cancellations key none
  kept : phase.inProgress = phase'.inProgress ∨ phase.isDescribing = true →
    world'.channel = world.channel ∧ world'.cancellations = world.cancellations

/-- A step that settles, and gives the entry up just where the download ends to be in progress. -/
theorem channelEffect_settle {job : Job} {world : World} {phase phase' : TransferPhase}
    (disk : Disk) {givenUp : Bool} (hgivenUp : givenUp = (phase.inProgress && !phase'.inProgress))
    (hends : phase.inProgress = false → phase'.inProgress = false)
    (hdescribing : phase.isDescribing = true → givenUp = false) :
    ChannelEffect job.call.modelId phase phase' world (world.settle job disk givenUp) := by
  refine ⟨?_, ?_, ?_, ?_⟩
  · cases givenUp <;> rfl
  · intro hbefore hafter
    rw [hends hbefore] at hafter
    cases hafter
  · intro hbefore hafter _
    rw [hbefore, hafter] at hgivenUp
    subst hgivenUp
    exact ⟨rfl, rfl⟩
  · intro hkept
    have hnot : givenUp = false := by
      rcases hkept with hsame | hsaving
      · rw [hgivenUp, hsame, Bool.and_not_self]
      · exact hdescribing hsaving
    subst hnot
    exact ⟨rfl, rfl⟩

/-- A step of a download in progress that leaves the channels alone. -/
theorem channelEffect_same {key : String} {phase phase' : TransferPhase} {world world' : World}
    (h : phase.inProgress = phase'.inProgress ∨ phase.isDescribing = true)
    (hdescribing : phase.isDescribing = true → phase.inProgress = true)
    (hsent : world'.sent = world.sent) (hchannel : world'.channel = world.channel)
    (hcancellations : world'.cancellations = world.cancellations) :
    ChannelEffect key phase phase' world world' := by
  refine ⟨hsent, ?_, ?_, fun _ => ⟨hchannel, hcancellations⟩⟩
  · intro hbefore hafter
    rcases h with hsame | hsaving
    · rw [hbefore, hafter] at hsame
      cases hsame
    · rw [hdescribing hsaving] at hbefore
      cases hbefore
  · intro hbefore hafter hnot
    rcases h with hsame | hsaving
    · rw [hbefore, hafter] at hsame
      cases hsame
    · rw [hsaving] at hnot
      cases hnot

/-- A download that goes on by itself gives its entry up just where it ends to be in progress. -/
theorem proceed_inProgress {target : Target} {call : DownloadCall} {disk disk' : Disk}
    {phase phase' : DownloadPhase} (proceeds : target.proceed call disk phase = some (disk', phase')) :
    unregisters phase phase' =
        ((TransferPhase.running phase).inProgress && !(TransferPhase.running phase').inProgress) ∧
      ((TransferPhase.running phase).inProgress = false →
        (TransferPhase.running phase').inProgress = false) ∧
      ((TransferPhase.running phase).isDescribing = true → unregisters phase phase' = false) := by
  cases phase with
  | responding bytesDownloaded retriesLeft metadata response =>
      obtain ⟨_, _, _, _, hopening⟩ :=
        proceed_responding target call disk bytesDownloaded retriesLeft metadata response
      rw [hopening] at proceeds
      cases proceeds
      exact ⟨rfl, fun h => absurd h.symm Bool.false_ne_true, fun h => absurd h Bool.false_ne_true⟩
  | requesting | restarting | streaming | returned => cases proceeds
  | planning | interrupted | promoting | verifying | moving =>
      simp only [Target.proceed] at proceeds
      split at proceeds
      all_goals try split at proceeds
      all_goals cases proceeds
      all_goals exact
        ⟨rfl, fun h => absurd h.symm Bool.false_ne_true, fun h => absurd h Bool.false_ne_true⟩
  | discarding | describing | opening | retrying | tidying | cleaning | unlinking =>
      cases proceeds
      exact ⟨rfl, by simp [TransferPhase.inProgress],
        by simp [TransferPhase.isDescribing, unregisters, DownloadPhase.isReturned]⟩

/-- Behind a request a download returns, or it is still in progress. -/
theorem after_inProgress {disk disk' : Disk} {asked : Asked} {phase' : DownloadPhase}
    {result : Except RegistryError Response} (after : asked.after disk result = (disk', phase')) :
    phase'.isReturned = !(TransferPhase.running phase').inProgress := by
  cases asked <;> cases result <;> rw [Asked.after] at after
  · split_ifs at after <;> cases after <;> rfl
  all_goals
    cases after
    rfl

/-- **The registry and one step of a download.** -/
theorem transferStep_channels {cwd : Location} {job : Job} {world world' : World}
    {phase phase' : TransferPhase} {event : InstallEvent}
    (step : TransferStep cwd job (world, phase) event (world', phase')) :
    ChannelEffect job.call.modelId phase phase' world world' := by
  cases step with
  | mkdir =>
      refine ⟨rfl, fun _ _ => ⟨rfl, rfl, rfl⟩, nofun, ?_⟩
      rintro (hsame | hsaving)
      · cases hsame
      · cases hsaving
  | mkdirFails => exact channelEffect_same (Or.inl rfl) nofun rfl rfl rfl
  | proceed proceeds free =>
      obtain ⟨hgivenUp, hends, hdescribing⟩ := proceed_inProgress proceeds
      exact channelEffect_settle _ hgivenUp hends hdescribing
  | goOn proceeds goesOn =>
      obtain ⟨hgivenUp, hends, hdescribing⟩ := proceed_inProgress proceeds
      exact channelEffect_settle _ hgivenUp hends hdescribing
  | @fail _ before _ message fails =>
      cases before with
      | opening | moving =>
          cases fails
          exact channelEffect_same (Or.inl rfl) nofun rfl rfl rfl
      | verifying =>
          rw [Job.failed] at fails
          split_ifs at fails
          cases fails
          exact channelEffect_same (Or.inl rfl) nofun rfl rfl rfl
      | _ => cases fails
  | describeFails message => exact channelEffect_same (Or.inr rfl) (fun _ => rfl) rfl rfl rfl
  | @answer _ disk phase' asked retries result outcome decided after =>
      exact channelEffect_settle disk (after_inProgress after) nofun nofun
  | @streamEnd _ bytesDownloaded retriesLeft metadata totalBytes body =>
      rw [afterStream]
      split_ifs <;> exact channelEffect_same (Or.inl rfl) nofun rfl rfl rfl
  | _ => exact channelEffect_same (Or.inl rfl) nofun rfl rfl rfl

namespace DownloadManager

variable {D : Type*}

theorem newestBehind_of_same {manager : DownloadManager D} {active : ActiveCall}
    {world world' : World} (shows : manager.Shows (manager.channelOf active) world)
    (hsame : world'.channel = world.channel) :
    manager.newestBehind active world' = manager.newest := by
  rw [newestBehind]
  split
  · next hphase => rw [hsame, shows.channel, channelOf, hphase]
  · rfl

theorem channelOf_of_inProgress {manager : DownloadManager D} {active : ActiveCall}
    (h : active.phase.inProgress = true) : manager.channelOf active = active.channel := by
  rw [channelOf]
  split
  · next hphase =>
      rw [hphase] at h
      cases h
  · rfl

/-- What a download is in the registry: itself, if it is in progress. -/
theorem book_current_of_found {manager : DownloadManager D} {d : D} {active : ActiveCall}
    (found : manager.calls d = some active) :
    manager.book.current d =
      if active.phase.inProgress then some (active.job.call.modelId, active.channel) else none := by
  simp [book, found]

variable [DecidableEq D]

theorem book_setCall (manager : DownloadManager D) (d : D) (active : ActiveCall) :
    (manager.setCall d active).book.current =
      Function.update manager.book.current d
        (if active.phase.inProgress then some (active.job.call.modelId, active.channel)
          else none) := by
  funext e
  by_cases he : e = d
  · subst he
    simp [book, setCall]
  · simp [book, setCall, he]

omit [DecidableEq D] in
/-- A cancellation takes the entry of its id, and sends on its channel. -/
theorem book_cancel {manager : DownloadManager D} {world : World} (key : String)
    (shows : manager.Shows manager.newest world) :
    (manager.adopt (world.cancelDownload key)).book = manager.book.cancelDownload key := by
  obtain ⟨hcancellations, hsent, -⟩ := shows
  cases hkey : manager.cancellations key with
  | none =>
      rw [CancelBook.cancelDownload_none hkey]
      rw [← hcancellations] at hkey
      have hworld : world.cancelDownload key = world := by rw [World.cancelDownload, hkey]
      rw [hworld]
      exact CancelBook.ext hcancellations hsent rfl rfl
  | some channel =>
      rw [CancelBook.cancelDownload_some hkey]
      rw [← hcancellations] at hkey
      have hworld : world.cancelDownload key =
          { world.unregister key with sent := channel :: world.sent } := by
        rw [World.cancelDownload, hkey]
      rw [hworld]
      refine CancelBook.ext ?_ ?_ rfl rfl
      · exact congrArg (Function.update · key none) hcancellations
      · exact congrArg (channel :: ·) hsent

/-- What a step of a download leaves. -/
def behind (manager : DownloadManager D) (d : D) (active : ActiveCall) (world' : World)
    (phase' : TransferPhase) : DownloadManager D :=
  { (manager.adopt world').setCall d
      { active with channel := world'.channel, phase := phase' } with
    newest := manager.newestBehind active world' }

/-- Where no channel is made, the entries and the download itself are what is left to look at. -/
theorem book_behind {manager : DownloadManager D} {d : D} {active : ActiveCall}
    {world world' : World} {phase' : TransferPhase} {book : CancelBook D}
    (shows : manager.Shows (manager.channelOf active) world) (hsent : world'.sent = world.sent)
    (hown : world'.channel = world.channel) (hentries : world'.cancellations = book.cancellations)
    (hbook : book.sent = manager.sent ∧ book.newest = manager.newest)
    (hcurrent : Function.update manager.book.current d
      (if phase'.inProgress then some (active.job.call.modelId, world'.channel) else none) =
        book.current) :
    (manager.behind d active world' phase').book = book := by
  refine CancelBook.ext hentries ?_ ?_ ((book_setCall _ d _).trans hcurrent)
  · exact (hsent.trans shows.sent).trans hbook.1.symm
  · exact (newestBehind_of_same shows hown).trans hbook.2.symm

/-- A step of a download is a move of the registry. -/
theorem book_transfer {cwd : Location} {manager : DownloadManager D} {d : D} {active : ActiveCall}
    {world world' : World} {event : InstallEvent} {phase' : TransferPhase}
    (found : manager.calls d = some active) (shows : manager.Shows (manager.channelOf active) world)
    (step : TransferStep cwd active.job (world, active.phase) event (world', phase')) :
    (manager.behind d active world' phase').book =
        manager.book.next (manager.move (.transfer d phase')) ∧
      manager.book.Possible (manager.move (.transfer d phase')) := by
  obtain ⟨hsent, hbegan, hended, hkept⟩ := transferStep_channels step
  obtain ⟨hcancellations, -, hchannel⟩ := id shows
  have hcurrent := book_current_of_found found
  rw [move, found]
  dsimp only
  split_ifs with hbefore hafter hsaving hafter
  · -- it stays in progress
    obtain ⟨hown, hentries⟩ := hkept (Or.inl (hbefore.trans hafter.symm))
    refine ⟨book_behind shows hsent hown (hentries.trans hcancellations) ⟨rfl, rfl⟩ ?_, trivial⟩
    rw [if_pos hbefore] at hcurrent
    rw [if_pos hafter, hown, hchannel, channelOf_of_inProgress hbefore]
    exact Function.update_eq_self_iff.mpr hcurrent.symm
  · -- its metadata cannot be saved
    obtain ⟨hown, hentries⟩ := hkept (Or.inr hsaving)
    refine ⟨book_behind shows hsent hown (hentries.trans hcancellations) ⟨rfl, rfl⟩ ?_, trivial⟩
    exact congrArg (Function.update manager.book.current d) (if_neg hafter)
  · -- it ends
    obtain ⟨hown, hentries⟩ := hended hbefore (Bool.eq_false_iff.mpr hafter)
      (Bool.eq_false_iff.mpr hsaving)
    rw [if_pos hbefore] at hcurrent
    refine ⟨?_, trivial⟩
    rw [CancelBook.next, hcurrent]
    refine book_behind shows hsent hown ?_ ⟨rfl, rfl⟩ ?_
    · exact hentries.trans (congrArg (Function.update · active.job.call.modelId none) hcancellations)
    · exact congrArg (Function.update manager.book.current d) (if_neg hafter)
  · -- it begins, with a new channel
    obtain ⟨hphase, hown, hentries⟩ := hbegan (Bool.eq_false_iff.mpr hbefore) hafter
    rw [if_neg hbefore] at hcurrent
    refine ⟨?_, hcurrent⟩
    have hnewest : world.channel = manager.newest := by rw [hchannel, channelOf, hphase]
    rw [hnewest] at hown hentries
    refine CancelBook.ext ?_ (hsent.trans shows.sent) ?_ ?_
    · exact hentries.trans (congrArg
        (Function.update · active.job.call.modelId (some (manager.newest + 1))) hcancellations)
    · refine Eq.trans ?_ hown
      rw [book, behind, newestBehind, hphase]
    · refine (book_setCall _ d _).trans ?_
      rw [if_pos hafter, hown]
      rfl
  · -- it does not begin, or has ended
    obtain ⟨hown, hentries⟩ := hkept (Or.inl
      ((Bool.eq_false_iff.mpr hbefore).trans (Bool.eq_false_iff.mpr hafter).symm))
    refine ⟨book_behind shows hsent hown (hentries.trans hcancellations) ⟨rfl, rfl⟩ ?_, trivial⟩
    rw [if_neg hbefore] at hcurrent
    rw [if_neg hafter]
    exact Function.update_eq_self_iff.mpr hcurrent.symm

/-- **Refinement.** A step of the manager's calls is a move of the registry. -/
theorem book_step {cwd : Location} {manager manager' : DownloadManager D} {event : ManagerEvent D}
    (step : Step cwd manager event manager') :
    manager'.book = manager.book.next (manager.move event) ∧
      manager.book.Possible (manager.move event) := by
  cases step with
  | call new =>
      refine ⟨CancelBook.ext rfl rfl rfl ?_, trivial⟩
      rw [book_setCall]
      refine Function.update_eq_self_iff.mpr ?_
      simp [book, new, TransferPhase.inProgress]
  | cancel shows => exact ⟨book_cancel _ shows, trivial⟩
  | transfer found shows step => exact book_transfer found shows step

/-! ## What is claimed -/

/-- An uncancelled download of this id is in progress. -/
def Uncancelled (manager : DownloadManager D) (key : String) (d : D) : Prop :=
  ∃ active, manager.calls d = some active ∧ active.phase.inProgress ∧
    active.job.call.modelId = key ∧ active.channel ∉ manager.sent

/-- **The cancellation registry is exact**: an id is registered just if an uncancelled download of
it is in progress, and a call of `cancel_download` that returns true reaches every download of the
id then in progress. -/
structure Exact (manager : DownloadManager D) : Prop where
  listed : ∀ key, (manager.cancellations key).isSome ↔ ∃ d, manager.Uncancelled key d
  reached : ∀ cwd key manager', Step cwd manager (.cancel key true) manager' → ∀ d active,
    manager.calls d = some active → active.phase.inProgress → active.job.call.modelId = key →
      active.channel ∈ manager'.sent

/-- **The condition.** A download registers only while no uncancelled download of its id is in
progress. It ends only while no other one is, except where its first metadata cannot be saved:
there it has been cancelled. -/
def Clean (manager : DownloadManager D) : ManagerEvent D → Prop
  | .transfer d phase' => ∀ active, manager.calls d = some active →
      (active.phase.inProgress = false → phase'.inProgress = true →
        ∀ other, ¬ manager.Uncancelled active.job.call.modelId other) ∧
      (active.phase.inProgress = true → phase'.inProgress = false →
        if active.phase.isDescribing then active.channel ∈ manager.sent
        else ∀ other, manager.Uncancelled active.job.call.modelId other → other = d)
  | _ => True

/-! ## The registry of the manager -/

omit [DecidableEq D] in
@[simp]
theorem book_sent (manager : DownloadManager D) : manager.book.sent = manager.sent := rfl

omit [DecidableEq D] in
theorem book_current_eq_some_iff {manager : DownloadManager D} {d : D} {key : String} {channel : ℕ} :
    manager.book.current d = some (key, channel) ↔ ∃ active, manager.calls d = some active ∧
      active.phase.inProgress ∧ active.job.call.modelId = key ∧ active.channel = channel := by
  simp only [book, Option.bind_eq_some_iff]
  refine exists_congr fun active => and_congr_right fun _ => ?_
  rw [Option.ite_none_right_eq_some, Option.some_inj, Prod.mk.injEq]

omit [DecidableEq D] in
theorem book_uncancelled_iff {manager : DownloadManager D} {key : String} {d : D} :
    manager.book.Uncancelled key d ↔ manager.Uncancelled key d := by
  constructor
  · rintro ⟨channel, hcurrent, hsent⟩
    obtain ⟨active, hcall, hprogress, hkey, rfl⟩ := book_current_eq_some_iff.mp hcurrent
    exact ⟨active, hcall, hprogress, hkey, hsent⟩
  · rintro ⟨active, hcall, hprogress, hkey, hsent⟩
    exact ⟨active.channel, book_current_eq_some_iff.mpr ⟨active, hcall, hprogress, hkey, rfl⟩, hsent⟩

/-- `cancel_download` answers whether the id is registered. -/
theorem isSome_of_cancel {cwd : Location} {manager manager' : DownloadManager D} {key : String}
    {answer : Bool} (step : Step cwd manager (.cancel key answer) manager') :
    (manager.cancellations key).isSome = answer ∧
      manager'.sent = (manager.book.cancelDownload key).sent := by
  have hbook := (book_step step).1
  cases step with
  | cancel shows =>
      refine ⟨?_, congrArg CancelBook.sent hbook⟩
      rw [World.cancelAnswer, shows.cancellations]

omit [DecidableEq D] in
/-- The channels of the manager, and nothing on disk. -/
theorem shows_blank (manager : DownloadManager D) (channel : ℕ) :
    manager.Shows channel ⟨fun _ => ⟨none, none, none⟩, [], manager.cancellations, manager.sent,
      channel, fun _ => none⟩ :=
  ⟨rfl, rfl, rfl⟩

theorem exists_cancel (cwd : Location) (manager : DownloadManager D) (key : String) :
    ∃ manager', Step cwd manager (.cancel key (manager.cancellations key).isSome) manager' :=
  ⟨_, .cancel (manager.shows_blank manager.newest)⟩

theorem exact_iff {manager : DownloadManager D} : manager.Exact ↔ manager.book.Exact := by
  constructor
  · rintro ⟨hlisted, hreached⟩
    refine ⟨?_, ?_⟩
    · intro key
      exact (hlisted key).trans (exists_congr fun d => book_uncancelled_iff.symm)
    · intro key hregistered d channel hcurrent
      obtain ⟨active, hcall, hprogress, hkey, rfl⟩ := book_current_eq_some_iff.mp hcurrent
      obtain ⟨manager', hcancel⟩ := exists_cancel [] manager key
      rw [← (isSome_of_cancel hcancel).2]
      have hanswer : (manager.cancellations key).isSome = true := hregistered
      rw [hanswer] at hcancel
      exact hreached [] key manager' hcancel d active hcall hprogress hkey
  · rintro ⟨hlisted, hreached⟩
    refine ⟨?_, ?_⟩
    · intro key
      exact (hlisted key).trans (exists_congr fun d => book_uncancelled_iff)
    · intro cwd key manager' hcancel d active hcall hprogress hkey
      obtain ⟨hanswer, hsent⟩ := isSome_of_cancel hcancel
      rw [hsent]
      exact hreached key hanswer d active.channel
        (book_current_eq_some_iff.mpr ⟨active, hcall, hprogress, hkey, rfl⟩)

omit [DecidableEq D] in
/-- A step is clean just if its move is. -/
theorem clean_iff {manager : DownloadManager D} {event : ManagerEvent D}
    (hfound : ∀ d phase', event = .transfer d phase' → ∃ active, manager.calls d = some active) :
    manager.Clean event ↔ manager.book.Clean (manager.move event) := by
  cases event with
  | call d job => exact Iff.rfl
  | cancel key answer => exact Iff.rfl
  | transfer d phase' =>
      obtain ⟨active, found⟩ := hfound d phase' rfl
      have hcurrent := book_current_of_found found
      have hunfolded : manager.Clean (.transfer d phase') ↔
          (active.phase.inProgress = false → phase'.inProgress = true →
            ∀ other, ¬ manager.book.Uncancelled active.job.call.modelId other) ∧
          (active.phase.inProgress = true → phase'.inProgress = false →
            if active.phase.isDescribing then active.channel ∈ manager.sent
            else ∀ other, manager.book.Uncancelled active.job.call.modelId other → other = d) := by
        simp only [Clean, found, Option.some.injEq, forall_eq', book_uncancelled_iff]
      rw [hunfolded, move, found]
      dsimp only
      by_cases hbefore : active.phase.inProgress = true
      · rw [if_pos hbefore] at hcurrent ⊢
        by_cases hafter : phase'.inProgress = true
        · rw [if_pos hafter]
          exact iff_of_true (by simp [hbefore, hafter]) trivial
        · rw [if_neg hafter]
          split_ifs <;> simp [CancelBook.Clean, hcurrent, hbefore, hafter]
      · rw [if_neg hbefore]
        by_cases hafter : phase'.inProgress = true
        · rw [if_pos hafter]
          simp [CancelBook.Clean, hbefore, hafter]
        · rw [if_neg hafter]
          exact iff_of_true (by simp [hbefore, hafter]) trivial

/-- What carries the result: the registry is exact, and no channel has been used twice. -/
structure Orderly (manager : DownloadManager D) : Prop where
  sound : manager.book.Sound
  exact : manager.Exact

theorem start_orderly : (start : DownloadManager D).Orderly := by
  refine ⟨⟨?_, ?_, ?_, ?_⟩, ?_⟩
  · rintro d key channel ⟨⟩
  · rintro d d' key key' channel ⟨⟩
  · rintro key channel ⟨⟩
  · rintro channel ⟨⟩
  · refine exact_iff.mpr ⟨?_, ?_⟩
    · intro key
      refine iff_of_false nofun ?_
      rintro ⟨d, channel, ⟨⟩, -⟩
    · rintro key ⟨⟩

theorem orderly_step {cwd : Location} {manager manager' : DownloadManager D}
    {event : ManagerEvent D} (h : manager.Orderly) (step : Step cwd manager event manager') :
    manager'.book.Sound ∧ (manager'.Exact ↔ manager.Clean event) := by
  obtain ⟨hbook, hpossible⟩ := book_step step
  have hfound : ∀ d phase', event = .transfer d phase' → ∃ active, manager.calls d = some active := by
    rintro d phase' rfl
    cases step with
    | transfer found shows step => exact ⟨_, found⟩
  rw [exact_iff, hbook, clean_iff hfound]
  exact ⟨CancelBook.sound_next h.sound,
    CancelBook.exact_next_iff (exact_iff.mp h.exact) h.sound hpossible⟩

theorem orderly_guarded {cwd : Location} {manager manager' : DownloadManager D}
    {event : ManagerEvent D} (h : manager.Orderly)
    (step : Guarded Clean (Step cwd) manager event manager') : manager'.Orderly := by
  obtain ⟨hclean, step⟩ := step
  obtain ⟨hsound, hexact⟩ := orderly_step h step
  exact ⟨hsound, hexact.mpr hclean⟩

/-- **Exactness of the cancellation registry.** Whatever the downloads do among each other and
whenever they are cancelled, the registry is exact behind every run of clean steps, and any
further step keeps it exact just if that step is clean. -/
theorem cancellations_exact {cwd : Location} {events : List (ManagerEvent D)}
    {manager : DownloadManager D} (run : Run (Guarded Clean (Step cwd)) start events manager) :
    manager.Exact ∧ ∀ event manager', Step cwd manager event manager' →
      (manager'.Exact ↔ manager.Clean event) := by
  have horderly := run.invariant (fun h step => orderly_guarded h step) start_orderly
  exact ⟨horderly.exact, fun event manager' step => (orderly_step horderly step).2⟩

/-! ### Two runs -/

/-- A download of a small model. -/
def smallJob : Job where
  target := ⟨"https://host/m.gguf", "m.gguf", "models/m/m.gguf.partial", "models/m/m.gguf", fun _ => ""⟩
  call := ⟨none, "m", 0, 0⟩
  destDir := "models/m".toList

/-- Its directory is created, and then it looks at the files, of which there are none. -/
theorem small_planned : ∃ events manager,
    Run (Guarded Clean (Step [])) (start : DownloadManager Unit) events manager ∧
      manager.calls () = some ⟨smallJob, 1, .running (.describing 0 none)⟩ ∧
      manager.cancellations "m" = some 1 ∧ manager.sent = [] := by
  let before : DownloadManager Unit := start.setCall () ⟨smallJob, 0, .mkdir⟩
  have called : Run (Guarded Clean (Step [])) start [.call () smallJob] before :=
    Run.single ⟨by trivial, .call rfl⟩
  have found : before.calls () = some ⟨smallJob, 0, .mkdir⟩ := rfl
  have alone : before.Clean (.transfer () (.running .planning)) := by
    rintro active ⟨⟩
    refine ⟨?_, nofun⟩
    rintro - - other ⟨active, ⟨⟩, ⟨⟩, -⟩
  obtain ⟨registered, made, foundAfter, hregistered, hsent⟩ : ∃ registered,
      Run (Guarded Clean (Step [])) start [.call () smallJob, .transfer () (.running .planning)]
        registered ∧
      registered.calls () = some ⟨smallJob, 1, .running .planning⟩ ∧
      registered.cancellations "m" = some 1 ∧ registered.sent = [] :=
    ⟨_, called.snoc ⟨alone, .transfer found (before.shows_blank _) .mkdir⟩, rfl, rfl, rfl⟩
  have goesOn : registered.Clean (.transfer () (.running (.describing 0 none))) := by
    intro active hactive
    obtain rfl := Option.some_inj.mp (foundAfter.symm.trans hactive)
    exact ⟨nofun, nofun⟩
  have planned := made.snoc
    ⟨goesOn, .transfer foundAfter (registered.shows_blank _) (.proceed rfl nofun)⟩
  exact ⟨_, _, planned, rfl, hregistered, hsent⟩

theorem cancellations_exact_small : ∃ events manager,
    Run (Guarded Clean (Step [])) (start : DownloadManager Unit) events manager ∧
      manager.cancellations "m" = some 1 ∧ manager.Exact ∧
      ∀ event manager', Step [] manager event manager' →
        (manager'.Exact ↔ manager.Clean event) := by
  obtain ⟨events, manager, planned, -, hregistered, -⟩ := small_planned
  exact ⟨events, manager, planned, hregistered, cancellations_exact planned⟩

/-- Its metadata cannot be saved, and its id stays registered. -/
theorem failed_description_stays_registered :
    ¬ ∀ (cwd : Location) (events : List (ManagerEvent Unit)) (manager : DownloadManager Unit),
      Run (Step cwd) start events manager → manager.Exact := by
  intro hexact
  obtain ⟨events, manager, planned, hcall, hregistered, -⟩ := small_planned
  have unguarded : Run (Step []) start events manager := planned.map id fun step => step.2
  have failed := unguarded.snoc (.transfer hcall (shows_blank _ _)
    (.describeFails "No space left on device (os error 28)"))
  have hkept := (hexact _ _ _ failed).listed "m"
  obtain ⟨other, active, hother, hprogress, -⟩ := hkept.mp (by
    rw [Option.isSome_iff_exists]
    exact ⟨1, hregistered⟩)
  obtain rfl := Option.some_inj.mp ((Function.update_self () _ manager.calls).symm.trans hother)
  cases hprogress

end DownloadManager

end HiveBear.Registry
