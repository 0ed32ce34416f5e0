/-
# What an install may touch

Whatever the condition of staying inside asks for is needed: for each of its parts there is a
run of an install that touches the place it is about. Nothing exists in these runs but the
directory of the models and, where a download is resumed, the directory of its file; every
repository has the file that is asked for.
-/

import HiveBear.Registry.Inside

namespace HiveBear.Registry

open LabelledRun Paths

/-! ## Runs that reach what is to be contained -/

/-- Some of the events touch a place. -/
def Touches (events : List InstallEvent) (place : Location) : Prop :=
  ∃ event ∈ events, place ∈ event.touched

theorem Touches.left {early late : List InstallEvent} {place : Location}
    (h : Touches early place) : Touches (early ++ late) place := by
  obtain ⟨event, hevent, hplace⟩ := h
  exact ⟨event, List.mem_append_left _ hevent, hplace⟩

theorem Touches.right {early late : List InstallEvent} {place : Location}
    (h : Touches late place) : Touches (early ++ late) place := by
  obtain ⟨event, hevent, hplace⟩ := h
  exact ⟨event, List.mem_append_right _ hevent, hplace⟩

section

variable {cwd : Location} {job : Job} {world : World}

theorem files_settle (job : Job) (world : World) (disk : Disk) (givenUp : Bool) :
    (world.settle job disk givenUp).files job.target.filename = disk := by
  cases givenUp <;> exact Function.update_self ..

theorem files_settle_of_ne (job : Job) (world : World) (disk : Disk) (givenUp : Bool)
    {name : String} (hname : name ≠ job.target.filename) :
    (world.settle job disk givenUp).files name = world.files name := by
  cases givenUp <;> exact Function.update_of_ne hname ..

/-- A download creates its directory and saves metadata, if nothing is to be discarded. -/
theorem exists_described {offset : ℕ} {previous : Option PartialMeta}
    (hplan : job.target.proceed job.call (world.files job.target.filename) .planning =
      some (world.files job.target.filename, .describing offset previous)) :
    ∃ events world',
      Run (TransferStep cwd job) (world, .mkdir) events
          (world', .running (.requesting offset job.call.streamRetries
            (job.target.describe job.call previous))) ∧
        (∀ place ∈ missing world.dirs cwd job.parentDir, Touches events place) ∧
        Touches events (leadsTo cwd job.metaPath) ∧
        world'.dirs = world.dirs ++ missing world.dirs cwd job.parentDir ∧
        world'.sent = world.sent ∧
        ∀ name, name ≠ job.target.filename → world'.files name = world.files name := by
  have made : Run (TransferStep cwd job) (world, .mkdir) _ _ := Run.single .mkdir
  have planned := made.snoc (.proceed hplan nofun)
  have described := planned.snoc (.proceed rfl nofun)
  refine ⟨_, _, described, ?_, ?_, rfl, rfl, ?_⟩
  · intro place hplace
    exact ⟨_, List.mem_append_left _ (List.mem_append_left _ (List.mem_singleton_self _)), hplace⟩
  · exact ⟨_, List.mem_append_right _ (List.mem_singleton_self _), by
      simp [Job.touched]⟩
  · intro name hname
    exact (files_settle_of_ne job _ _ false hname).trans (files_settle_of_ne job _ _ false hname)

theorem proceed_verifying (hsha : job.call.expectedSha256 = none) (disk : Disk) :
    job.target.proceed job.call disk .verifying = some (disk, .moving) := by
  rw [Target.proceed, hsha]

theorem proceed_moving {disk : Disk} {bytes : List UInt8} (h : disk.partialFile = some bytes) :
    job.target.proceed job.call disk .moving =
      some ({ disk with partialFile := none, finalFile := some bytes }, .tidying) := by
  rw [Target.proceed, h]

/-- A response without a body and without a length. -/
def emptyResponse : Response := ⟨200, "OK", none, none, []⟩

theorem proceed_emptyResponse {metadata : PartialMeta} (hunknown : metadata.totalBytes = none)
    (disk : Disk) (offset retriesLeft : ℕ) :
    job.target.proceed job.call disk (.responding offset retriesLeft metadata emptyResponse) =
      some (disk, .opening 0 retriesLeft metadata none emptyResponse) := by
  have htotal : emptyResponse.totalBytes 0 none = none := rfl
  have hwhole : emptyResponse.status = 200 := rfl
  simp [Target.proceed, hwhole, hunknown, htotal]

/-- A download that is about to send its request may be answered at once, and is then put into
its place. -/
theorem exists_completed (hfree : leadsTo cwd job.finalPath ∉ world.dirs)
    (hsha : job.call.expectedSha256 = none) (hsent : world.sent = []) {metadata : PartialMeta}
    (hunknown : metadata.totalBytes = none) (offset retriesLeft : ℕ) :
    ∃ events world' path,
      Run (TransferStep cwd job) (world, .running (.requesting offset retriesLeft metadata)) events
          (world', .running (.returned (.ok path))) ∧
        Touches events (leadsTo cwd job.finalPath) ∧
        ∀ name, name ≠ job.target.filename → world'.files name = world.files name := by
  have requested : Run (TransferStep cwd job)
      (world, .running (.requesting offset retriesLeft metadata)) _ _ :=
    Run.single (.request (by rw [World.cancelSent, hsent]; exact List.not_mem_nil))
  have answered := requested.snoc (.answer (.ok emptyResponse) rfl rfl)
  have responded := answered.snoc (.proceed (proceed_emptyResponse hunknown _ _ _) nofun)
  have opened := responded.snoc (.proceed rfl nofun)
  have streamed := opened.snoc .streamEnd
  have promoted := streamed.snoc (.proceed rfl nofun)
  have verified := promoted.snoc (.proceed (proceed_verifying hsha _) nofun)
  have moved := verified.snoc (.proceed
    (@proceed_moving job _ [] (by simp only [files_settle]; rfl)) (fun _ => hfree))
  have tidied := moved.snoc (.proceed rfl nofun)
  refine ⟨_, _, _, tidied, ?_, ?_⟩
  · exact ⟨_, List.mem_append_left _ (List.mem_append_right _ (List.mem_singleton_self _)), by
      simp [Job.touched]⟩
  · intro name hname
    simp only [files_settle_of_ne job _ _ _ hname]

theorem names_transferStep {filename : String} {before after : World × TransferPhase}
    {state : World × InstallPhase} {event : InstallEvent}
    (step : TransferStep cwd job before event after) : Names filename state event := by
  cases step with
  | @answer _ disk phase' => cases phase' <;> trivial
  | streamEnd =>
      rw [afterStream]
      split <;> trivial
  | _ => trivial

end

section

variable {registry : ModelRegistry} {call : InstallCall} {filename : String}

/-- A run of a download, within an install. -/
theorem download_run {job : Job} {before after : World × TransferPhase}
    {events : List InstallEvent} (run : Run (TransferStep registry.cwd job) before events after)
    (repoId : String) :
    Run (Guarded (Names filename) (InstallStep registry call))
      (before.1, .downloading repoId job before.2) events
      (after.1, .downloading repoId job after.2) :=
  run.map (fun state => (state.1, InstallPhase.downloading repoId job state.2))
    fun step => ⟨names_transferStep step, .download step⟩

theorem fetch_run {current : Job} {before after : World × TransferPhase}
    {events : List InstallEvent}
    (run : Run (TransferStep registry.cwd current) before events after) (job : Job)
    (rest : List Job) :
    Run (Guarded (Names filename) (InstallStep registry call))
      (before.1, .fetching job current rest before.2) events
      (after.1, .fetching job current rest after.2) :=
  run.map (fun state => (state.1, InstallPhase.fetching job current rest state.2))
    fun step => ⟨names_transferStep step, .fetch step⟩

theorem resume_run {job : Job} {before after : World × TransferPhase}
    {events : List InstallEvent} (run : Run (TransferStep registry.cwd job) before events after) :
    Run (Guarded (Names filename) (InstallStep registry call))
      (before.1, .resuming job before.2) events (after.1, .resuming job after.2) :=
  run.map (fun state => (state.1, InstallPhase.resuming job state.2))
    fun step => ⟨names_transferStep step, .resume step⟩

/-- Some repository is found for every model. -/
theorem exists_listing (registry : ModelRegistry) (call : InstallCall) (filename : String)
    (world : World) :
    ∃ repoId events, Run (Guarded (Names filename) (InstallStep registry call))
      (world, .resolving) events (world, .listing repoId) := by
  by_cases hslash : '/' ∈ call.modelId.toList
  · exact ⟨_, _, Run.single ⟨by trivial, .isRepo hslash⟩⟩
  · cases hknown : registry.knownRepo call.modelId with
    | some repoId => exact ⟨repoId, _, Run.single ⟨by trivial, .known hslash hknown⟩⟩
    | none =>
        have searching : Run (Guarded (Names filename) (InstallStep registry call))
            (world, .resolving) _ _ := Run.single ⟨by trivial, .search hslash hknown⟩
        exact ⟨"repo", _, searching.snoc ⟨by trivial, .searched "repo"⟩⟩

/-- A world without any files of the model. -/
def freshWorld (dirs : List Location) : World where
  files _ := ⟨none, none, none⟩
  dirs := dirs
  cancellations _ := none
  sent := []
  channel := 0
  index _ := none

/-- An install of this file of the model. -/
def namedInstall (modelId filename : String) : InstallCall := ⟨modelId, none, some filename, 0⟩

/-- An install creates the directory of the model. -/
theorem exists_prepared (registry : ModelRegistry) (modelId filename : String)
    (dirs : List Location) :
    ∃ events,
      Run (Guarded (Names filename) (InstallStep registry (namedInstall modelId filename)))
          (freshWorld dirs, .checking) events
          ((freshWorld dirs).addDirs (registry.missingDirs (freshWorld dirs) modelId),
            .resolving) ∧
        ∀ place ∈ registry.missingDirs (freshWorld dirs) modelId, Touches events place := by
  have checked :
      Run (Guarded (Names filename) (InstallStep registry (namedInstall modelId filename)))
        (freshWorld dirs, .checking) _ _ := Run.single ⟨by trivial, .check rfl⟩
  have prepared := checked.snoc ⟨by trivial, .prepare⟩
  exact ⟨_, prepared, fun place hplace =>
    ⟨_, List.mem_append_right _ (List.mem_singleton_self _), hplace⟩⟩

/-- A repository may have any GGUF file. -/
theorem chooseFile_named (registry : ModelRegistry) (modelId : String)
    (hgguf : isGguf filename = true) (repoId : String) :
    ∃ file, registry.chooseFile (namedInstall modelId filename)
        (listFiles repoId [⟨filename, none⟩]) [] = .ok file ∧
      file.filename = filename ∧ file.sha256 = none := by
  refine ⟨⟨filename, 0, none,
    s!"https://huggingface.co/{repoId}/resolve/main/{filename}"⟩, ?_, rfl, rfl⟩
  simp [namedInstall, ModelRegistry.chooseFile, ModelRegistry.pickFile, listFiles, hgguf]

/-- An install comes to requesting its file, and has created and saved what it needs. -/
theorem exists_requested (registry : ModelRegistry) (modelId : String)
    (hgguf : isGguf filename = true) (dirs : List Location) :
    ∃ events repoId job world,
      job.Fits registry modelId filename ∧ job.call.expectedSha256 = none ∧
        Run (Guarded (Names filename) (InstallStep registry (namedInstall modelId filename)))
          (freshWorld dirs, .checking) events
          (world, .downloading repoId job (.running (.requesting 0 job.call.streamRetries
            (job.target.describe job.call none)))) ∧
        (∀ place ∈ registry.modelPasses modelId, place ∈ dirs ∨ Touches events place) ∧
        (∀ place ∈ registry.filePasses modelId filename, place ∈ dirs ∨ Touches events place) ∧
        (∃ name, Touches events (registry.folderPlace modelId filename ++ [name])) ∧
        (∀ place ∈ world.dirs, place ∈ dirs ∨ place ∈ registry.modelPasses modelId ∨
          place ∈ registry.filePasses modelId filename) ∧
        world.sent = [] ∧
        ∀ name, name ≠ filename → world.files name = ⟨none, none, none⟩ := by
  obtain ⟨early, prepared, hcreated⟩ := exists_prepared registry modelId filename dirs
  obtain ⟨repoId, searched, resolved⟩ :=
    exists_listing registry (namedInstall modelId filename) filename
      ((freshWorld dirs).addDirs (registry.missingDirs (freshWorld dirs) modelId))
  obtain ⟨file, hchosen, hname, hsha⟩ := chooseFile_named registry modelId hgguf repoId
  have listed := (prepared.append resolved).snoc ⟨by trivial, .list⟩
  have chosen := listed.snoc ⟨by exact hname, .choose [⟨filename, none⟩] [] List.Pairwise.nil
    (fun name => ⟨nofun, fun h => absurd h (not_hasPartial rfl _)⟩) hchosen⟩
  have hfits : (registry.fileJob (namedInstall modelId filename) file).Fits registry modelId
      filename := ⟨rfl, hname⟩
  have hparent := hfits.parentDir (suffixed_of_isGguf hgguf)
  obtain ⟨late, world, described, hmade, hmeta, hdirs, hsent, hfiles⟩ :=
    @exists_described registry.cwd (registry.fileJob (namedInstall modelId filename) file)
      ((freshWorld dirs).addDirs (registry.missingDirs (freshWorld dirs) modelId)) 0 none rfl
  obtain ⟨-, ⟨name, hplace⟩, -⟩ := Job.sibling_place hfits.destDir_ne registry.cwd
  rw [hplace, hfits.folderPlace] at hmeta
  rw [hparent] at hmade hdirs
  have hmodel (place : Location) (hpassed : place ∈ registry.modelPasses modelId) :
      place ∈ dirs ∨ place ∈ registry.missingDirs (freshWorld dirs) modelId :=
    or_iff_not_imp_left.mpr fun hthere => mem_missing_iff.mpr ⟨hpassed, hthere⟩
  refine ⟨_, repoId, _, world, hfits, hsha, chosen.append (download_run described repoId), ?_, ?_,
    ⟨name, hmeta.right⟩, ?_, hsent, ?_⟩
  · intro place hpassed
    exact (hmodel place hpassed).imp_right fun hnew => (hcreated place hnew).left.left.left.left
  · intro place hpassed
    by_cases hthere : place ∈ dirs ++ registry.missingDirs (freshWorld dirs) modelId
    · exact (List.mem_append.mp hthere).imp_right fun hnew =>
        (hcreated place hnew).left.left.left.left
    · exact Or.inr (hmade place (mem_missing_iff.mpr ⟨hpassed, hthere⟩)).right
  · intro place hthere
    rw [hdirs] at hthere
    rcases List.mem_append.mp hthere with hbefore | hnew
    · exact (List.mem_append.mp hbefore).imp_right fun hnew => Or.inl (mem_missing_iff.mp hnew).1
    · exact Or.inr (Or.inr (mem_missing_iff.mp hnew).1)
  · intro name hother
    exact hfiles name (hname ▸ hother)

/-- A tokenizer is looked for in one repository after the other, and may be found in none. -/
theorem exists_recording (registry : ModelRegistry) (call : InstallCall) (filename : String)
    (job current : Job) (rest : List Job) (world : World) :
    ∃ events world', Run (Guarded (Names filename) (InstallStep registry call))
      (world, .fetching job current rest .mkdir) events (world', .recording job) := by
  have failed (current : Job) (rest : List Job) (world : World) :
      Run (Guarded (Names filename) (InstallStep registry call))
        (world, .fetching job current rest .mkdir) _ _ :=
    fetch_run (Run.single (.mkdirFails 0 "")) job rest
  induction rest generalizing current world with
  | nil => exact ⟨_, _, (failed current [] world).snoc ⟨by trivial, .fetchedNone⟩⟩
  | cons next rest ih =>
      obtain ⟨late, world', tried⟩ := ih next _
      exact ⟨_, world',
        ((failed current (next :: rest) world).snoc ⟨by trivial, .fetchNext⟩).append tried⟩

/-- Once its file is in place, an install comes to downloading a tokenizer. -/
theorem exists_fetching (registry : ModelRegistry) (modelId : String)
    (hgguf : isGguf filename = true) {dirs : List Location}
    (hdirs : registry.finalPlace modelId filename ∉ dirs)
    (hfree : ¬ registry.Blocked modelId filename) :
    ∃ events repoId job rest world,
      Run (Guarded (Names filename) (InstallStep registry (namedInstall modelId filename)))
          (freshWorld dirs, .checking) events
          (world, .fetching job (registry.tokenizerJob (namedInstall modelId filename) repoId) rest
            .mkdir) ∧
        Touches events (registry.finalPlace modelId filename) ∧
        world.files "tokenizer.json" = ⟨none, none, none⟩ := by
  obtain ⟨early, repoId, job, world, hfits, hsha, requested, -, -, -, hmade, hsent, hfiles⟩ :=
    exists_requested registry modelId hgguf dirs
  have hnew : leadsTo registry.cwd job.finalPath ∉ world.dirs := by
    rw [hfits.finalPlace]
    intro hthere
    rcases hmade _ hthere with hbefore | hmodel | hfile
    · exact hdirs hbefore
    · exact hfree (Or.inl hmodel)
    · exact hfree (Or.inr (Or.inl hfile))
  have hunknown : (job.target.describe job.call none).totalBytes = none := rfl
  obtain ⟨late, world', path, completed, hmoved, hkept⟩ :=
    exists_completed hnew hsha hsent hunknown 0 job.call.streamRetries
  rw [hfits.finalPlace] at hmoved
  have hother : "tokenizer.json" ≠ filename := by
    rintro rfl
    exact absurd hgguf (by decide)
  have habsent : world'.files "tokenizer.json" = ⟨none, none, none⟩ := by
    rw [hkept _ (hfits.2 ▸ hother), hfiles _ hother]
  have downloaded := (requested.append (download_run completed repoId)).snoc
    ⟨by trivial, .downloaded⟩
  have measured := downloaded.snoc ⟨by trivial, .measure⟩
  have equipped := measured.snoc ⟨by trivial, .equip (by rw [habsent])⟩
  have asked := equipped.snoc ⟨by trivial, .askBase⟩
  have based := asked.snoc ⟨by trivial, .based none⟩
  exact ⟨_, repoId, job, _, world', based, hmoved.right.left.left.left.left.left, habsent⟩

/-- What an earlier attempt may have left. -/
def leftMeta (modelId filename : String) : PartialMeta := ⟨"url", none, none, modelId, filename, 0⟩

/-- A world in which one interrupted download of the model is left. -/
def leftWorld (dirs : List Location) (modelId filename : String) : World where
  files := Function.update (fun _ => ⟨none, none, none⟩) filename
    ⟨some [1], some (leftMeta modelId filename), none⟩
  dirs := dirs
  cancellations _ := none
  sent := []
  channel := 0
  index _ := none

/-- There it is the only one that can be resumed. -/
theorem eq_of_resumable {dirs made : List Location} {modelId name : String}
    {metadata : PartialMeta} {place : Location}
    (h : ((leftWorld dirs modelId filename).addDirs made).resumable place name metadata) :
    name = filename := by
  by_contra hname
  refine absurd h.1 (not_hasPartial ?_ place)
  simp [World.addDirs, leftWorld, Function.update, hname]

theorem resumable_leftWorld {dirs made : List Location} {modelId : String} {place : Location}
    (hscanned : Scanned filename)
    (hthere : ((leftWorld dirs modelId filename).addDirs made).hasFolder place filename) :
    ((leftWorld dirs modelId filename).addDirs made).resumable place filename
      (leftMeta modelId filename) := by
  refine ⟨⟨hscanned, ?_, hthere⟩, ?_, ?_⟩
  · simp [World.addDirs, leftWorld]
  · simp [World.addDirs, leftWorld]
  · simp [leftMeta]

/-- An install that finds an interrupted download resumes it, and requests the rest of it. -/
theorem exists_resumed (registry : ModelRegistry) (modelId : String) (hscanned : Scanned filename)
    {dirs : List Location}
    (hfolder : ∀ place, place <+: registry.folderPlace modelId filename → place ∈ dirs) :
    ∃ events job metadata world,
      job.Fits registry modelId filename ∧ job.call.expectedSha256 = none ∧
        metadata.totalBytes = none ∧
        Run (Guarded (Names filename) (InstallStep registry ⟨modelId, none, none, 0⟩))
          (leftWorld dirs modelId filename, .checking) events
          (world, .resuming job (.running (.requesting 1 job.call.streamRetries metadata))) ∧
        (∃ name, Touches events (registry.folderPlace modelId filename ++ [name])) ∧
        (∀ place ∈ world.dirs, place ∈ dirs ∨ place ∈ registry.modelPasses modelId) ∧
        world.sent = [] := by
  have checked :
      Run (Guarded (Names filename) (InstallStep registry ⟨modelId, none, none, 0⟩))
        (leftWorld dirs modelId filename, .checking) _ _ := Run.single ⟨by trivial, .check rfl⟩
  have prepared := checked.snoc ⟨by trivial, .prepare⟩
  have hthere : ((leftWorld dirs modelId filename).addDirs
      (registry.missingDirs (leftWorld dirs modelId filename) modelId)).hasFolder
        (registry.modelPlace modelId) filename := by
    intro place hplace
    rw [← registry.folderPlace_eq] at hplace
    exact List.mem_append_left _ (hfolder place ((List.mem_inits _ _).mp hplace))
  have found := prepared.snoc
    ⟨by rfl, .found filename (leftMeta modelId filename) (resumable_leftWorld hscanned hthere) (by
      intro other metadata hresumed
      rw [eq_of_resumable hresumed]
      exact Or.inr ⟨rfl, String.le_refl _⟩)⟩
  let job := registry.resumeJob ⟨modelId, none, none, 0⟩ filename (leftMeta modelId filename)
  have hfits : job.Fits registry modelId filename := ⟨rfl, rfl⟩
  have hfiles : (leftWorld dirs modelId filename).files filename =
      ⟨some [1], some (leftMeta modelId filename), none⟩ := by simp [leftWorld]
  have hplan : job.target.proceed job.call ((leftWorld dirs modelId filename).files filename)
      .planning = some ((leftWorld dirs modelId filename).files filename,
        .describing 1 (some (leftMeta modelId filename))) := by
    rw [hfiles]
    rfl
  obtain ⟨late, world', described, -, hmeta, hdirs, hsent, -⟩ :=
    @exists_described registry.cwd job ((leftWorld dirs modelId filename).addDirs
      (registry.missingDirs (leftWorld dirs modelId filename) modelId)) _ _ hplan
  obtain ⟨-, ⟨name, hname⟩, -⟩ := Job.sibling_place hfits.destDir_ne registry.cwd
  rw [hname, hfits.folderPlace] at hmeta
  have hmodel : registry.modelPasses modelId ⊆ ((leftWorld dirs modelId filename).addDirs
      (registry.missingDirs (leftWorld dirs modelId filename) modelId)).dirs :=
    passes_subset_append_missing _ _ _
  refine ⟨_, job, _, world', hfits, rfl, rfl, found.append (resume_run described),
    ⟨name, hmeta.right⟩, ?_, hsent⟩
  intro place hplace
  rw [hdirs] at hplace
  rcases List.mem_append.mp hplace with hbefore | hmissing
  · exact (List.mem_append.mp hbefore).imp_right fun hnew => (mem_missing_iff.mp hnew).1
  · obtain ⟨hpassed, hnew⟩ := mem_missing_iff.mp hmissing
    rcases hfits.mem_passes hpassed with hmodelPassed | hfilePassed
    · exact Or.inr hmodelPassed
    · exact absurd (filePasses_subset_of_scanned hscanned hmodel hthere hfilePassed) hnew

/-- Some install of the model with such a file comes to saving the index. -/
theorem exists_save (registry : ModelRegistry) (modelId : String)
    (hname : isGguf filename = true ∨ Scanned filename)
    (hfree : ¬ registry.Blocked modelId filename) :
    ∃ events, InstallRun registry modelId filename events ∧
      ∀ place ∈ registry.indexPlaces, Touches events place := by
  rcases hname with hgguf | hscanned
  · have hdirs : registry.finalPlace modelId filename ∉ registry.root.inits := fun hthere =>
      hfree (Or.inr (Or.inr (Or.inr ((List.mem_inits _ _).mp hthere))))
    obtain ⟨early, repoId, job, rest, world, fetching, -, -⟩ :=
      exists_fetching registry modelId hgguf hdirs hfree
    obtain ⟨late, world', recording⟩ :=
      exists_recording registry (namedInstall modelId filename) filename job _ rest world
    have recorded := (fetching.append recording).snoc ⟨by trivial, .record⟩
    refine ⟨_, ⟨_, _, _, rfl, fun place habove => (List.mem_inits _ _).mpr habove, recorded⟩, ?_⟩
    exact fun place hplace => Touches.right ⟨_, List.mem_singleton_self _, hplace⟩
  · obtain ⟨early, job, metadata, world, hfits, hsha, hunknown, requested, -, hmade, hsent⟩ :=
      @exists_resumed filename registry modelId hscanned
        (registry.root.inits ++ (registry.folderPlace modelId filename).inits)
        fun place hbelow => List.mem_append_right _ ((List.mem_inits _ _).mpr hbelow)
    have hnew : leadsTo registry.cwd job.finalPath ∉ world.dirs := by
      rw [hfits.finalPlace]
      intro hthere
      rcases hmade _ hthere with hbefore | hmodel
      · rcases List.mem_append.mp hbefore with habove | hbelow
        · exact hfree (Or.inr (Or.inr (Or.inr ((List.mem_inits _ _).mp habove))))
        · exact hfree (Or.inr (Or.inr (Or.inl ((List.mem_inits _ _).mp hbelow))))
      · exact hfree (Or.inl hmodel)
    obtain ⟨late, world', path, completed, -, -⟩ :=
      exists_completed hnew hsha hsent hunknown 1 job.call.streamRetries
    have resumed := (requested.append (resume_run completed)).snoc ⟨by trivial, .resumed⟩
    have adopted := resumed.snoc ⟨by trivial, .adopt⟩
    refine ⟨_, ⟨_, _, _, rfl, ?_, adopted⟩, ?_⟩
    · exact fun place habove => List.mem_append_left _ ((List.mem_inits _ _).mpr habove)
    · exact fun place hplace => Touches.right ⟨_, List.mem_singleton_self _, hplace⟩

/-- **An install that always stays inside** has a model id and a file name that do. -/
theorem contained_of_installInside {modelId : String}
    (hinside : InstallInside registry modelId filename) :
    registry.Contained modelId filename := by
  have hready : registry.Ready (freshWorld registry.root.inits) :=
    fun place habove => (List.mem_inits _ _).mpr habove
  have hunder {events : List InstallEvent} {last : World × InstallPhase}
      (run : Run (Guarded (Names filename) (InstallStep registry (namedInstall modelId filename)))
        (freshWorld registry.root.inits, .checking) events last) {place : Location}
      (htouched : Touches events place) : Under registry.root place := by
    obtain ⟨event, hevent, hplace⟩ := htouched
    exact hinside events ⟨_, _, last, rfl, hready, run⟩ event hevent place hplace
  refine ⟨?_, ?_, ?_, ?_, ?_⟩
  · intro place hpassed
    obtain ⟨events, prepared, hcreated⟩ :=
      exists_prepared registry modelId filename registry.root.inits
    by_cases hthere : place ∈ registry.root.inits
    · exact Or.inl ((List.mem_inits _ _).mp hthere)
    · exact Or.inr (hunder prepared (hcreated place (mem_missing_iff.mpr ⟨hpassed, hthere⟩)))
  · intro hgguf place hpassed
    obtain ⟨events, _, _, _, -, -, requested, -, hcreated, -⟩ :=
      exists_requested registry modelId hgguf registry.root.inits
    rcases hcreated place hpassed with hthere | htouched
    · exact Or.inl ((List.mem_inits _ _).mp hthere)
    · exact Or.inr (hunder requested htouched)
  · rintro (hgguf | hscanned)
    · obtain ⟨events, _, _, _, -, -, requested, -, -, ⟨name, hmeta⟩, -⟩ :=
        exists_requested registry modelId hgguf registry.root.inits
      exact under_concat_iff.mp (hunder requested hmeta)
    · obtain ⟨events, _, _, _, -, -, -, requested, ⟨name, event, hevent, hplace⟩, -⟩ :=
        @exists_resumed filename registry modelId hscanned
          (registry.root.inits ++ (registry.folderPlace modelId filename).inits)
          fun place hbelow => List.mem_append_right _ ((List.mem_inits _ _).mpr hbelow)
      refine under_concat_iff.mp
        (hinside events ⟨_, _, _, rfl, ?_, requested⟩ event hevent _ hplace)
      exact fun place habove => List.mem_append_left _ ((List.mem_inits _ _).mpr habove)
  · intro hgguf hfree
    have hdirs : registry.finalPlace modelId filename ∉ registry.root.inits := fun hthere =>
      hfree (Or.inr (Or.inr (Or.inr ((List.mem_inits _ _).mp hthere))))
    obtain ⟨early, repoId, job, rest, world, fetching, -, habsent⟩ :=
      exists_fetching registry modelId hgguf hdirs hfree
    have hfits : (registry.tokenizerJob (namedInstall modelId filename) repoId).Fits registry
        modelId "tokenizer.json" := ⟨rfl, rfl⟩
    have hplan : (registry.tokenizerJob (namedInstall modelId filename) repoId).target.proceed
        (registry.tokenizerJob (namedInstall modelId filename) repoId).call
        (world.files "tokenizer.json") .planning =
          some (world.files "tokenizer.json", .describing 0 none) := by
      rw [habsent]
      rfl
    obtain ⟨late, world', described, -, hmeta, -⟩ := @exists_described registry.cwd _ _ _ _ hplan
    obtain ⟨-, ⟨name, hplace⟩, -⟩ := Job.sibling_place hfits.destDir_ne registry.cwd
    rw [hplace, hfits.folderPlace, ModelRegistry.folderPlace, registry.stem_tokenizer] at hmeta
    exact under_concat_iff.mp (hunder (fetching.append (fetch_run described _ _)) hmeta.right)
  · intro hname hfree place hplace
    obtain ⟨events, hrun, htouched⟩ := exists_save registry modelId hname hfree
    obtain ⟨event, hevent, hsaved⟩ := htouched place hplace
    exact hinside events hrun event hevent place hsaved

end

end HiveBear.Registry
