/-
# What an install touches

What an install creates, overwrites or deletes lies strictly under the directory of the models
if the model id and the name of the file, read as paths, stay there. Along an install the
directories that its paths pass exist before anything is put into them, which is what the
invariant says; so no directory is created that does not lie inside.

The directory of the models exists. Whatever else exists, and whatever the requests of an
install bring, is left open. The index is a file of the registry whose place does not depend
on the model.
-/

import HiveBear.Registry.Places

namespace HiveBear.Registry

open LabelledRun Paths

/-! ## What is claimed, and the condition -/

namespace ModelRegistry

variable (registry : ModelRegistry) (modelId filename : String)

/-- The file of the index lies strictly under the directory of the models. -/
def IndexInside : Prop := ∀ place ∈ registry.indexPlaces, Under registry.root place

/-- The model id and the file name stay inside: every directory that is created for them is
under the directory of the models, and so is every file. A file that is downloaded has the
name of a GGUF file; one that is resumed has a name that a scan finds. Once the file is in
place, a tokenizer is put into the directory of the model, and the index is saved. -/
structure Contained : Prop where
  directory : ∀ place ∈ registry.modelPasses modelId, OnTheWay registry.root place
  file : isGguf filename = true →
    ∀ place ∈ registry.filePasses modelId filename, OnTheWay registry.root place
  folder : isGguf filename = true ∨ Scanned filename →
    registry.root <+: registry.folderPlace modelId filename
  tokenizer : isGguf filename = true → ¬ registry.Blocked modelId filename →
    registry.root <+: registry.modelPlace modelId
  index : isGguf filename = true ∨ Scanned filename → ¬ registry.Blocked modelId filename →
    registry.IndexInside

/-- The directory of the models exists. -/
def Ready (world : World) : Prop := ∀ place, place <+: registry.root → place ∈ world.dirs

end ModelRegistry

/-- The file that is resumed or downloaded has this name. -/
def Names (filename : String) (_ : World × InstallPhase) (event : InstallEvent) : Prop :=
  match event.kind with
  | .found name | .chosen name => name = filename
  | _ => True

/-- An install of the model, with a file of this name. -/
def InstallRun (registry : ModelRegistry) (modelId filename : String)
    (events : List InstallEvent) : Prop :=
  ∃ call world last, call.modelId = modelId ∧ registry.Ready world ∧
    Run (Guarded (Names filename) (InstallStep registry call)) (world, .checking) events last

/-- **Installing stays inside.** Whatever exists besides the directory of the models, and
whatever comes of the requests, everything that an install creates, overwrites or deletes
lies strictly under it. -/
def InstallInside (registry : ModelRegistry) (modelId filename : String) : Prop :=
  ∀ events, InstallRun registry modelId filename events →
    ∀ event ∈ events, ∀ place ∈ event.touched, Under registry.root place

/-! ## The invariant -/

/-- The directory of a download has been created, and nothing has failed. -/
def TransferPhase.Started : TransferPhase → Prop
  | .mkdir | .running (.returned (.error _)) => False
  | _ => True

/-- The file of a download has been put into its place. -/
def TransferPhase.Placed : TransferPhase → Prop
  | .running .tidying | .running (.returned (.ok _)) => True
  | _ => False

/-- What holds of a phase in an install of the model, with a file of this name. -/
def PhaseFits (registry : ModelRegistry) (modelId filename : String) (world : World) :
    InstallPhase → Prop
  | .checking | .preparing | .returned _ => True
  | .resuming job phase =>
      registry.modelPasses modelId ⊆ world.dirs ∧ job.Fits registry modelId filename ∧
        Scanned filename ∧ world.hasFolder (registry.modelPlace modelId) filename ∧
          (phase.Placed → ¬ registry.Blocked modelId filename)
  | .adopting _ =>
      registry.modelPasses modelId ⊆ world.dirs ∧ Scanned filename ∧
        ¬ registry.Blocked modelId filename
  | .downloading _ job phase =>
      registry.modelPasses modelId ⊆ world.dirs ∧ job.Fits registry modelId filename ∧
        isGguf filename = true ∧
          (phase.Started → registry.filePasses modelId filename ⊆ world.dirs) ∧
          (phase.Placed → ¬ registry.Blocked modelId filename)
  | .measuring .. | .equipping .. | .askingBase .. | .awaitingBase .. | .recording _ =>
      registry.modelPasses modelId ⊆ world.dirs ∧ isGguf filename = true ∧
        ¬ registry.Blocked modelId filename
  | .fetching _ current rest _ =>
      registry.modelPasses modelId ⊆ world.dirs ∧ isGguf filename = true ∧
        ¬ registry.Blocked modelId filename ∧
          ∀ job ∈ current :: rest, job.Fits registry modelId "tokenizer.json"
  | .looking | .resolving | .searching | .listing _ | .awaitingFiles _ =>
      registry.modelPasses modelId ⊆ world.dirs

/-- Further directories change nothing. -/
theorem PhaseFits.mono {registry : ModelRegistry} {modelId filename : String}
    {world world' : World} (hdirs : world.dirs ⊆ world'.dirs) {phase : InstallPhase}
    (h : PhaseFits registry modelId filename world phase) :
    PhaseFits registry modelId filename world' phase := by
  cases phase with
  | checking | preparing | returned => trivial
  | resuming job phase =>
      exact ⟨List.Subset.trans h.1 hdirs, h.2.1, h.2.2.1,
        fun place hplace => hdirs (h.2.2.2.1 place hplace), h.2.2.2.2⟩
  | downloading repoId job phase =>
      exact ⟨List.Subset.trans h.1 hdirs, h.2.1, h.2.2.1,
        fun hstarted => List.Subset.trans (h.2.2.2.1 hstarted) hdirs, h.2.2.2.2⟩
  | adopting | measuring | equipping | askingBase | awaitingBase | fetching | recording =>
      exact ⟨List.Subset.trans h.1 hdirs, h.2⟩
  | looking | resolving | searching | listing | awaitingFiles => exact List.Subset.trans h hdirs

/-- What holds in an install. -/
def StateFits (registry : ModelRegistry) (modelId filename : String) :
    World × InstallPhase → Prop
  | (world, phase) => registry.Ready world ∧ PhaseFits registry modelId filename world phase

/-! ## Steps of a download -/

/-- Only a file that is moved, or has been, is in its place. -/
theorem placed_of_proceed {target : Target} {call : DownloadCall} {disk disk' : Disk}
    {phase phase' : DownloadPhase}
    (proceeds : target.proceed call disk phase = some (disk', phase'))
    (h : (TransferPhase.running phase').Placed) :
    phase = .moving ∨ (TransferPhase.running phase).Placed := by
  cases phase with
  | moving => exact Or.inl rfl
  | tidying => exact Or.inr trivial
  | planning | interrupted | promoting =>
      rw [Target.proceed] at proceeds
      split at proceeds <;> cases proceeds <;> exact absurd h not_false
  | verifying =>
      rw [Target.proceed] at proceeds
      split at proceeds
      · cases proceeds
        exact absurd h not_false
      · cases proceeds
      · dsimp only at proceeds
        split at proceeds <;> cases proceeds <;> exact absurd h not_false
  | responding bytesDownloaded retriesLeft metadata response =>
      obtain ⟨_, _, _, _, hopening⟩ :=
        proceed_responding target call disk bytesDownloaded retriesLeft metadata response
      rw [hopening] at proceeds
      cases proceeds
      exact absurd h not_false
  | discarding | describing | opening | retrying | cleaning | unlinking =>
      cases proceeds
      exact absurd h not_false
  | requesting | restarting | streaming | returned => cases proceeds

variable {cwd : Location} {job : Job} {world world' : World} {phase phase' : TransferPhase}
  {event : InstallEvent}

/-- A file is put into its place only if that is no directory. -/
theorem placed_transferStep (step : TransferStep cwd job (world, phase) event (world', phase'))
    (h : phase'.Placed) :
    phase.Placed ∨ phase.Started ∧ leadsTo cwd job.finalPath ∉ world.dirs := by
  cases step with
  | proceed proceeds free =>
      rcases placed_of_proceed proceeds h with rfl | hplaced
      · exact Or.inr ⟨trivial, free rfl⟩
      · exact Or.inl hplaced
  | goOn proceeds goesOn =>
      rcases placed_of_proceed proceeds h with rfl | hplaced
      · cases goesOn
      · exact Or.inl hplaced
  | @fail _ before _ message fails =>
      cases before with
      | opening | moving =>
          cases fails
          exact absurd h not_false
      | verifying =>
          rw [Job.failed] at fails
          split at fails <;> cases fails
          exact absurd h not_false
      | _ => cases fails
  | @answer _ disk phase' asked retries result outcome decided after =>
      cases asked <;> cases result <;> rw [Asked.after] at after <;> try split_ifs at after
      all_goals
        cases after
        exact absurd h not_false
  | @streamEnd _ bytesDownloaded retriesLeft metadata totalBytes body =>
      rw [afterStream] at h
      split at h <;> exact absurd h not_false
  | _ => exact absurd h not_false

/-- The directory of a download is there once it has started. -/
theorem started_transferStep (step : TransferStep cwd job (world, phase) event (world', phase'))
    (h : phase'.Started) : phase.Started ∨ passes cwd job.parentDir ⊆ world'.dirs := by
  cases step with
  | mkdir =>
      exact Or.inr (passes_subset_append_missing _ _ _)
  | mkdirFails => exact absurd h not_false
  | @proceed _ disk phase phase' proceeds free =>
      left
      cases phase with
      | returned => cases proceeds
      | _ => trivial
  | @goOn _ disk phase phase' proceeds goesOn =>
      left
      cases phase with
      | returned => cases proceeds
      | _ => trivial
  | @fail _ phase _ message fails =>
      left
      cases phase with
      | returned => cases fails
      | _ => trivial
  | _ => exact Or.inl trivial

/-! ## Steps of an install -/

section

variable {registry : ModelRegistry} {call : InstallCall} {filename : String} {world world' : World}
  {phase phase' : InstallPhase} {event : InstallEvent}

/-- An install creates directories and removes none. -/
theorem dirs_installStep (step : InstallStep registry call (world, phase) event (world', phase')) :
    world.dirs ⊆ world'.dirs := by
  cases step with
  | cancel key =>
      rw [World.cancelDownload]
      split <;> exact List.Subset.refl _
  | prepare | prepareFails => exact List.subset_append_left _ _
  | resume step | download step | fetch step => exact Job.dirs_transferStep _ step
  | _ => exact List.Subset.refl _

/-- A place that is no directory is not on the way of directories. -/
theorem not_blocked {modelId : String} (hready : registry.Ready world)
    (hmodel : registry.modelPasses modelId ⊆ world.dirs)
    (hfile : registry.filePasses modelId filename ⊆ world.dirs)
    (hfolder : registry.finalPlace modelId filename <+: registry.folderPlace modelId filename →
      registry.finalPlace modelId filename ∈ world.dirs)
    (hfree : registry.finalPlace modelId filename ∉ world.dirs) :
    ¬ registry.Blocked modelId filename := by
  rintro (hpassed | hpassed | hbelow | habove)
  · exact hfree (hmodel hpassed)
  · exact hfree (hfile hpassed)
  · exact hfree (hfolder hbelow)
  · exact hfree (hready _ habove)

/-- The directories of an interrupted file that has been found. -/
theorem mem_dirs_of_below {modelId : String}
    (hfolder : world.hasFolder (registry.modelPlace modelId) filename) {place : Location}
    (hbelow : place <+: registry.folderPlace modelId filename) : place ∈ world.dirs := by
  rw [registry.folderPlace_eq] at hbelow
  exact hfolder place ((List.mem_inits _ _).mpr hbelow)

theorem filePasses_subset_of_scanned {modelId : String} (hscanned : Scanned filename)
    (hmodel : registry.modelPasses modelId ⊆ world.dirs)
    (hfolder : world.hasFolder (registry.modelPlace modelId) filename) :
    registry.filePasses modelId filename ⊆ world.dirs := by
  intro place hplace
  rcases ModelRegistry.filePasses_of_scanned hscanned hplace with hpassed | hbelow
  · exact hmodel hpassed
  · exact mem_dirs_of_below hfolder hbelow

/-- A step of a resumed download. -/
theorem phaseFits_resuming (hready : registry.Ready world) {modelId : String} {job : Job}
    {phase phase' : TransferPhase}
    (h : PhaseFits registry modelId filename world (.resuming job phase))
    (step : TransferStep registry.cwd job (world, phase) event (world', phase')) :
    PhaseFits registry modelId filename world' (.resuming job phase') := by
  have hdirs := Job.dirs_transferStep _ step
  obtain ⟨hmade, hjob, hscanned, hfolder, hplaced⟩ := h
  refine ⟨List.Subset.trans hmade hdirs, hjob, hscanned,
    fun place hplace => hdirs (hfolder place hplace), ?_⟩
  intro hnext
  rcases placed_transferStep step hnext with hbefore | ⟨-, hfree⟩
  · exact hplaced hbefore
  · rw [hjob.finalPlace] at hfree
    exact not_blocked hready hmade (filePasses_subset_of_scanned hscanned hmade hfolder)
      (mem_dirs_of_below hfolder) hfree

/-- A step of a download that was chosen: its directories are made where it starts. -/
theorem phaseFits_downloading (hready : registry.Ready world) {modelId repoId : String} {job : Job}
    {phase phase' : TransferPhase}
    (h : PhaseFits registry modelId filename world (.downloading repoId job phase))
    (step : TransferStep registry.cwd job (world, phase) event (world', phase')) :
    PhaseFits registry modelId filename world' (.downloading repoId job phase') := by
  have hdirs := Job.dirs_transferStep _ step
  obtain ⟨hmade, hjob, hgguf, hstarted, hplaced⟩ := h
  refine ⟨List.Subset.trans hmade hdirs, hjob, hgguf, ?_, ?_⟩
  · intro hnext
    rcases started_transferStep step hnext with hbefore | hpasses
    · exact List.Subset.trans (hstarted hbefore) hdirs
    · rwa [hjob.parentDir (suffixed_of_isGguf hgguf)] at hpasses
  · intro hnext
    rcases placed_transferStep step hnext with hbefore | ⟨hbefore, hfree⟩
    · exact hplaced hbefore
    · rw [hjob.finalPlace] at hfree
      obtain ⟨name, hname⟩ := registry.finalPlace_of_suffixed modelId (suffixed_of_isGguf hgguf)
      refine not_blocked hready hmade (hstarted hbefore) ?_ hfree
      rw [hname]
      exact fun hbelow => absurd hbelow (not_prefix_of_concat _ _)

/-- What holds of a phase holds of the next one. -/
theorem phaseFits_installStep (hready : registry.Ready world)
    (h : PhaseFits registry call.modelId filename world phase)
    (named : Names filename (world, phase) event)
    (step : InstallStep registry call (world, phase) event (world', phase')) :
    PhaseFits registry call.modelId filename world' phase' := by
  have hdirs := dirs_installStep step
  cases step with
  | cancel key => exact h.mono hdirs
  | alreadyInstalled | check | prepareFails => trivial
  | prepare =>
      rw [afterPreparing]
      split <;> exact passes_subset_append_missing _ _ _
  | found relative metadata resumable first =>
      obtain rfl : relative = filename := named
      exact ⟨h, ⟨rfl, rfl⟩, resumable.1.1, resumable.1.2.2, False.elim⟩
  | resume step => exact phaseFits_resuming hready h step
  | resumed => exact ⟨h.1, h.2.2.1, h.2.2.2.2 trivial⟩
  | notResumed => exact h.1
  | choose siblings partials sorted scanned chosen =>
      obtain rfl : _ = filename := named
      have hgguf := isGguf_of_mem_listFiles (registry.mem_of_chooseFile chosen)
      exact ⟨h, ⟨rfl, rfl⟩, hgguf, False.elim, False.elim⟩
  | download step => exact phaseFits_downloading hready h step
  | downloaded => exact ⟨h.1, h.2.2.1, h.2.2.2.2 trivial⟩
  | equipped | measure | equip | askBase => exact h
  | based base =>
      refine ⟨h.1, h.2.1, h.2.2, ?_⟩
      intro job hjob
      rcases List.mem_cons.mp hjob with rfl | hother
      · exact ⟨rfl, rfl⟩
      · obtain ⟨repo, -, rfl⟩ := List.mem_map.mp hother
        exact ⟨rfl, rfl⟩
  | @fetch _ _ job current rest phase phase' event step =>
      exact @PhaseFits.mono registry call.modelId filename _ _ hdirs
        (.fetching job current rest phase') h
  | fetchNext =>
      exact ⟨h.1, h.2.1, h.2.2.1, fun job hjob => h.2.2.2 job (List.mem_cons_of_mem _ hjob)⟩
  | fetched | fetchedNone => exact ⟨h.1, h.2.1, h.2.2.1⟩
  | nothingFound | isRepo | known | search | searched | list => exact h
  | notMeasured | notAdopted => exact h.1
  | adopt | searchFails | notFound | listFails | noFiles | notChosen | notDownloaded
  | measureFails | record | notRecorded => trivial

/-- A directory that is created on the way is under the directory of the models. -/
theorem under_of_notMem (hready : registry.Ready world) {place : Location}
    (hway : OnTheWay registry.root place) (hnew : place ∉ world.dirs) :
    Under registry.root place :=
  hway.resolve_left fun habove => hnew (hready place habove)

/-- **Every step stays inside.** -/
theorem under_of_installStep (hcontained : registry.Contained call.modelId filename)
    (hready : registry.Ready world) (h : PhaseFits registry call.modelId filename world phase)
    (step : InstallStep registry call (world, phase) event (world', phase'))
    {place : Location} (hplace : place ∈ event.touched) : Under registry.root place := by
  cases step with
  | prepare =>
      obtain ⟨hpassed, hnew⟩ := mem_missing_iff.mp hplace
      exact under_of_notMem hready (hcontained.directory place hpassed) hnew
  | prepareFails made message =>
      obtain ⟨hpassed, hnew⟩ := mem_missing_iff.mp (List.mem_of_mem_take hplace)
      exact under_of_notMem hready (hcontained.directory place hpassed) hnew
  | resume step =>
      obtain ⟨hmade, hjob, hscanned, hfolder, -⟩ := h
      refine hjob.under (hcontained.folder (Or.inr hscanned)) step ?_ ?_ hplace
      · intro place hpassed hnew
        rcases hjob.mem_passes hpassed with hmodel | hfile
        · exact absurd (hmade hmodel) hnew
        · exact absurd (filePasses_subset_of_scanned hscanned hmade hfolder hfile) hnew
      · intro hfree
        refine (registry.finalPlace_of_scanned call.modelId filename).resolve_right fun hbelow => ?_
        exact hfree (mem_dirs_of_below hfolder hbelow)
  | download step =>
      obtain ⟨hmade, hjob, hgguf, -, -⟩ := h
      have hname := suffixed_of_isGguf hgguf
      refine hjob.under (hcontained.folder (Or.inl hgguf)) step ?_
        (fun _ => registry.finalPlace_of_suffixed call.modelId hname) hplace
      intro place hpassed hnew
      rw [hjob.parentDir hname] at hpassed
      exact under_of_notMem hready (hcontained.file hgguf place hpassed) hnew
  | fetch step =>
      obtain ⟨hmade, hgguf, hblocked, hjobs⟩ := h
      have hjob := hjobs _ List.mem_cons_self
      have hinside : registry.root <+: registry.folderPlace call.modelId "tokenizer.json" := by
        rw [ModelRegistry.folderPlace, registry.stem_tokenizer]
        exact hcontained.tokenizer hgguf hblocked
      refine hjob.under hinside step ?_
        (fun _ => registry.finalPlace_of_suffixed call.modelId suffixed_tokenizer) hplace
      intro place hpassed hnew
      rw [hjob.parentDir suffixed_tokenizer, registry.stem_tokenizer] at hpassed
      exact absurd (hmade hpassed) hnew
  | adopt | notAdopted => exact hcontained.index (Or.inr h.2.1) h.2.2 place hplace
  | record | notRecorded => exact hcontained.index (Or.inl h.2.1) h.2.2 place hplace
  | _ => cases hplace

/-- What holds in an install holds in every state of a run. -/
theorem stateFits_of_run (hready : registry.Ready world) {events : List InstallEvent}
    {last : World × InstallPhase}
    (run : Run (Guarded (Names filename) (InstallStep registry call)) (world, .checking) events
      last) : StateFits registry call.modelId filename last :=
  @Run.invariant _ _ _ (StateFits registry call.modelId filename)
    (fun h step => ⟨fun place habove => dirs_installStep step.2 (h.1 place habove),
      phaseFits_installStep h.1 h.2 step.1 step.2⟩) _ _ _ run ⟨hready, trivial⟩

/-- **Every install stays inside**, with a model id and a file name that do. -/
theorem under_of_run (hcontained : registry.Contained call.modelId filename)
    (hready : registry.Ready world) {events : List InstallEvent} {last : World × InstallPhase}
    (run : Run (Guarded (Names filename) (InstallStep registry call)) (world, .checking) events
      last) :
    ∀ event ∈ events, ∀ place ∈ event.touched, Under registry.root place :=
  (@Run.always _ _ _ (StateFits registry call.modelId filename)
    (fun event => ∀ place ∈ event.touched, Under registry.root place)
    (fun h step => ⟨⟨fun place habove => dirs_installStep step.2 (h.1 place habove),
        phaseFits_installStep h.1 h.2 step.1 step.2⟩,
      fun _ => under_of_installStep hcontained h.1 h.2 step.2⟩)
    _ _ _ run ⟨hready, trivial⟩).2

end

end HiveBear.Registry
