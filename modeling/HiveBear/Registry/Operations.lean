/-
# The registry as a whole

Models are installed, imported and removed in any order, and the index is reconciled with the
disk in between. Each operation takes the state that the one before has left, whether it has
succeeded or failed.

An install leaves the directories of its run, changes no file that it does not touch, and records
the model in an entry of its own. What the run of an install makes of the index is the directory
of the model, with the name of a file that it has chosen or found.
-/

import HiveBear.Registry.Containment
import HiveBear.Registry.Ollama

namespace HiveBear.Registry

open LabelledRun Paths

/-! ## The operations -/

inductive RegistryOperation (F : Type)
  /-- An install, with what happens in it. -/
  | install (call : InstallCall) (events : List InstallEvent)
  | reconcile
  | importOllama (source : OllamaSource F) (modelId : String)
  | remove (modelId : String)

/-- A path leads to a file. -/
def RegistryState.isFile (state : RegistryState) (cwd : Location) (path : Text) : Bool :=
  !path.isEmpty && state.files.contains (leadsTo cwd path) &&
    (passes cwd (components path).dropLast).all state.dirs.contains

section

variable (registry : ModelRegistry)

/-- A disk is that of a state: its tree shows every file below the directory of the models, with
the directories on the way there. -/
structure Shows (state : RegistryState) (disk : ModelDisk) : Prop where
  dirs : ∀ names, (names, .dir) ∈ disk.tree.entries → registry.root ++ names ∈ state.dirs
  files : ∀ names, names ≠ [] →
    ((∃ size, (names, .file size) ∈ disk.tree.entries) ↔ registry.root ++ names ∈ state.files)
  elsewhere : disk.elsewhere = state.isFile registry.cwd

/-- One operation. -/
inductive RegistryStep {F : Type} :
    RegistryState → RegistryOperation F → RegistryState → Prop
  | install {before after : RegistryState} {call : InstallCall} {events : List InstallEvent}
      {world last : World} {result : Except RegistryError InstalledInfo}
      (begun : world.dirs = before.dirs ∧
        world.index call.modelId = ModelRegistry.installedOf before.index call.modelId)
      (run : Run (InstallStep registry call) (world, .checking) events (last, .returned result))
      (dirs : after.dirs = last.dirs)
      (files : ∀ place, ¬ Touches events place → (place ∈ after.files ↔ place ∈ before.files))
      (recorded : last.index call.modelId = ModelRegistry.installedOf after.index call.modelId)
      (index : after.index = before.index ∨ ∃ entry : IndexEntry,
        entry.id = call.modelId ∧ after.index = IndexEntry.upsert before.index entry) :
      RegistryStep before (.install call events) after
  | reconcile {before : RegistryState} {disk : ModelDisk} (shows : Shows registry before disk) :
      RegistryStep before .reconcile
        { before with index := (registry.reconcile disk before.index).index }
  | importOllama {before : RegistryState} (source : OllamaSource F) (modelId : String)
      (saving : Except RegistryError Unit) :
      RegistryStep before (.importOllama source modelId)
        (registry.importOllama source modelId saving before).1
  | remove {before after : RegistryState} {modelId : String} {events : List InstallEvent}
      {result : Except RegistryError ℕ}
      (run : Run (RemoveStep registry modelId) (before.store, .finding) events
        (after.store, .returned result))
      (entries : after.index.Sublist before.index) :
      RegistryStep before (.remove modelId) after

end

/-! ## What an install records -/

/-- The names that an install chooses or finds have a property. -/
def NamesAll (P : String → Prop) (event : InstallEvent) : Prop :=
  match event.kind with
  | .found name | .chosen name => P name
  | _ => True

/-- So has the file that it is about. -/
def InstallPhase.IsAbout (P : String → Prop) : InstallPhase → Prop
  | .resuming job _ | .adopting job | .downloading _ job _ | .measuring _ job | .equipping _ job
  | .askingBase _ job | .awaitingBase _ job | .fetching job _ _ _ | .recording job =>
      P job.target.filename
  | _ => True

section

variable {registry : ModelRegistry} {call : InstallCall} {P : String → Prop}
  {Q : InstalledInfo → Prop} {world world' : World} {phase phase' : InstallPhase}
  {event : InstallEvent}

/-- What the index knows of the model is as it was, or the directory of the model with a file of
a name with the property. -/
def RecordedAs (registry : ModelRegistry) (modelId : String) (P : String → Prop)
    (Q : InstalledInfo → Prop) : World × InstallPhase → Prop
  | (world, phase) =>
      phase.IsAbout P ∧ ∀ info, world.index modelId = some info →
        Q info ∨ info.path = registry.modelDir modelId ∧ P info.filename

theorem recordedAs_installStep (h : RecordedAs registry call.modelId P Q (world, phase))
    (named : NamesAll P event)
    (step : InstallStep registry call (world, phase) event (world', phase')) :
    RecordedAs registry call.modelId P Q (world', phase') := by
  obtain ⟨habout, hindex⟩ := h
  have hnew (job : Job) (hjob : P job.target.filename) (info : InstalledInfo)
      (hinfo : (world.setInstalled call.modelId (registry.installedInfo call world job)).index
        call.modelId = some info) :
      Q info ∨ info.path = registry.modelDir call.modelId ∧ P info.filename := by
    have hsame : registry.installedInfo call world job = info := by
      simpa [World.setInstalled] using hinfo
    rw [← hsame]
    exact Or.inr ⟨rfl, hjob⟩
  cases step with
  | cancel key =>
      refine ⟨habout, ?_⟩
      rw [World.cancelDownload]
      split <;> exact hindex
  | prepare =>
      refine ⟨?_, hindex⟩
      rw [afterPreparing]
      split <;> trivial
  | adopt | notAdopted | record | notRecorded => exact ⟨trivial, hnew _ habout⟩
  | resume step | download step | fetch step =>
      refine ⟨habout, ?_⟩
      rw [Job.index_transferStep _ step]
      exact hindex
  | found | choose => exact ⟨named, hindex⟩
  | downloaded | measure | equipped | equip | askBase | based | fetched | fetchNext | fetchedNone
  | resumed => exact ⟨habout, hindex⟩
  | _ => exact ⟨trivial, hindex⟩

/-- **What the index knows of the model after an install** is as it was, or the directory of the
model with a file that has been chosen or found. -/
theorem recordedAs_of_run {events : List InstallEvent} {last : World × InstallPhase}
    (run : Run (InstallStep registry call) (world, .checking) events last)
    (hnamed : ∀ event ∈ events, NamesAll P event)
    (hbefore : ∀ info, world.index call.modelId = some info → Q info) :
    RecordedAs registry call.modelId P Q last :=
  @Run.invariant _ _ _ (RecordedAs registry call.modelId P Q)
    (fun h step => recordedAs_installStep h step.1 step.2) _ _ _ (run.guarded hnamed)
    ⟨trivial, fun info hinfo => Or.inl (hbefore info hinfo)⟩

end

end HiveBear.Registry
