/-
# Removing a model

Removing a model deletes the directory that the index has recorded for it, with everything
below it, and then forgets the model. Nothing is asked of where that directory is. What is
recorded may also be a plain file, like a blob of Ollama: that is not deleted, and the model
is not forgotten.

The index is locked from the beginning to the end, so that nothing else happens to it.
-/

import HiveBear.Registry.Install

namespace HiveBear.Registry

open LabelledRun Paths

/-! ## The index -/

/-- What the index knows of a model. -/
structure ModelMetadata where
  id : String
  installed : Option InstalledInfo

abbrev LocalIndex := List ModelMetadata

namespace LocalIndex

/-- The first entry of a model. -/
def find (index : LocalIndex) (modelId : String) : Option ModelMetadata :=
  List.find? (fun metadata => metadata.id = modelId) index

/-- The index without the entries of a model. -/
def remove (index : LocalIndex) (modelId : String) : LocalIndex :=
  List.filter (fun metadata => metadata.id ≠ modelId) index

/-- A model that is removed is not found. -/
theorem find_remove_self (index : LocalIndex) (modelId : String) :
    (index.remove modelId).find modelId = none := by
  rw [find, List.find?_eq_none]
  intro metadata hmetadata
  have hother := (List.mem_filter.mp hmetadata).2
  simpa using hother

/-- Other models are found as before. -/
theorem find_remove_of_ne (index : LocalIndex) {modelId other : String} (h : other ≠ modelId) :
    (index.remove modelId).find other = index.find other := by
  induction index with
  | nil => rfl
  | cons metadata index ih =>
      rw [remove, find] at ih
      by_cases hid : metadata.id = modelId
      · have hne : metadata.id ≠ other := fun hsame => h (hsame.symm.trans hid)
        simpa [remove, find, hid, hne, h.symm] using ih
      · by_cases hsame : metadata.id = other
        · simp [remove, find, hsame, h]
        · simpa [remove, find, hid, hsame] using ih

end LocalIndex

/-! ## What is on disk -/

/-- What removing a model works on. -/
structure Store where
  index : LocalIndex
  dirs : List Location
  files : List Location

namespace Store

variable (store : Store) (cwd : Location) (path : Text)

/-- A path that only passes directories, and leads to one. -/
def isDir : Prop :=
  path ≠ [] ∧ leadsTo cwd path ∈ store.dirs ∧
    ∀ place ∈ passes cwd (components path), place ∈ store.dirs

/-- A path that leads to a directory or a file. -/
def pathExists : Prop :=
  store.isDir cwd path ∨ path ≠ [] ∧ leadsTo cwd path ∈ store.files ∧
    ∀ place ∈ passes cwd (components path).dropLast, place ∈ store.dirs

/-- What is at a place, and below it. -/
def tree (place : Location) : List Location :=
  (store.dirs ++ store.files).filter fun other => place <+: other

def without (gone : List Location) : Store :=
  { store with
    dirs := store.dirs.filter fun place => !gone.contains place
    files := store.files.filter fun place => !gone.contains place }

def forget (modelId : String) : Store := { store with index := store.index.remove modelId }

/-- What is deleted with a directory lies there. -/
theorem prefix_of_mem_tree {store : Store} {place other : Location}
    (h : other ∈ store.tree place) : place <+: other :=
  of_decide_eq_true (List.mem_filter.mp h).2

/-- The directory is deleted itself. -/
theorem mem_tree_self {store : Store} {place : Location} (h : place ∈ store.dirs) :
    place ∈ store.tree place :=
  List.mem_filter.mpr ⟨List.mem_append_left _ h, decide_eq_true List.prefix_rfl⟩

end Store

/-! ## The steps -/

/-- How far a removal is. -/
inductive RemovePhase
  | finding
  /-- What is recorded for the model is to be deleted. -/
  | deleting (installed : InstalledInfo)
  | saving (freedBytes : ℕ)
  | returned (result : Except RegistryError ℕ)

section

variable (registry : ModelRegistry) (modelId : String)

/-- One step of a removal. -/
inductive RemoveStep : Store × RemovePhase → InstallEvent → Store × RemovePhase → Prop
  | notFound {store : Store} (unknown : store.index.find modelId = none) :
      RemoveStep (store, .finding) ⟨.work, []⟩ (store, .returned (.error (.modelNotFound modelId)))
  | found {store : Store} {metadata : ModelMetadata} {installed : InstalledInfo}
      (known : store.index.find modelId = some metadata)
      (recorded : metadata.installed = some installed) :
      RemoveStep (store, .finding) ⟨.work, []⟩ (store, .deleting installed)
  | notInstalled {store : Store} {metadata : ModelMetadata}
      (known : store.index.find modelId = some metadata) (absent : metadata.installed = none) :
      RemoveStep (store, .finding) ⟨.work, []⟩ (store, .saving 0)
  | gone {store : Store} {installed : InstalledInfo}
      (absent : ¬ store.pathExists registry.cwd installed.path) :
      RemoveStep (store, .deleting installed) ⟨.work, []⟩ (store, .saving installed.sizeBytes)
  | delete {store : Store} {installed : InstalledInfo}
      (there : store.isDir registry.cwd installed.path) :
      RemoveStep (store, .deleting installed)
        ⟨.work, store.tree (leadsTo registry.cwd installed.path)⟩
        (store.without (store.tree (leadsTo registry.cwd installed.path)),
          .saving installed.sizeBytes)
  /-- Something cannot be deleted, and what has been deleted before is gone. -/
  | deleteFails {store : Store} {installed : InstalledInfo} {deleted : List Location}
      (there : store.isDir registry.cwd installed.path)
      (before : deleted ⊆ store.tree (leadsTo registry.cwd installed.path)) (message : String) :
      RemoveStep (store, .deleting installed) ⟨.work, deleted⟩
        (store.without deleted, .returned (.error (.io message)))
  /-- What is recorded is a plain file. -/
  | notDir {store : Store} {installed : InstalledInfo}
      (there : store.pathExists registry.cwd installed.path)
      (file : ¬ store.isDir registry.cwd installed.path) (message : String) :
      RemoveStep (store, .deleting installed) ⟨.work, []⟩
        (store, .returned (.error (.io message)))
  | save {store : Store} {freedBytes : ℕ} :
      RemoveStep (store, .saving freedBytes) ⟨.save, registry.indexPlaces⟩
        (store.forget modelId, .returned (.ok freedBytes))
  /-- The index cannot be saved, but has forgotten the model. -/
  | saveFails {store : Store} {freedBytes : ℕ} (error : RegistryError) :
      RemoveStep (store, .saving freedBytes) ⟨.save, registry.indexPlaces⟩
        (store.forget modelId, .returned (.error error))

end

/-! ## What a removal leaves -/

section

variable {registry : ModelRegistry} {modelId : String}

/-- What a removal has found and done so far. -/
def Removes (modelId : String) (before : Store) : Store × RemovePhase → Prop
  | (store, .finding) => store = before
  | (store, .deleting installed) =>
      store = before ∧
        ∃ metadata, before.index.find modelId = some metadata ∧ metadata.installed = some installed
  | (store, .saving _) => store.index = before.index
  | (store, .returned (.ok _)) => store.index = before.index.remove modelId
  | (_, .returned (.error _)) => True

theorem removes_removeStep {before : Store} {state next : Store × RemovePhase}
    {event : InstallEvent} (h : Removes modelId before state)
    (step : RemoveStep registry modelId state event next) : Removes modelId before next := by
  cases step with
  | notFound | notDir | deleteFails | saveFails => trivial
  | found known recorded =>
      obtain rfl : _ = before := h
      exact ⟨rfl, _, known, recorded⟩
  | notInstalled => exact congrArg Store.index h
  | @gone store | @delete store =>
      have hindex : store.index = before.index := congrArg Store.index h.1
      exact hindex
  | save => exact congrArg (LocalIndex.remove · modelId) h

/-- **A model that has been removed** is not found any more, and every other model is found as
before. -/
theorem find_of_removed {before last : Store} {events : List InstallEvent} {freedBytes : ℕ}
    (run : Run (RemoveStep registry modelId) (before, .finding) events
      (last, .returned (.ok freedBytes))) :
    last.index.find modelId = none ∧
      ∀ other, other ≠ modelId → last.index.find other = before.index.find other := by
  have hremoved : last.index = before.index.remove modelId :=
    @Run.invariant _ _ _ (Removes modelId before) removes_removeStep _ _ _ run rfl
  rw [hremoved]
  exact ⟨before.index.find_remove_self modelId, fun other hother =>
    before.index.find_remove_of_ne hother⟩

end

end HiveBear.Registry
