/-
# One owner for each file

Every installed entry of the index has a directory and a file there. As long as models are
installed under plain names, files stay in the directory of their model, and what is imported
lies apart from the directory of the models, each file belongs to one entry only, and a removal
deletes no file of another one. An id with a slash puts one model into the directory of another,
which reconciling then adopts.
-/

import HiveBear.Registry.Operations

namespace HiveBear.Registry

open LabelledRun Paths

namespace ModelRegistry

variable (registry : ModelRegistry)

/-- The place of the file that is recorded. -/
def recordedPlace (info : InstalledInfo) : Location :=
  leadsTo registry.cwd (join info.path info.filename.toList)

/-- A place belongs to an entry: it lies in the directory that is recorded, or is that of the
recorded file. -/
def Owns (entry : IndexEntry) (place : Location) : Prop :=
  ∃ info, entry.installed = some info ∧
    (leadsTo registry.cwd info.path <+: place ∨ registry.recordedPlace info = place)

/-! ## Where the entries are -/

/-- What is recorded has nothing to do with the directory of the models. -/
structure Aside (info : InstalledInfo) : Prop where
  notInside : ¬ registry.root <+: leadsTo registry.cwd info.path
  notAbove : ¬ leadsTo registry.cwd info.path <+: registry.root
  file : ¬ registry.root <+: registry.recordedPlace info

/-- What is recorded is in a directory of the models that is named by the id. -/
structure Within (modelId : String) (info : InstalledInfo) : Prop where
  name : ValidName modelId.toList
  path : info.path = registry.modelDir modelId
  file : registry.modelPlace modelId <+: registry.recordedPlace info

/-- What is installed is in its own place. -/
def Placed (entry : IndexEntry) : Prop :=
  ∀ info, entry.installed = some info → registry.Within entry.id info ∨ registry.Aside info

/-- Every entry is in its own place. -/
structure OwnPlaces (index : List IndexEntry) : Prop where
  ids : IndexEntry.UniqueIds index
  placed : ∀ entry ∈ index, registry.Placed entry

variable {registry} {index : List IndexEntry} {entry other : IndexEntry} {modelId : String}
  {place : Location}

theorem modelPlace_of_validName (h : ValidName modelId.toList) :
    registry.modelPlace modelId = registry.root ++ [modelId.toList] := by
  have hpath : relativePath [modelId.toList] = modelId.toList := rfl
  have hjoined := leadsTo_join_relativePath registry.cwd registry.modelsDir_ne
    (List.cons_ne_nil modelId.toList []) (List.forall_mem_singleton.mpr h)
  rwa [hpath] at hjoined

/-- What belongs to an entry in its own place, and lies in the directory of the models, lies in
that of the model. -/
theorem prefix_of_owns (hplaced : registry.Placed entry) (hroot : registry.root <+: place)
    (howns : registry.Owns entry place) :
    ValidName entry.id.toList ∧ registry.root ++ [entry.id.toList] <+: place := by
  obtain ⟨info, hinfo, hplace⟩ := howns
  rcases hplaced info hinfo with hwithin | haside
  · refine ⟨hwithin.name, ?_⟩
    rw [← modelPlace_of_validName hwithin.name]
    rcases hplace with hdir | rfl
    · rw [hwithin.path] at hdir
      exact hdir
    · exact hwithin.file
  · rcases hplace with hdir | rfl
    · rcases List.prefix_or_prefix_of_prefix hroot hdir with hinside | habove
      · exact absurd hinside haside.notInside
      · exact absurd habove haside.notAbove
    · exact absurd hroot haside.file

/-- **A place in the directory of the models belongs to one entry.** -/
theorem OwnPlaces.unique (h : registry.OwnPlaces index) (hroot : registry.root <+: place)
    (hentry : entry ∈ index) (hother : other ∈ index) (howns : registry.Owns entry place)
    (howns' : registry.Owns other place) : entry = other := by
  obtain ⟨-, hplace⟩ := prefix_of_owns (h.placed entry hentry) hroot howns
  obtain ⟨-, hplace'⟩ := prefix_of_owns (h.placed other hother) hroot howns'
  have hsame : registry.root ++ [entry.id.toList] = registry.root ++ [other.id.toList] :=
    (List.prefix_of_prefix_length_le hplace hplace' (by simp)).eq_of_length (by simp)
  have hname : entry.id.toList = other.id.toList := by simpa using hsame
  exact IndexEntry.eq_of_mem h.ids hentry hother (String.toList_inj.mp hname)

theorem OwnPlaces.nil : registry.OwnPlaces [] := ⟨List.nodup_nil, List.forall_mem_nil _⟩

theorem OwnPlaces.upsert (h : registry.OwnPlaces index) (hentry : registry.Placed entry) :
    registry.OwnPlaces (IndexEntry.upsert index entry) := by
  refine ⟨IndexEntry.uniqueIds_upsert h.ids entry, ?_⟩
  intro other hother
  rcases IndexEntry.eq_or_mem_of_mem_upsert h.ids hother with rfl | ⟨hold, -⟩
  · exact hentry
  · exact h.placed other hold

theorem OwnPlaces.sublist {later : List IndexEntry} (h : registry.OwnPlaces index)
    (hlater : later.Sublist index) : registry.OwnPlaces later :=
  ⟨h.ids.sublist (hlater.map _), fun entry hentry => h.placed entry (hlater.subset hentry)⟩

/-- What is known of an installed model is in its own place. -/
theorem OwnPlaces.installedOf (h : registry.OwnPlaces index) {info : InstalledInfo}
    (hinfo : ModelRegistry.installedOf index modelId = some info) :
    registry.Within modelId info ∨ registry.Aside info := by
  obtain ⟨entry, hfind, hentry⟩ := installedOf_eq_some_iff.mp hinfo
  have hplaced := h.placed entry (IndexEntry.mem_of_find hfind) info hentry
  rwa [IndexEntry.id_of_find hfind] at hplaced

/-! ## Reconciling keeps the places -/

variable {disk : ModelDisk} {state : Reconciling} {found : DiscoveredModel}

/-- A model that is found on disk is in its own place. -/
theorem within_of_discovered (h : found ∈ discoverModels registry.lower disk.tree)
    (previous : Option InstalledInfo) :
    registry.Within found.id (registry.installedInfoFor found previous) := by
  obtain ⟨name, above, last, size, hid, hfilename, hentry⟩ := exists_of_mem_discoverModels h
  have hvalid : ∀ other ∈ [name] ++ (above ++ [last]), ValidName other := by
    rw [← List.append_assoc]
    exact disk.tree.named _ hentry
  obtain ⟨hname, hnames⟩ := List.forall_mem_append.mp hvalid
  have hfound : ValidName found.id.toList := by
    rw [hid, String.toList_ofList]
    exact hname name (List.mem_singleton_self _)
  refine ⟨hfound, rfl, ?_⟩
  have hne : registry.modelDir found.id ≠ [] := registry.modelDir_ne found.id
  have hplace : registry.recordedPlace (registry.installedInfoFor found previous) =
      registry.modelPlace found.id ++ (above ++ [last]) := by
    change leadsTo registry.cwd (join (registry.modelDir found.id) found.filename.toList) = _
    rw [hfilename, String.toList_ofList,
      leadsTo_join_relativePath registry.cwd hne (by simp) hnames]
    rfl
  rw [hplace]
  exact List.prefix_append _ _

theorem ownPlaces_adopt (h : registry.OwnPlaces state.index)
    (hfound : found ∈ discoverModels registry.lower disk.tree) :
    registry.OwnPlaces (registry.adopt disk state found).index := by
  rw [adopt]
  split
  · exact h
  · apply h.upsert
    rintro info ⟨⟩
    rw [id_adoptedEntry]
    exact Or.inl (within_of_discovered hfound _)

theorem ownPlaces_hide (h : registry.OwnPlaces state.index) (discovered : List DiscoveredModel)
    (tracked : TrackedEntry) :
    registry.OwnPlaces (registry.hide disk discovered state tracked).index := by
  rw [hide]
  split_ifs
  · exact h
  · exact h
  · exact h
  · split
    · exact h
    · split_ifs
      · exact h.sublist List.filter_sublist
      · apply h.upsert
        intro info hinfo
        cases hinfo

/-- **Reconciling leaves every entry in its own place.** -/
theorem ownPlaces_reconcile (h : registry.OwnPlaces index) :
    registry.OwnPlaces (registry.reconcile disk index).index := by
  rw [reconcile]
  apply List.foldlRecOn (motive := fun state : Reconciling => registry.OwnPlaces state.index)
  · apply List.foldlRecOn (motive := fun state : Reconciling => registry.OwnPlaces state.index)
    · exact h
    · exact fun state hstate found hfound => ownPlaces_adopt hstate hfound
  · exact fun state hstate tracked _ => ownPlaces_hide hstate _ tracked

end ModelRegistry

/-! ## Every operation keeps the places -/

/-- The model is installed under a plain name, its file stays in its directory, and what is
imported lies apart from the directory of the models. -/
def Careful {F : Type} (registry : ModelRegistry) (state : RegistryState) :
    RegistryOperation F → Prop
  | .install call events =>
      ValidName call.modelId.toList ∧
        ∀ event ∈ events, NamesAll (fun name =>
          registry.modelPlace call.modelId <+: registry.finalPlace call.modelId name) event
  | .importOllama source modelId =>
      ∀ entry info, source.get registry.cwd state modelId = some entry →
        entry.installed = some info → registry.Aside info
  | .reconcile | .remove _ => True

section

variable {F : Type} {registry : ModelRegistry} {before after : RegistryState}

theorem ownPlaces_registryStep {operation : RegistryOperation F}
    (h : registry.OwnPlaces before.index) (hcareful : Careful registry before operation)
    (step : RegistryStep registry before operation after) : registry.OwnPlaces after.index := by
  cases step with
  | @install _ call events world last result begun run dirs files recorded index =>
      obtain ⟨hname, hnames⟩ := hcareful
      rcases index with hsame | ⟨entry, hid, hupsert⟩
      · rwa [hsame]
      · obtain ⟨-, hrecorded⟩ := recordedAs_of_run run hnames
          (fun info hinfo => h.installedOf (begun.2.symm.trans hinfo))
        rw [hupsert]
        apply h.upsert
        intro info hinfo
        have hfind : ModelRegistry.installedOf after.index call.modelId = some info := by
          rw [hupsert, ModelRegistry.installedOf, ← hid, IndexEntry.find_upsert_self]
          exact hinfo
        rw [hid]
        rcases hrecorded info (recorded.trans hfind) with hold | ⟨hpath, hfile⟩
        · exact hold
        · refine Or.inl ⟨hname, hpath, ?_⟩
          rw [ModelRegistry.recordedPlace, hpath]
          exact hfile
  | reconcile => exact ModelRegistry.ownPlaces_reconcile h
  | importOllama source modelId saving =>
      rw [ModelRegistry.importOllama]
      split
      · exact h
      · rename_i entry hentry
        split
        · exact h
        · rename_i installed hinstalled
          apply h.upsert
          intro info hinfo
          exact Or.inr (hcareful entry info hentry hinfo)
  | remove run entries => exact h.sublist entries

theorem ownPlaces_of_run {start state : RegistryState} {operations : List (RegistryOperation F)}
    (hstart : start.index = [])
    (run : Run (Guarded (Careful registry) (RegistryStep registry)) start operations state) :
    registry.OwnPlaces state.index :=
  @Run.invariant _ _ _ (fun state : RegistryState => registry.OwnPlaces state.index)
    (fun h step => ownPlaces_registryStep h step.1 step.2) _ _ _ run
    (hstart ▸ ModelRegistry.OwnPlaces.nil)

end

/-! ## What a removal deletes -/

/-- A file that is gone lay in the directory that is recorded for the model. -/
def Deleted (registry : ModelRegistry) (modelId : String) (before : Store)
    (state : Store × RemovePhase) : Prop :=
  ∀ place ∈ before.files, place ∉ state.1.files →
    ∃ metadata info, before.index.find modelId = some metadata ∧
      metadata.installed = some info ∧ before.isDir registry.cwd info.path ∧
        leadsTo registry.cwd info.path <+: place

section

variable {registry : ModelRegistry} {modelId : String}

theorem deleted_removeStep {before : Store} {state next : Store × RemovePhase}
    {event : InstallEvent} (hremoves : Removes modelId before state)
    (h : Deleted registry modelId before state)
    (step : RemoveStep registry modelId state event next) :
    Deleted registry modelId before next := by
  have hgone {installed : InstalledInfo} {deleted : List Location}
      (hphase : Removes modelId before (before, .deleting installed))
      (there : before.isDir registry.cwd installed.path)
      (hdeleted : deleted ⊆ before.tree (leadsTo registry.cwd installed.path)) (place : Location)
      (hplace : place ∈ before.files) (hlost : place ∉ (before.without deleted).files) :
      ∃ metadata info, before.index.find modelId = some metadata ∧
        metadata.installed = some info ∧ before.isDir registry.cwd info.path ∧
          leadsTo registry.cwd info.path <+: place := by
    obtain ⟨-, metadata, known, recorded⟩ := hphase
    have hmem : place ∈ deleted := by
      simpa [Store.without, hplace] using hlost
    exact ⟨metadata, installed, known, recorded, there, Store.prefix_of_mem_tree (hdeleted hmem)⟩
  cases step with
  | delete there =>
      obtain ⟨rfl, hphase⟩ := hremoves
      exact hgone ⟨rfl, hphase⟩ there (List.Subset.refl _)
  | deleteFails there earlier message =>
      obtain ⟨rfl, hphase⟩ := hremoves
      exact hgone ⟨rfl, hphase⟩ there earlier
  | _ => exact h

/-- **What a removal deletes** lay in the directory that is recorded for the model. -/
theorem deleted_of_run {before : Store} {events : List InstallEvent} {last : Store × RemovePhase}
    (run : Run (RemoveStep registry modelId) (before, .finding) events last) :
    Deleted registry modelId before last :=
  (@Run.invariant _ _ _
    (fun state => Removes modelId before state ∧ Deleted registry modelId before state)
    (fun h step => ⟨removes_removeStep h.1 step, deleted_removeStep h.1 h.2 step⟩) _ _ _ run
    ⟨rfl, fun _ hplace hlost => absurd hplace hlost⟩).2

end

/-! ## The result -/

section Nested

/-- The directories of a model that is named like a repository, and its file. -/
def nestedTree : DirTree where
  entries := [(["org".toList], .dir), (["org".toList, "model".toList], .dir),
    (["org".toList, "model".toList, "m.gguf".toList], .file 0)]
  nodup := by decide
  below := by decide
  named := by decide
  parents := by decide

def nestedFile : Location := ["models".toList, "org".toList, "model".toList, "m.gguf".toList]

/-- The directory of the models, with nothing in it. -/
def emptyState : RegistryState := ⟨[], [[], ["models".toList]], []⟩

/-- What an install records of the model, with some size and some checksum. -/
def nestedInfo (sizeBytes : ℕ) (sha256 : Option String) : InstalledInfo :=
  ⟨plainRegistry.modelDir "org/model", sizeBytes, sha256, "m.gguf"⟩

theorem eq_nestedInfo {info : InstalledInfo} (hpath : info.path = plainRegistry.modelDir "org/model")
    (hname : info.filename = "m.gguf") : info = nestedInfo info.sizeBytes info.sha256 := by
  obtain ⟨path, sizeBytes, sha256, filename⟩ := info
  obtain rfl := hpath
  obtain rfl := hname
  rfl

def nestedEntry (info : InstalledInfo) : IndexEntry :=
  { metadataForDiscovered ⟨"org/model", info.filename, info.sizeBytes⟩ with installed := some info }

/-- What reconciling makes of the directory above. -/
def aboveInfo : InstalledInfo := ⟨plainRegistry.modelDir "org", 0, none, "model/m.gguf"⟩

def aboveEntry : IndexEntry :=
  { metadataForDiscovered ⟨"org", "model/m.gguf", 0⟩ with installed := some aboveInfo }

theorem discover_nested :
    discoverModels plainRegistry.lower nestedTree = [⟨"org", "model/m.gguf", 0⟩] := by
  decide +kernel

variable (sizeBytes : ℕ) (sha256 : Option String) (elsewhere : Text → Bool)

theorem hasFile_nested :
    plainRegistry.hasFile ⟨nestedTree, elsewhere⟩ (nestedInfo sizeBytes sha256) = true := by
  have hfile : ((["org".toList, "model".toList] ++ ["m.gguf".toList], FileType.file 0) :
      Location × FileType) ∈ nestedTree.entries := by decide
  have hcomponents : components (join (plainRegistry.modelDir "org/model") "m.gguf".toList) =
      components plainRegistry.modelsDir ++
        (["org".toList, "model".toList] ++ ["m.gguf".toList]).map Component.normal := by decide
  have hlast : (component (lastName (join (plainRegistry.modelDir "org/model")
      "m.gguf".toList))).isSome := by decide
  exact ModelRegistry.isFile_join hfile hcomponents hlast

theorem adopt_nested :
    plainRegistry.adopt ⟨nestedTree, elsewhere⟩
        ⟨[nestedEntry (nestedInfo sizeBytes sha256)], [], [], false⟩ ⟨"org", "model/m.gguf", 0⟩ =
      ⟨[nestedEntry (nestedInfo sizeBytes sha256), aboveEntry], ["org"], [], true⟩ :=
  rfl

/-- Reconciling takes the directory above the model for another model, of the same file. -/
theorem reconcile_nested :
    (plainRegistry.reconcile ⟨nestedTree, elsewhere⟩
        [nestedEntry (nestedInfo sizeBytes sha256)]).index =
      [nestedEntry (nestedInfo sizeBytes sha256), aboveEntry] := by
  have htracked : ModelRegistry.trackedEntries
      [nestedEntry (nestedInfo sizeBytes sha256), aboveEntry] =
        [⟨"org/model", nestedInfo sizeBytes sha256⟩, ⟨"org", aboveInfo⟩] := rfl
  rw [ModelRegistry.reconcile]
  dsimp only
  rw [discover_nested, List.foldl_cons, List.foldl_nil, adopt_nested, htracked]
  simp [ModelRegistry.hide, hasFile_nested]

/-- An install of the model into an empty directory records its directory, and leaves its file
there, with the directories on the way. -/
theorem exists_nested :
    ∃ events dirs sizeBytes sha256,
      RegistryStep (F := Unit) plainRegistry emptyState
          (.install (namedInstall "org/model" "m.gguf") events)
          ⟨[nestedEntry (nestedInfo sizeBytes sha256)], dirs,
            [nestedFile, ["registry.json".toList]]⟩ ∧
        ∀ place ∈ nestedFile.dropLast.inits, place ∈ dirs := by
  obtain ⟨early, repoId, job, rest, world, fetching, hmoved, -⟩ :=
    @exists_fetching "m.gguf" plainRegistry "org/model" (by decide) emptyState.dirs (by decide)
      (by rw [ModelRegistry.Blocked]; decide)
  have hready : plainRegistry.Ready (freshWorld emptyState.dirs) :=
    fun place habove => (List.mem_inits _ _).mpr habove
  have hmade : plainRegistry.modelPasses "org/model" ⊆ world.dirs :=
    (stateFits_of_run hready fetching).2.1
  obtain ⟨late, world', recording⟩ :=
    exists_recording plainRegistry (namedInstall "org/model" "m.gguf") "m.gguf" job _ rest world
  have recorded := (fetching.append recording).snoc ⟨by trivial, .record⟩
  have hnamed := (@Run.always _ _ _ (fun _ => True) (NamesAll (· = "m.gguf"))
    (fun _ step => ⟨trivial, step.1⟩) _ _ _ recorded trivial).2
  have run := recorded.map id fun step => step.2
  obtain ⟨-, hrecorded⟩ := @recordedAs_of_run _ _ _ (fun _ => False) _ _ _ run hnamed nofun
  have hindex := Function.update_self "org/model" (some (plainRegistry.installedInfo
    (namedInstall "org/model" "m.gguf") world' job)) world'.index
  obtain ⟨hpath, hname⟩ := (hrecorded _ hindex).resolve_left id
  have hinfo := eq_nestedInfo hpath hname
  have hdirs : world.dirs ⊆ world'.dirs :=
    @Run.invariant _ _ _ (fun state : World × InstallPhase => world.dirs ⊆ state.1.dirs)
      (fun h step => List.Subset.trans h (dirs_installStep step.2)) _ _ _ recording
      (List.Subset.refl _)
  let info := plainRegistry.installedInfo (namedInstall "org/model" "m.gguf") world' job
  refine ⟨_, world'.dirs, info.sizeBytes, info.sha256,
    .install ⟨rfl, rfl⟩ run rfl ?_ ?_ (Or.inr ⟨_, rfl, rfl⟩), ?_⟩
  · intro place huntouched
    have hfile : place ≠ nestedFile := by
      rintro rfl
      exact huntouched hmoved.left.left
    have hsaved : place ≠ ["registry.json".toList] := by
      rintro rfl
      exact huntouched ⟨_, List.mem_append_right _ (List.mem_singleton_self _), by decide⟩
    refine iff_of_false ?_ List.not_mem_nil
    intro hplace
    exact (List.mem_pair.mp hplace).elim hfile hsaved
  · exact hindex.trans (congrArg some hinfo)
  · have hpassed : nestedFile.dropLast.inits ⊆ plainRegistry.modelPasses "org/model" := by decide
    exact fun place hplace => hdirs (hmade (hpassed hplace))

/-- Two entries own one file, and removing one of them deletes it. -/
structure Shared (state : RegistryState) (modelId otherId : String) (file : Location) : Prop where
  there : file ∈ state.files
  owned : ∃ entry ∈ state.index, entry.id = modelId ∧ plainRegistry.Owns entry file
  owned' : ∃ entry ∈ state.index, entry.id = otherId ∧ plainRegistry.Owns entry file
  deleted : ∃ events last freedBytes,
    Run (RemoveStep plainRegistry otherId) (state.store, .finding) events
      (last, .returned (.ok freedBytes)) ∧ file ∉ last.files

/-- Removing what has been adopted deletes the file of the model below. -/
theorem exists_removed {store : Store}
    (hknown : store.index.find "org" = some aboveEntry.toModelMetadata)
    (hdirs : ∀ place ∈ nestedFile.dropLast.inits, place ∈ store.dirs)
    (hfile : nestedFile ∈ store.files) :
    ∃ events last freedBytes,
      Run (RemoveStep plainRegistry "org") (store, .finding) events
        (last, .returned (.ok freedBytes)) ∧ nestedFile ∉ last.files := by
  have found : Run (RemoveStep plainRegistry "org") (store, .finding) _ _ :=
    Run.single (.found hknown rfl)
  have hpassed : passes plainRegistry.cwd (components aboveInfo.path) ⊆
      nestedFile.dropLast.inits := by decide
  have there : store.isDir plainRegistry.cwd aboveInfo.path :=
    ⟨by decide, hdirs _ (by decide), fun place hplace => hdirs place (hpassed hplace)⟩
  have deleted := (found.snoc (.delete there)).snoc .save
  refine ⟨_, _, _, deleted, ?_⟩
  have hbelow : leadsTo plainRegistry.cwd aboveInfo.path <+: nestedFile := by decide
  have hgone : nestedFile ∈ store.tree (leadsTo plainRegistry.cwd aboveInfo.path) :=
    List.mem_filter.mpr ⟨List.mem_append_right _ hfile, decide_eq_true hbelow⟩
  simp [Store.without, Store.forget, hgone]

end Nested

end HiveBear.Registry
