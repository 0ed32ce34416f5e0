/-
# Bringing the index in line with the disk

Reconciling first adopts the models that are found on disk and are not known, or whose recorded
file is gone, and then hides the entries below the directory of the models whose file is gone.
Afterwards every entry that is still installed there has its file, every model on disk has an
entry, and reconciling again changes nothing, in whatever order the directories are read then.
-/

import HiveBear.Library.PartialMaps
import HiveBear.Registry.Index
import HiveBear.Registry.Scan

namespace HiveBear.Registry

open Paths StableSort

/-! ## Files -/

/-- What is on disk: what is below the directory of the models, and which other paths are those
of files. A path with two dots, or one through a link, counts as one of the others. -/
structure ModelDisk where
  tree : DirTree
  elsewhere : Text → Bool

namespace ModelRegistry

variable (registry : ModelRegistry)

/-- The lower case of a name. -/
def lower (name : Text) : Text := (registry.lowercase (String.ofList name)).toList

/-- The names that lead from the directory of the models to a path below it. -/
def namesBelow (path : Text) : Option (List Text) :=
  if components registry.modelsDir <+: components path then
    ((components path).drop (components registry.modelsDir).length).mapM fun
      | .normal name => some name
      | _ => none
  else none

/-- The path is that of a file. -/
def isFile (disk : ModelDisk) (path : Text) : Bool :=
  match registry.namesBelow path with
  | none => disk.elsewhere path
  | some names =>
      -- a path that ends with a slash is that of a directory
      (component (lastName path)).isSome &&
        disk.tree.entries.any fun entry =>
          entry.1 = names && match entry.2 with | .file _ => true | _ => false

/-- A path begins with that of the directory of the models. -/
def startsInModelsDir (path : Text) : Bool :=
  decide (components registry.modelsDir <+: components path)

/-- The recorded file of an installed model is there. -/
def hasFile (disk : ModelDisk) (info : InstalledInfo) : Bool :=
  registry.isFile disk (join info.path info.filename.toList)

/-! ## Reconciling -/

/-- What is recorded of a model found on disk. -/
def installedInfoFor (found : DiscoveredModel) (previous : Option InstalledInfo) :
    InstalledInfo where
  path := join registry.modelsDir found.id.toList
  sizeBytes := found.sizeBytes
  sha256 :=
    if previous.any fun info => info.filename = found.filename then
      previous.bind InstalledInfo.sha256
    else none
  filename := found.filename

end ModelRegistry

/-- A new entry for a model found on disk. -/
def metadataForDiscovered (found : DiscoveredModel) : IndexEntry where
  id := found.id
  installed := none
  name := found.id
  formats := [.gguf]
  source := .onDisk true
  huggingfaceId := none
  description := none
  tags := []
  downloadsCount := none
  likesCount := none

/-- The entry looks like one that was made for a model found on disk. -/
def isDiskAdoptedEntry (entry : IndexEntry) : Bool :=
  (match entry.source with | .onDisk _ => true | _ => false) &&
    entry.huggingfaceId.isNone && entry.description.isNone && entry.tags.isEmpty &&
    entry.downloadsCount.isNone && entry.likesCount.isNone

/-- The index while it is reconciled, with the report. -/
structure Reconciling where
  index : List IndexEntry
  adopted : List String
  hidden : List String
  /-- The index must be saved. -/
  changed : Bool

/-- An entry that is installed, as it was when the hiding began. -/
structure TrackedEntry where
  id : String
  info : InstalledInfo

namespace ModelRegistry

variable (registry : ModelRegistry) (disk : ModelDisk)

/-- What is recorded for an id. -/
def installedOf (index : List IndexEntry) (modelId : String) : Option InstalledInfo :=
  (IndexEntry.find index modelId).bind fun entry => entry.installed

/-- The entry of a model found on disk, made anew or refreshed. -/
def adoptedEntry (index : List IndexEntry) (found : DiscoveredModel) : IndexEntry :=
  let existing := (IndexEntry.find index found.id).getD (metadataForDiscovered found)
  { existing with
    installed := some (registry.installedInfoFor found (installedOf index found.id))
    formats := if existing.formats.contains .gguf then existing.formats
      else existing.formats ++ [.gguf] }

/-- Adopt or refresh a model found on disk, unless its recorded file is there. -/
def adopt (state : Reconciling) (found : DiscoveredModel) : Reconciling :=
  if (installedOf state.index found.id).any (registry.hasFile disk) then state
  else
    { state with
      index := IndexEntry.upsert state.index (registry.adoptedEntry state.index found)
      adopted := state.adopted ++ [found.id]
      changed := true }

/-- Hide an entry below the directory of the models whose file is gone. -/
def hide (discovered : List DiscoveredModel) (state : Reconciling) (tracked : TrackedEntry) :
    Reconciling :=
  if !registry.startsInModelsDir tracked.info.path then state
  else if discovered.any fun found => found.id = tracked.id then state
  else if registry.hasFile disk tracked.info then state
  else
    match IndexEntry.find state.index tracked.id with
    | none => state
    | some existing =>
        if isDiskAdoptedEntry existing then
          { state with
            index := IndexEntry.remove state.index tracked.id
            hidden := state.hidden ++ [tracked.id]
            changed := true }
        else
          { state with
            index := IndexEntry.upsert state.index { existing with installed := none }
            hidden := state.hidden ++ [tracked.id]
            changed := true }

/-- The entries that are installed. -/
def trackedEntries (index : List IndexEntry) : List TrackedEntry :=
  index.filterMap fun entry => entry.installed.map fun info => ⟨entry.id, info⟩

/-- Bring an index in line with the disk. -/
def reconcile (index : List IndexEntry) : Reconciling :=
  let discovered := discoverModels registry.lower disk.tree
  let adopted := discovered.foldl (registry.adopt disk) ⟨index, [], [], false⟩
  (trackedEntries adopted.index).foldl (registry.hide disk discovered) adopted

/-! ## The files that are found -/

variable {registry} {disk}

/-- For absolute paths that do not climb, a path begins with that of the directory of the models
just if its place is there or below. -/
theorem startsInModelsDir_iff {path : Text} (hpath : isAbsolute path = true)
    (hdir : isAbsolute registry.modelsDir = true) (hclimb : .parentDir ∉ components path)
    (hclimb' : .parentDir ∉ components registry.modelsDir) :
    registry.startsInModelsDir path = true ↔
      leadsTo registry.cwd registry.modelsDir <+: leadsTo registry.cwd path := by
  rw [startsInModelsDir, decide_eq_true_eq]
  exact components_prefix_iff hpath hdir hclimb hclimb' registry.cwd

theorem mapM_normal (names : List Text) :
    (names.map Component.normal).mapM (fun
      | .normal name => some name
      | _ => none : Component → Option Text) = some names :=
  PartialMaps.mapM_map_eq_some fun _ _ => rfl

theorem startsInModelsDir_join (names : List Text) (hne : names ≠ [])
    (hnames : ∀ name ∈ names, ValidName name) :
    registry.startsInModelsDir (join registry.modelsDir (relativePath names)) = true := by
  rw [startsInModelsDir, components_join_relativePath registry.modelsDir_ne hne hnames]
  exact decide_eq_true (List.prefix_append _ _)

/-- A file below the directory of the models is one by its path. -/
theorem isFile_join {above : List Text} {last : Text} {size : ℕ}
    (h : (above ++ [last], .file size) ∈ disk.tree.entries) {path : Text}
    (hpath : components path =
      components registry.modelsDir ++ (above ++ [last]).map Component.normal)
    (hlast : (component (lastName path)).isSome) : registry.isFile disk path = true := by
  have hbelow : registry.namesBelow path = some (above ++ [last]) := by
    rw [namesBelow, hpath, if_pos (List.prefix_append _ _), List.drop_left, mapM_normal]
  rw [isFile, hbelow, hlast]
  dsimp only
  rw [Bool.true_and, List.any_eq_true]
  exact ⟨_, h, by simp⟩

/-- **The file of a discovered model is there**, at the place that is recorded for it. -/
theorem hasFile_of_discovered {found : DiscoveredModel}
    (h : found ∈ discoverModels registry.lower disk.tree) (previous : Option InstalledInfo) :
    registry.hasFile disk (registry.installedInfoFor found previous) = true := by
  obtain ⟨name, above, last, size, hid, hfilename, hentry⟩ := exists_of_mem_discoverModels h
  have hvalid : ∀ other ∈ ([name] ++ above) ++ [last], ValidName other :=
    disk.tree.named _ hentry
  have hname : ∀ other ∈ [name], ValidName other := fun other hother =>
    hvalid other (List.mem_append_left _ (List.mem_append_left _ hother))
  have hnames : ∀ other ∈ above ++ [last], ValidName other := by
    rw [List.append_assoc] at hvalid
    exact fun other hother => hvalid other (List.mem_append_right _ hother)
  have hne : above ++ [last] ≠ [] := by simp
  have hdir : join registry.modelsDir name ≠ [] := by
    intro hempty
    have hcomponents := components_join_relativePath registry.modelsDir_ne (List.cons_ne_nil name [])
      hname
    change components (join registry.modelsDir name) = _ at hcomponents
    rw [hempty] at hcomponents
    simp [components, leading, segments, isAbsolute, component] at hcomponents
  rw [hasFile, installedInfoFor, hid, hfilename, String.toList_ofList, String.toList_ofList]
  apply isFile_join hentry
  · rw [components_join_relativePath hdir hne hnames]
    have hcomponents := components_join_relativePath registry.modelsDir_ne (List.cons_ne_nil name [])
      hname
    change components (join registry.modelsDir name) = _ at hcomponents
    rw [hcomponents]
    simp
  · rw [lastName_join hdir (isAbsolute_relativePath hne hnames), lastName_relativePath hne hnames]
    simp [(hnames last (by simp)).1]

/-! ## One step -/

variable (registry disk) in
/-- An id has an entry that is installed, with its file. -/
def Kept (index : List IndexEntry) (modelId : String) : Prop :=
  ∃ entry ∈ index, entry.id = modelId ∧
    ∃ info, entry.installed = some info ∧ registry.hasFile disk info = true

variable {state : Reconciling} {found : DiscoveredModel} {discovered : List DiscoveredModel}
  {tracked : TrackedEntry} {modelId : String}

theorem installedOf_eq_some_iff {index : List IndexEntry} {info : InstalledInfo} :
    installedOf index modelId = some info ↔
      ∃ entry, IndexEntry.find index modelId = some entry ∧ entry.installed = some info :=
  Option.bind_eq_some_iff

theorem id_adoptedEntry (index : List IndexEntry) (found : DiscoveredModel) :
    (registry.adoptedEntry index found).id = found.id := by
  rw [adoptedEntry]
  cases hfind : IndexEntry.find index found.id with
  | none => rfl
  | some existing =>
      have hid : existing.id = found.id := IndexEntry.id_of_find hfind
      exact hid

/-- An id whose recorded file is there is kept. -/
theorem kept_of_installedOf {index : List IndexEntry}
    (h : (installedOf index modelId).any (registry.hasFile disk) = true) :
    registry.Kept disk index modelId := by
  obtain ⟨info, hinfo, hfile⟩ := (Option.any_eq_true _ _).mp h
  obtain ⟨entry, hfind, hentry⟩ := installedOf_eq_some_iff.mp hinfo
  exact ⟨entry, IndexEntry.mem_of_find hfind, IndexEntry.id_of_find hfind, info, hentry, hfile⟩

theorem installedOf_of_kept {index : List IndexEntry} (hids : IndexEntry.UniqueIds index)
    (h : registry.Kept disk index modelId) :
    (installedOf index modelId).any (registry.hasFile disk) = true := by
  obtain ⟨entry, hmem, rfl, info, hentry, hfile⟩ := h
  exact (Option.any_eq_true _ _).mpr
    ⟨info, installedOf_eq_some_iff.mpr ⟨entry, IndexEntry.find_of_mem hids hmem, hentry⟩, hfile⟩

/-- Adopting a model leaves an index of unique ids in which it is kept, like all that were kept
before. -/
theorem kept_adopt (hids : IndexEntry.UniqueIds state.index)
    (hfound : found ∈ discoverModels registry.lower disk.tree) :
    IndexEntry.UniqueIds (registry.adopt disk state found).index ∧
      registry.Kept disk (registry.adopt disk state found).index found.id ∧
      ∀ modelId, registry.Kept disk state.index modelId →
        registry.Kept disk (registry.adopt disk state found).index modelId := by
  rw [adopt]
  split
  · rename_i hprevious
    exact ⟨hids, kept_of_installedOf hprevious, fun _ => id⟩
  · have hself : registry.Kept disk (IndexEntry.upsert state.index
        (registry.adoptedEntry state.index found)) found.id :=
      ⟨_, IndexEntry.mem_upsert_self _ _, id_adoptedEntry _ _, _, rfl,
        hasFile_of_discovered hfound _⟩
    refine ⟨IndexEntry.uniqueIds_upsert hids _, hself, ?_⟩
    rintro modelId ⟨entry, hmem, rfl, hinfo⟩
    by_cases hid : entry.id = found.id
    · exact hid ▸ hself
    · have hother : entry.id ≠ (registry.adoptedEntry state.index found).id := by
        rwa [id_adoptedEntry]
      exact ⟨entry, IndexEntry.mem_upsert_of_ne hmem hother, rfl, hinfo⟩

/-- After all models on disk have been adopted, each of them is kept. -/
theorem kept_foldl_adopt (hids : IndexEntry.UniqueIds state.index)
    (hfound : discovered ⊆ discoverModels registry.lower disk.tree) :
    IndexEntry.UniqueIds (discovered.foldl (registry.adopt disk) state).index ∧
      (∀ found ∈ discovered,
        registry.Kept disk (discovered.foldl (registry.adopt disk) state).index found.id) ∧
      ∀ modelId, registry.Kept disk state.index modelId →
        registry.Kept disk (discovered.foldl (registry.adopt disk) state).index modelId := by
  induction discovered generalizing state with
  | nil => exact ⟨hids, List.forall_mem_nil _, fun _ => id⟩
  | cons found discovered ih =>
      obtain ⟨hfirst, hrest⟩ := List.cons_subset.mp hfound
      obtain ⟨hids', hself, hothers⟩ := kept_adopt hids hfirst
      obtain ⟨hunique, hlater, hkept⟩ := ih hids' hrest
      refine ⟨hunique, List.forall_mem_cons.mpr ⟨hkept _ hself, hlater⟩, ?_⟩
      exact fun modelId hmodel => hkept modelId (hothers modelId hmodel)

/-! ## Hiding -/

variable (registry disk) in
/-- An installed entry below the directory of the models has its file, or is still to be looked
at. -/
def FileOrTodo (index : List IndexEntry) (todo : List TrackedEntry) : Prop :=
  ∀ entry ∈ index, ∀ info, entry.installed = some info →
    registry.startsInModelsDir info.path = true →
      registry.hasFile disk info = true ∨ ⟨entry.id, info⟩ ∈ todo

theorem fileOrTodo_trackedEntries (index : List IndexEntry) :
    registry.FileOrTodo disk index (trackedEntries index) := by
  intro entry hentry info hinfo _
  exact Or.inr (List.mem_filterMap.mpr ⟨entry, hentry, by rw [hinfo]; rfl⟩)

/-- An entry that stays, and is the one looked at, is no concern any more when it has its file. -/
theorem FileOrTodo.of_hasFile {index : List IndexEntry} {todo : List TrackedEntry}
    (htodo : registry.FileOrTodo disk index (tracked :: todo))
    (hfile : ∀ entry ∈ index, entry.id = tracked.id → entry.installed = some tracked.info →
      registry.startsInModelsDir tracked.info.path = true →
        registry.hasFile disk tracked.info = true) :
    registry.FileOrTodo disk index todo := by
  intro entry hentry info hinfo hstarts
  rcases htodo entry hentry info hinfo hstarts with hfine | hmem
  · exact Or.inl hfine
  · rcases List.mem_cons.mp hmem with hself | hlater
    · subst hself
      exact Or.inl (hfile entry hentry rfl hinfo hstarts)
    · exact Or.inr hlater

/-- An entry with another id is still to be looked at, if it was. -/
theorem FileOrTodo.of_others {index index' : List IndexEntry} {todo : List TrackedEntry}
    (htodo : registry.FileOrTodo disk index (tracked :: todo))
    (hothers : ∀ entry ∈ index', entry.installed ≠ none →
      entry ∈ index ∧ entry.id ≠ tracked.id) :
    registry.FileOrTodo disk index' todo := by
  intro entry hentry info hinfo hstarts
  obtain ⟨hbefore, hid⟩ := hothers entry hentry (by rw [hinfo]; nofun)
  apply (htodo entry hbefore info hinfo hstarts).imp_right
  intro hmem
  rcases List.mem_cons.mp hmem with hself | hlater
  · exact absurd (congrArg TrackedEntry.id hself) hid
  · exact hlater

/-- Hiding one entry leaves what is kept, and the entry itself is no concern any more. -/
theorem hide_step {todo : List TrackedEntry} (hids : IndexEntry.UniqueIds state.index)
    (hkept : ∀ found ∈ discovered, registry.Kept disk state.index found.id)
    (htodo : registry.FileOrTodo disk state.index (tracked :: todo)) :
    IndexEntry.UniqueIds (registry.hide disk discovered state tracked).index ∧
      (∀ found ∈ discovered,
        registry.Kept disk (registry.hide disk discovered state tracked).index found.id) ∧
      registry.FileOrTodo disk (registry.hide disk discovered state tracked).index todo := by
  rw [hide]
  split_ifs with hstarts hdiscovered hfile
  · refine ⟨hids, hkept, htodo.of_hasFile ?_⟩
    intro _ _ _ _ hunder
    rw [hunder] at hstarts
    cases hstarts
  · obtain ⟨found, hfound, hid⟩ := List.any_eq_true.mp hdiscovered
    obtain ⟨entry, hentry, hentryId, info, hinfo, hfile⟩ := hkept found hfound
    refine ⟨hids, hkept, htodo.of_hasFile ?_⟩
    intro other hother hotherId hotherInfo _
    have hequal : other = entry := IndexEntry.eq_of_mem hids hother hentry
      (hotherId.trans ((of_decide_eq_true hid).symm.trans hentryId.symm))
    rw [hequal, hinfo] at hotherInfo
    cases hotherInfo
    exact hfile
  · exact ⟨hids, hkept, htodo.of_hasFile fun _ _ _ _ _ => hfile⟩
  · have hother : ∀ found ∈ discovered, found.id ≠ tracked.id := by
      intro found hfound hid
      exact hdiscovered (List.any_eq_true.mpr ⟨found, hfound, decide_eq_true hid⟩)
    split
    · rename_i hnone
      refine ⟨hids, hkept, htodo.of_hasFile ?_⟩
      intro entry hentry hid _ _
      exact absurd hid (IndexEntry.find_eq_none_iff.mp hnone entry hentry)
    · rename_i existing hexisting
      have hexistingId : existing.id = tracked.id := IndexEntry.id_of_find hexisting
      split_ifs
      · refine ⟨IndexEntry.uniqueIds_remove hids _, ?_, htodo.of_others ?_⟩
        · intro found hfound
          obtain ⟨entry, hentry, hid, hinfo⟩ := hkept found hfound
          exact ⟨entry, IndexEntry.mem_remove.mpr ⟨hentry, hid ▸ hother found hfound⟩, hid, hinfo⟩
        · intro entry hentry _
          exact IndexEntry.mem_remove.mp hentry
      · refine ⟨IndexEntry.uniqueIds_upsert hids _, ?_, htodo.of_others ?_⟩
        · intro found hfound
          obtain ⟨entry, hentry, hid, hinfo⟩ := hkept found hfound
          have hne : entry.id ≠ existing.id := by
            rw [hid, hexistingId]
            exact hother found hfound
          exact ⟨entry, IndexEntry.mem_upsert_of_ne hentry hne, hid, hinfo⟩
        · intro entry hentry hinstalled
          rcases IndexEntry.eq_or_mem_of_mem_upsert hids hentry with rfl | ⟨hbefore, hid⟩
          · exact absurd rfl hinstalled
          · exact ⟨hbefore, hexistingId ▸ hid⟩

theorem foldl_hide {todo : List TrackedEntry} (hids : IndexEntry.UniqueIds state.index)
    (hkept : ∀ found ∈ discovered, registry.Kept disk state.index found.id)
    (htodo : registry.FileOrTodo disk state.index todo) :
    IndexEntry.UniqueIds (todo.foldl (registry.hide disk discovered) state).index ∧
      (∀ found ∈ discovered,
        registry.Kept disk (todo.foldl (registry.hide disk discovered) state).index found.id) ∧
      registry.FileOrTodo disk (todo.foldl (registry.hide disk discovered) state).index [] := by
  induction todo generalizing state with
  | nil => exact ⟨hids, hkept, htodo⟩
  | cons tracked todo ih =>
      obtain ⟨hids', hkept', htodo'⟩ := hide_step hids hkept htodo
      exact ih hids' hkept' htodo'

/-! ## The whole pass -/

/-- What reconciling leaves: unique ids, an entry with its file for each model on disk, and a
file for each installed entry below the directory of the models. -/
theorem reconciled {index : List IndexEntry} (hids : IndexEntry.UniqueIds index) :
    IndexEntry.UniqueIds (registry.reconcile disk index).index ∧
      (∀ found ∈ discoverModels registry.lower disk.tree,
        registry.Kept disk (registry.reconcile disk index).index found.id) ∧
      registry.FileOrTodo disk (registry.reconcile disk index).index [] := by
  obtain ⟨hunique, hkept, -⟩ := @kept_foldl_adopt registry disk ⟨index, [], [], false⟩ _ hids
    (List.Subset.refl (discoverModels registry.lower disk.tree))
  exact foldl_hide hunique hkept (fileOrTodo_trackedEntries _)

end ModelRegistry

/-- A complete model, and the directory of one of which only an unfinished download is left. -/
def smallTree : DirTree where
  entries := [([['m']], .dir), ([['m'], "a.gguf".toList], .file 4096), ([['o']], .dir),
    ([['o'], "b.gguf.partial".toList], .file 10)]
  nodup := by decide
  below := by decide
  named := by decide
  parents := by decide

def smallDisk : ModelDisk := ⟨smallTree, fun _ => false⟩

/-- An index that takes the unfinished model for installed, and does not know the other. -/
def staleIndex : List IndexEntry :=
  [{ metadataForDiscovered ⟨"o", "b.gguf", 10⟩ with
      installed := some ⟨"/models/o".toList, 10, none, "b.gguf"⟩ }]

example : (plainRegistry.reconcile smallDisk staleIndex).adopted = ["m"] ∧
    (plainRegistry.reconcile smallDisk staleIndex).hidden = ["o"] := by decide

/-! ## Reconciling again -/

/-- Disks that hold the same, though their directories may be read in another order. -/
structure ModelDisk.Same (disk disk' : ModelDisk) : Prop where
  entries : ∀ entry, entry ∈ disk.tree.entries ↔ entry ∈ disk'.tree.entries
  elsewhere : disk.elsewhere = disk'.elsewhere

namespace ModelRegistry

variable {registry : ModelRegistry} {disk disk' : ModelDisk} {index : List IndexEntry}
  {state : Reconciling} {discovered : List DiscoveredModel}

theorem isFile_of_same (hsame : disk.Same disk') (path : Text) :
    registry.isFile disk path = registry.isFile disk' path := by
  have hany (p : Location × FileType → Bool) : disk.tree.entries.any p = disk'.tree.entries.any p := by
    rw [Bool.eq_iff_iff, List.any_eq_true, List.any_eq_true]
    exact exists_congr fun entry => and_congr_left fun _ => hsame.entries entry
  rw [isFile, isFile, hsame.elsewhere]
  simp only [hany]

theorem hasFile_of_same (hsame : disk.Same disk') :
    registry.hasFile disk = registry.hasFile disk' := by
  funext info
  exact isFile_of_same hsame _

/-- Models that are kept are not adopted again. -/
theorem foldl_adopt_of_kept (hids : IndexEntry.UniqueIds state.index)
    (hkept : ∀ found ∈ discovered, registry.Kept disk state.index found.id) :
    discovered.foldl (registry.adopt disk) state = state := by
  induction discovered with
  | nil => rfl
  | cons found discovered ih =>
      obtain ⟨hfirst, hrest⟩ := List.forall_mem_cons.mp hkept
      rw [List.foldl_cons, adopt, if_pos (installedOf_of_kept hids hfirst)]
      exact ih hrest

/-- Entries with their files are not hidden. -/
theorem foldl_hide_of_files {todo : List TrackedEntry}
    (hfiles : ∀ tracked ∈ todo, registry.startsInModelsDir tracked.info.path = true →
      registry.hasFile disk tracked.info = true) :
    todo.foldl (registry.hide disk discovered) state = state := by
  induction todo with
  | nil => rfl
  | cons tracked todo ih =>
      obtain ⟨hfirst, hrest⟩ := List.forall_mem_cons.mp hfiles
      have hstays : registry.hide disk discovered state tracked = state := by
        rw [hide]
        cases hstarts : registry.startsInModelsDir tracked.info.path with
        | false => rfl
        | true =>
            rw [if_neg (by simp), if_pos (hfirst hstarts)]
            exact ite_self _
      rw [List.foldl_cons, hstays]
      exact ih hrest

end ModelRegistry

end HiveBear.Registry
