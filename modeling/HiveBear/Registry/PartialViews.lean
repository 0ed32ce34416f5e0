/-
# Views of interrupted downloads

An interrupted download leaves a file called `.partial`, as a rule with its metadata beside it.
The registry looks for such files in three more ways than by scanning the directory of a model:
the download manager lists the metadata that it can read, the storage report collects the files
themselves, and the cleanup removes both. The collection goes as deep as the scan. The list and the
cleanup only look directly into the directories below that of the models, and so they miss the
downloads of files in subfolders and of models whose id has a slash.
-/

import HiveBear.Registry.Scan

namespace HiveBear.Registry

open Paths StableSort Texts

/-! ## What the scan recognises -/

/-- The file of an unfinished download, from the directory of its model. -/
def partialPlace (root : Location) (relative : Text) : Location :=
  root ++ segments (relative ++ ".partial".toList)

section Views

variable (lowercase : Text → Text) (tree : DirTree)

/-- The interrupted downloads that the scan of these directories of models recognises, by the places
of their files. -/
def Recognised (models : List Location) : Set Location :=
  { place | ∃ root ∈ models, ∃ relative ∈ (scanModelDir lowercase tree root).partials,
    partialPlace root relative = place }

/-! ## The other views -/

/-- What one name in a directory adds to the stack and to the files that have been found. -/
def visitPartial (dir : Location × ℕ) (state : List (Location × ℕ) × List Location)
    (entry : Text × FileType) : List (Location × ℕ) × List Location :=
  match entry.2 with
  | .dir =>
      if dir.2 < 3 ∧ entry.1.head? ≠ some '.' then
        ((dir.1 ++ [entry.1], dir.2 + 1) :: state.1, state.2)
      else state
  | .file _ =>
      if ".partial".toList <:+ entry.1 then (state.1, state.2 ++ [dir.1 ++ [entry.1]]) else state
  | .other => state

/-- Read the directories on the stack, one after the other. -/
def findLoop : ℕ → List (Location × ℕ) → List Location → List Location
  | 0, _, found => found
  | _ + 1, [], found => found
  | fuel + 1, dir :: stack, found =>
      let state := (tree.readDir dir.1).foldl (visitPartial dir) (stack, found)
      findLoop fuel state.1 state.2

/-- Places in the order of their names. -/
def comparePlaces : Location → Location → Ordering
  | [], [] => .eq
  | [], _ :: _ => .lt
  | _ :: _, [] => .gt
  | a :: place, b :: place' => (compareTexts a b).then (comparePlaces place place')

/-- Every `.partial` file below a directory, including nested quantization folders. -/
def findPartialFiles (dir : Location) : List Location :=
  sortBy comparePlaces (findLoop tree (visits tree maxModelScanDepth dir) [(dir, 0)] [])

/-- The names that stand directly in a directory below that of the models, and no further. -/
def secondLevel : List (Location × FileType) :=
  (tree.readDir []).flatMap fun entry =>
    if entry.2 = .dir then (tree.readDir [entry.1]).map fun below => ([entry.1, below.1], below.2)
    else []

/-- What is read as the metadata at a place. -/
abbrev MetadataAt := Location → Option PartialMeta

/-- The metadata that is listed, with the place where each is read. A directory cannot be read. -/
def listPartialAt (metadataAt : MetadataAt) : List (Location × PartialMeta) :=
  (secondLevel tree).filterMap fun entry =>
    if ".partial.meta".toList <:+ entry.1.getLast?.getD [] ∧ entry.2 ≠ .dir then
      (metadataAt entry.1).map fun metadata => (entry.1, metadata)
    else none

/-- List partial downloads that could be resumed. -/
def listPartial (metadataAt : MetadataAt) : List PartialMeta :=
  (listPartialAt tree metadataAt).map Prod.snd

/-- When files have been modified, the time now, and the age that a partial download may have. -/
structure CleanupCall where
  modified : Location → ℕ
  now : ℕ
  maxAge : ℕ

/-- Whether a cleanup takes what is at a place for a stale partial download. -/
def CleanupCall.takes (call : CleanupCall) (place : Location) : Bool :=
  let name := place.getLast?.getD []
  (".partial".toList.isSuffixOf name || ".partial.meta".toList.isSuffixOf name) &&
    call.modified place < call.now - call.maxAge

/-- The places that a cleanup reports. -/
def cleanedPlaces (call : CleanupCall) : List Location :=
  ((secondLevel tree).map Prod.fst).filter call.takes

/-- Remove stale partial downloads: the places that are reported, and what is left. A directory
cannot be removed as a file. -/
def cleanupPartial (call : CleanupCall) : List Location × DirTree :=
  let cleaned := cleanedPlaces tree call
  (cleaned, tree.withoutFiles fun place => cleaned.contains place)

/-! ## What is claimed -/

/-- The downloads whose metadata is listed. -/
def Listed (metadataAt : MetadataAt) : Set Location :=
  { place | ∃ dir stem metadata, place = dir ++ [stem ++ ".partial".toList] ∧
    (dir ++ [stem ++ ".partial.meta".toList], metadata) ∈ listPartialAt tree metadataAt }

/-- The downloads whose files are found. -/
def Found (models : List Location) : Set Location :=
  { place | ∃ root ∈ models, place ∈ findPartialFiles tree root }

/-- The downloads whose files are removed. -/
def Removed (call : CleanupCall) : Set Location :=
  { place | (∃ dir stem, place = dir ++ [stem ++ ".partial".toList]) ∧
    (∃ type, (place, type) ∈ tree.entries) ∧
    ∀ type, (place, type) ∉ (cleanupPartial tree call).2.entries }

/-- **All views agree.** -/
structure ViewsAgree (models : List Location) (metadataAt : MetadataAt) (call : CleanupCall) :
    Prop where
  listed : Listed tree metadataAt = Recognised lowercase tree models
  found : Found tree models = Recognised lowercase tree models
  removed : Removed tree call = Recognised lowercase tree models

/-! ## The condition -/

/-- A place that a scan of these directories comes by: behind visible directories, not too deep. -/
def InReach (models : List Location) (place : Location) : Prop :=
  ∃ root ∈ models, ∃ above name, place = root ++ above ++ [name] ∧
    above.length ≤ maxModelScanDepth ∧ ∀ dir ∈ above, dir.head? ≠ some '.'

def IsFile (place : Location) : Prop := ∃ size, (place, .file size) ∈ tree.entries

/-- Metadata can be read at a place. -/
def Readable (metadataAt : MetadataAt) (place : Location) : Prop :=
  (∃ type, type ≠ .dir ∧ (place, type) ∈ tree.entries) ∧ (metadataAt place).isSome

/-- **The condition.** Every interrupted download lies directly in a directory below that of the
models, with metadata that can be read beside it; and what lies there with such a name, or with
metadata for such a name, is an interrupted download. -/
structure Plain (models : List Location) (metadataAt : MetadataAt) : Prop where
  direct : ∀ dir stem, InReach models (dir ++ [stem ++ ".partial".toList]) →
    IsFile tree (dir ++ [stem ++ ".partial".toList]) → dir.length = 1
  described : ∀ dir stem, InReach models [dir, stem ++ ".partial".toList] →
    IsFile tree [dir, stem ++ ".partial".toList] →
    Readable tree metadataAt [dir, stem ++ ".partial.meta".toList]
  owned : ∀ dir stem, Readable tree metadataAt [dir, stem ++ ".partial.meta".toList] →
    IsFile tree [dir, stem ++ ".partial".toList] ∧
      InReach models [dir, stem ++ ".partial".toList]
  files : ∀ dir stem type, ([dir, stem ++ ".partial".toList], type) ∈ tree.entries →
    type ≠ .dir → IsFile tree [dir, stem ++ ".partial".toList] ∧
      InReach models [dir, stem ++ ".partial".toList]

variable {lowercase tree} {models : List Location}

/-! ## The scan, by places -/

theorem joinRelative_append (base name rest : Text) :
    joinRelative base name ++ rest = joinRelative base (name ++ rest) := by
  rw [joinRelative, joinRelative]
  split_ifs
  · rfl
  · rw [List.append_assoc, List.cons_append]

/-- The path of an unfinished download leads to its file. -/
theorem partialPlace_joinRelative (root : Location) {names : List Text} {stem : Text}
    (hnames : ∀ name ∈ names, ValidName name) (hstem : ValidName (stem ++ ".partial".toList)) :
    partialPlace root (joinRelative (relativePath names) stem) =
      root ++ names ++ [stem ++ ".partial".toList] := by
  have hvalid : ∀ name ∈ names ++ [stem ++ ".partial".toList], ValidName name := by
    intro name hname
    rcases List.mem_append.mp hname with hbefore | hlast
    · exact hnames name hbefore
    · rwa [List.mem_singleton.mp hlast]
  rw [partialPlace, joinRelative_append, ← relativePath_concat,
    (segments_relativePath (by simp) hvalid).2, List.append_assoc]

theorem mem_partialsIn {place : Location} {base relative : Text} :
    relative ∈ partialsIn tree place base ↔ ∃ stem size,
      (place ++ [stem ++ ".partial".toList], .file size) ∈ tree.entries ∧
        relative = joinRelative base stem := by
  rw [partialsIn, List.mem_filterMap]
  constructor
  · rintro ⟨⟨name, type⟩, hentry, hunfinished⟩
    cases type with
    | dir | other => cases hunfinished
    | file size =>
        rw [unfinishedOf, stripSuffix] at hunfinished
        dsimp only at hunfinished
        split_ifs at hunfinished with hsuffix
        · obtain ⟨stem, rfl⟩ := hsuffix
          cases hunfinished
          refine ⟨stem, size, DirTree.mem_readDir.mp hentry, ?_⟩
          simp
        · cases hunfinished
  · rintro ⟨stem, size, hentry, rfl⟩
    refine ⟨(stem ++ ".partial".toList, .file size), DirTree.mem_readDir.mpr hentry, ?_⟩
    rw [unfinishedOf, stripSuffix]
    dsimp only
    rw [if_pos (List.suffix_append _ _)]
    simp

/-- What a scan loop finds are the unfinished downloads that are collected. -/
theorem mem_partials_scanModelDir {root : Location} {relative : Text} :
    relative ∈ (scanModelDir lowercase tree root).partials ↔
      relative ∈ collectFrom tree (partialsIn tree) maxModelScanDepth root [] := by
  have hloop := @scanLoop_eq lowercase tree [(⟨root, [], 0⟩, maxModelScanDepth)]
    (by simp [Reaches]) (visits tree maxModelScanDepth root) (by simp) ⟨[], []⟩
  rw [scanModelDir]
  dsimp only
  rw [mem_sortBy]
  rw [List.map_singleton] at hloop
  rw [hloop, ← (@collect_eq_collectFrom lowercase tree maxModelScanDepth root []).2]
  simp [collectAll]

/-- **What is recognised**: the files called `.partial` that a scan comes by. -/
theorem mem_recognised_iff {place : Location} :
    place ∈ Recognised lowercase tree models ↔
      (∃ dir stem, place = dir ++ [stem ++ ".partial".toList]) ∧ IsFile tree place ∧
        InReach models place := by
  constructor
  · rintro ⟨root, hroot, relative, hrelative, rfl⟩
    rw [mem_partials_scanModelDir] at hrelative
    obtain ⟨above, hlength, henters, hfound⟩ :=
      (@mem_collectFrom_iff tree root Text (partialsIn tree) relative maxModelScanDepth []).mp
        hrelative
    obtain ⟨stem, size, hentry, rfl⟩ := mem_partialsIn.mp hfound
    have hvalid := tree.named _ hentry
    rw [List.nil_append, partialPlace_joinRelative root
      (fun name hname => hvalid name (by simp [hname])) (hvalid _ (by simp))]
    exact ⟨⟨root ++ above, stem, rfl⟩, ⟨size, hentry⟩,
      root, hroot, above, _, rfl, hlength, henters.visible⟩
  · rintro ⟨⟨dir, stem, rfl⟩, ⟨size, hentry⟩, root, hroot, above, name, hplace, hlength, hvisible⟩
    obtain ⟨rfl, hname⟩ := List.append_inj' hplace rfl
    obtain rfl := List.singleton_inj.mp hname
    have hvalid := tree.named _ hentry
    refine ⟨root, hroot, joinRelative (relativePath above) stem, ?_, ?_⟩
    · rw [mem_partials_scanModelDir]
      refine (@mem_collectFrom_iff tree root Text (partialsIn tree) _ maxModelScanDepth []).mpr
        ⟨above, hlength, enters_of_entry hvisible hentry, mem_partialsIn.mpr ⟨stem, size, hentry, rfl⟩⟩
    · exact partialPlace_joinRelative root
        (fun name hname => hvalid name (by simp [hname])) (hvalid _ (by simp))

/-! ## The files that are found -/

/-- A directory that the scan of a directory has come by. -/
def Below (root : Location) (dir : PendingDir) : Prop :=
  ∃ names, (∀ name ∈ names, ValidName name) ∧ dir.place = root ++ names ∧
    dir.base = relativePath names

/-- What the search for files keeps of the state of a scan. -/
def seen (root : Location) (state : List PendingDir × DirScan) :
    List (Location × ℕ) × List Location :=
  (state.1.map fun dir => (dir.place, dir.depth), state.2.partials.map (partialPlace root))

/-- One name: the search goes on as the scan does. -/
theorem visitPartial_eq {root : Location} {dir : PendingDir} (hdir : Below root dir)
    (state : List PendingDir × DirScan) {entry : Text × FileType} (hentry : ValidName entry.1) :
    visitPartial (dir.place, dir.depth) (seen root state) entry =
        seen root (visit lowercase dir state entry) ∧
      ((∀ pending ∈ state.1, Below root pending) →
        ∀ pending ∈ (visit lowercase dir state entry).1, Below root pending) := by
  obtain ⟨names, hnames, hplace, hbase⟩ := hdir
  obtain ⟨name, type⟩ := entry
  rw [visitPartial, visit]
  cases type with
  | other => exact ⟨rfl, id⟩
  | dir =>
      by_cases hentered : dir.depth < maxModelScanDepth ∧ name.head? ≠ some '.'
      · have hshallow : dir.depth < 3 ∧ name.head? ≠ some '.' := hentered
        dsimp only
        rw [if_pos hshallow, if_pos hentered]
        refine ⟨rfl, fun hstack => List.forall_mem_cons.mpr ⟨?_, hstack⟩⟩
        refine ⟨names ++ [name], ?_, ?_, ?_⟩
        · intro other hother
          rcases List.mem_append.mp hother with hbefore | hlast
          · exact hnames other hbefore
          · rwa [List.mem_singleton.mp hlast]
        · dsimp only
          rw [hplace, List.append_assoc]
        · dsimp only
          rw [hbase, relativePath_concat]
      · have hdeep : ¬ (dir.depth < 3 ∧ name.head? ≠ some '.') := hentered
        dsimp only
        rw [if_neg hdeep, if_neg hentered]
        exact ⟨rfl, id⟩
  | file size =>
      dsimp only
      rw [stripSuffix]
      by_cases hsuffix : ".partial".toList <:+ name
      · rw [if_pos hsuffix, if_pos hsuffix]
        obtain ⟨stem, rfl⟩ := hsuffix
        refine ⟨?_, id⟩
        have hpath := partialPlace_joinRelative root hnames hentry
        simp [seen, hbase, hpath, hplace]
      · rw [if_neg hsuffix, if_neg hsuffix]
        dsimp only
        split_ifs <;> exact ⟨rfl, id⟩

theorem foldl_visitPartial {root : Location} {dir : PendingDir} (hdir : Below root dir)
    (entries : List (Text × FileType)) (hentries : ∀ entry ∈ entries, ValidName entry.1)
    (state : List PendingDir × DirScan) (hstack : ∀ pending ∈ state.1, Below root pending) :
    entries.foldl (visitPartial (dir.place, dir.depth)) (seen root state) =
        seen root (entries.foldl (visit lowercase dir) state) ∧
      ∀ pending ∈ (entries.foldl (visit lowercase dir) state).1, Below root pending := by
  induction entries generalizing state with
  | nil => exact ⟨rfl, hstack⟩
  | cons entry entries ih =>
      obtain ⟨hentry, hrest⟩ := List.forall_mem_cons.mp hentries
      obtain ⟨hstep, hkept⟩ := @visitPartial_eq lowercase root dir hdir state entry hentry
      rw [List.foldl_cons, List.foldl_cons, hstep]
      exact ih hrest _ (hkept hstack)

/-- **The search and the scan** go through the same directories, and find the same files. -/
theorem findLoop_eq {root : Location} (fuel : ℕ) (state : List PendingDir × DirScan)
    (hstack : ∀ pending ∈ state.1, Below root pending) :
    findLoop tree fuel (seen root state).1 (seen root state).2 =
      (scanLoop lowercase tree fuel state.1 state.2).partials.map (partialPlace root) := by
  induction fuel generalizing state with
  | zero =>
      obtain ⟨stack, scan⟩ := state
      cases stack <;> rfl
  | succ fuel ih =>
      obtain ⟨stack, scan⟩ := state
      cases stack with
      | nil => rfl
      | cons dir stack =>
          obtain ⟨hdir, hrest⟩ := List.forall_mem_cons.mp hstack
          have hentries : ∀ entry ∈ tree.readDir dir.place, ValidName entry.1 :=
            fun entry hentry => DirTree.validName_of_mem_readDir hentry
          obtain ⟨hstep, hkept⟩ :=
            @foldl_visitPartial lowercase root dir hdir _ hentries (stack, scan) hrest
          have hstate := ih _ hkept
          rw [← hstep] at hstate
          exact hstate

theorem mem_findPartialFiles {root place : Location} :
    place ∈ findPartialFiles tree root ↔
      ∃ relative ∈ (scanModelDir lowercase tree root).partials, partialPlace root relative = place := by
  have hroot : ∀ pending ∈ [(⟨root, [], 0⟩ : PendingDir)], Below root pending :=
    List.forall_mem_singleton.mpr
      ⟨[], List.forall_mem_nil _, (List.append_nil root).symm, rfl⟩
  have hloop := @findLoop_eq lowercase tree root (visits tree maxModelScanDepth root)
    ([⟨root, [], 0⟩], ⟨[], []⟩) hroot
  have hseen : seen root ([⟨root, [], 0⟩], ⟨[], []⟩) = ([(root, 0)], []) := rfl
  rw [hseen] at hloop
  rw [findPartialFiles, mem_sortBy, hloop, List.mem_map, scanModelDir]
  simp only [mem_sortBy]

/-- The files that are found are those that the scan recognises. -/
theorem found_eq : Found tree models = Recognised lowercase tree models := by
  ext place
  refine exists_congr fun root => and_congr_right fun _ => ?_
  exact mem_findPartialFiles

/-! ## What is listed and removed -/

theorem mem_secondLevel {place : Location} {type : FileType} :
    (place, type) ∈ secondLevel tree ↔ place.length = 2 ∧ (place, type) ∈ tree.entries := by
  rw [secondLevel, List.mem_flatMap]
  constructor
  · rintro ⟨⟨dir, dirType⟩, -, hbelow⟩
    dsimp only at hbelow
    split_ifs at hbelow with htype
    · obtain ⟨⟨name, below⟩, hname, hpair⟩ := List.mem_map.mp hbelow
      cases hpair
      exact ⟨rfl, DirTree.mem_readDir.mp hname⟩
    · cases hbelow
  · rintro ⟨hlength, hentry⟩
    obtain ⟨dir, name, rfl⟩ := List.length_eq_two.mp hlength
    have hdir : ([dir], FileType.dir) ∈ tree.entries :=
      DirTree.dir_of_mem (List.cons_ne_nil _ _) hentry
    refine ⟨(dir, .dir), DirTree.mem_readDir.mpr hdir, ?_⟩
    rw [if_pos rfl]
    exact List.mem_map.mpr ⟨(name, type), DirTree.mem_readDir.mpr hentry, rfl⟩

theorem mem_listPartialAt {metadataAt : MetadataAt} {place : Location} {metadata : PartialMeta} :
    (place, metadata) ∈ listPartialAt tree metadataAt ↔
      place.length = 2 ∧ ".partial.meta".toList <:+ place.getLast?.getD [] ∧
        (∃ type, type ≠ .dir ∧ (place, type) ∈ tree.entries) ∧ metadataAt place = some metadata := by
  rw [listPartialAt, List.mem_filterMap]
  constructor
  · rintro ⟨⟨other, type⟩, hentry, hread⟩
    split_ifs at hread with hlisted
    obtain ⟨found, hfound, hpair⟩ := Option.map_eq_some_iff.mp hread
    cases hpair
    obtain ⟨hlength, hmem⟩ := mem_secondLevel.mp hentry
    exact ⟨hlength, hlisted.1, ⟨type, hlisted.2, hmem⟩, hfound⟩
  · rintro ⟨hlength, hsuffix, ⟨type, htype, hmem⟩, hfound⟩
    refine ⟨(place, type), mem_secondLevel.mpr ⟨hlength, hmem⟩, ?_⟩
    rw [if_pos ⟨hsuffix, htype⟩, hfound]
    rfl

theorem exists_singleton_of_length {dir : Location} {name : Text} (h : (dir ++ [name]).length = 2) :
    ∃ only, dir = [only] := by
  rw [List.length_append, List.length_singleton] at h
  exact List.length_eq_one_iff.mp (Nat.succ.inj h)

/-- **What is listed**: the downloads right below a directory of the models whose metadata can be
read. -/
theorem mem_listed_iff {metadataAt : MetadataAt} {place : Location} :
    place ∈ Listed tree metadataAt ↔ ∃ dir stem, place = [dir, stem ++ ".partial".toList] ∧
      Readable tree metadataAt [dir, stem ++ ".partial.meta".toList] := by
  constructor
  · rintro ⟨above, stem, metadata, rfl, hlisted⟩
    obtain ⟨hlength, -, hentry, hread⟩ := mem_listPartialAt.mp hlisted
    obtain ⟨dir, rfl⟩ := exists_singleton_of_length hlength
    exact ⟨dir, stem, rfl, hentry, Option.isSome_of_eq_some hread⟩
  · rintro ⟨dir, stem, rfl, hentry, hread⟩
    obtain ⟨metadata, hmetadata⟩ := Option.isSome_iff_exists.mp hread
    exact ⟨[dir], stem, metadata, rfl,
      mem_listPartialAt.mpr ⟨rfl, List.suffix_append _ _, hentry, hmetadata⟩⟩

/-- **What is removed**: whatever stands right below a directory of the models, has such a name and
is no directory. -/
theorem mem_removed_iff {call : CleanupCall} {place : Location}
    (hage : ∀ dir stem type, (dir ++ [stem ++ ".partial".toList], type) ∈ tree.entries →
      call.modified (dir ++ [stem ++ ".partial".toList]) + call.maxAge < call.now) :
    place ∈ Removed tree call ↔ ∃ dir stem, place = [dir, stem ++ ".partial".toList] ∧
      ∃ type, type ≠ .dir ∧ (place, type) ∈ tree.entries := by
  have hcleaned : ∀ {dir : Location} {stem : Text},
      dir ++ [stem ++ ".partial".toList] ∈ cleanedPlaces tree call ↔
        (dir ++ [stem ++ ".partial".toList]).length = 2 ∧
          ∃ type, (dir ++ [stem ++ ".partial".toList], type) ∈ tree.entries := by
    intro dir stem
    rw [cleanedPlaces, List.mem_filter, List.mem_map]
    constructor
    · rintro ⟨⟨⟨other, type⟩, hentry, rfl⟩, -⟩
      obtain ⟨hlength, hmem⟩ := mem_secondLevel.mp hentry
      exact ⟨hlength, type, hmem⟩
    · rintro ⟨hlength, type, hmem⟩
      refine ⟨⟨_, mem_secondLevel.mpr ⟨hlength, hmem⟩, rfl⟩, ?_⟩
      have hold := hage dir stem type hmem
      have hname : ".partial".toList.isSuffixOf (stem ++ ".partial".toList) = true :=
        List.isSuffixOf_iff_suffix.mpr (List.suffix_append _ _)
      have hstale : call.modified (dir ++ [stem ++ ".partial".toList]) < call.now - call.maxAge := by
        omega
      simp only [CleanupCall.takes, List.getLast?_concat, Option.getD_some, hname, Bool.true_or,
        Bool.true_and, decide_eq_true_eq]
      exact hstale
  constructor
  · rintro ⟨⟨above, stem, rfl⟩, ⟨type, hentry⟩, hgone⟩
    have hremoved := hgone type
    rw [cleanupPartial, DirTree.mem_withoutFiles, not_and_or, not_or] at hremoved
    obtain ⟨htype, hplace⟩ := hremoved.resolve_left (not_not_intro hentry)
    have hmem : above ++ [stem ++ ".partial".toList] ∈ cleanedPlaces tree call := by
      simpa using hplace
    obtain ⟨dir, rfl⟩ := exists_singleton_of_length (hcleaned.mp hmem).1
    exact ⟨dir, stem, rfl, type, htype, hentry⟩
  · rintro ⟨dir, stem, rfl, type, htype, hentry⟩
    refine ⟨⟨[dir], stem, rfl⟩, ⟨type, hentry⟩, ?_⟩
    intro left hleft
    rw [cleanupPartial, DirTree.mem_withoutFiles] at hleft
    obtain ⟨hmem, hkept⟩ := hleft
    have hgone : [dir] ++ [stem ++ ".partial".toList] ∈ cleanedPlaces tree call :=
      hcleaned.mpr ⟨rfl, type, hentry⟩
    rcases hkept with rfl | hnot
    · exact htype (DirTree.type_unique hentry hmem)
    · exact absurd (List.contains_iff_mem.mpr hgone) (Bool.eq_false_iff.mp hnot)

/-- Where the views agree, what the scan reaches lies where the list and the cleanup look. -/
theorem plain_of_viewsAgree {metadataAt : MetadataAt} {call : CleanupCall}
    (hage : ∀ dir stem type, (dir ++ [stem ++ ".partial".toList], type) ∈ tree.entries →
      call.modified (dir ++ [stem ++ ".partial".toList]) + call.maxAge < call.now)
    (h : ViewsAgree lowercase tree models metadataAt call) : Plain tree models metadataAt := by
  obtain ⟨hlisted, -, hremoved⟩ := h
  refine ⟨?_, ?_, ?_, ?_⟩
  · intro dir stem hreach hfile
    have hmem : dir ++ [stem ++ ".partial".toList] ∈ Removed tree call := by
      rw [hremoved, mem_recognised_iff]
      exact ⟨⟨dir, stem, rfl⟩, hfile, hreach⟩
    obtain ⟨only, other, hplace, -⟩ := (mem_removed_iff hage).mp hmem
    have hsplit : dir ++ [stem ++ ".partial".toList] = [only] ++ [other ++ ".partial".toList] :=
      hplace
    obtain ⟨rfl, -⟩ := List.append_inj' hsplit rfl
    rfl
  · intro dir stem hreach hfile
    have hmem : [dir, stem ++ ".partial".toList] ∈ Listed tree metadataAt := by
      rw [hlisted, mem_recognised_iff]
      exact ⟨⟨[dir], stem, rfl⟩, hfile, hreach⟩
    obtain ⟨only, other, hplace, hread⟩ := mem_listed_iff.mp hmem
    simp only [List.cons.injEq, and_true, List.append_cancel_right_eq] at hplace
    obtain ⟨rfl, rfl⟩ := hplace
    exact hread
  · intro dir stem hread
    have hmem : [dir, stem ++ ".partial".toList] ∈ Listed tree metadataAt :=
      mem_listed_iff.mpr ⟨dir, stem, rfl, hread⟩
    rw [hlisted, mem_recognised_iff] at hmem
    exact hmem.2
  · intro dir stem type hentry htype
    have hmem : [dir, stem ++ ".partial".toList] ∈ Removed tree call :=
      (mem_removed_iff hage).mpr ⟨dir, stem, rfl, type, htype, hentry⟩
    rw [hremoved, mem_recognised_iff] at hmem
    exact hmem.2

theorem viewsAgree_of_plain {metadataAt : MetadataAt} {call : CleanupCall}
    (hage : ∀ dir stem type, (dir ++ [stem ++ ".partial".toList], type) ∈ tree.entries →
      call.modified (dir ++ [stem ++ ".partial".toList]) + call.maxAge < call.now)
    (h : Plain tree models metadataAt) : ViewsAgree lowercase tree models metadataAt call := by
  obtain ⟨hdirect, hdescribed, howned, hfiles⟩ := h
  refine ⟨?_, found_eq, ?_⟩
  · ext place
    rw [mem_listed_iff, mem_recognised_iff]
    constructor
    · rintro ⟨dir, stem, rfl, hread⟩
      exact ⟨⟨[dir], stem, rfl⟩, howned dir stem hread⟩
    · rintro ⟨⟨above, stem, rfl⟩, hfile, hreach⟩
      obtain ⟨dir, rfl⟩ := List.length_eq_one_iff.mp (hdirect above stem hreach hfile)
      exact ⟨dir, stem, rfl, hdescribed dir stem hreach hfile⟩
  · ext place
    rw [mem_removed_iff hage, mem_recognised_iff]
    constructor
    · rintro ⟨dir, stem, rfl, type, htype, hentry⟩
      exact ⟨⟨[dir], stem, rfl⟩, hfiles dir stem type hentry htype⟩
    · rintro ⟨⟨above, stem, rfl⟩, ⟨size, hentry⟩, hreach⟩
      obtain ⟨dir, rfl⟩ := List.length_eq_one_iff.mp (hdirect above stem hreach ⟨size, hentry⟩)
      exact ⟨dir, stem, rfl, .file size, nofun, hentry⟩

/-- **All views agree** just if every interrupted download lies directly in a directory below that
of the models, with metadata beside it, and nothing else there looks like one. -/
theorem partial_views_agree_iff {metadataAt : MetadataAt} {call : CleanupCall}
    (hage : ∀ dir stem type, (dir ++ [stem ++ ".partial".toList], type) ∈ tree.entries →
      call.modified (dir ++ [stem ++ ".partial".toList]) + call.maxAge < call.now) :
    ViewsAgree lowercase tree models metadataAt call ↔ Plain tree models metadataAt :=
  ⟨plain_of_viewsAgree hage, viewsAgree_of_plain hage⟩

end Views

/-! ## Two trees -/

/-- The metadata of an interrupted download. -/
def leftoverMeta : PartialMeta := ⟨"https://host/x", some 9, none, "m", "x", 0⟩

/-- An interrupted download, right in the directory of its model. -/
def flatTree : DirTree where
  entries := [([['m']], .dir), ([['m'], "x.partial".toList], .file 3),
    ([['m'], "x.partial.meta".toList], .file 90)]
  nodup := by decide
  below := by decide
  named := by decide
  parents := by decide

/-- A cleanup for which everything is old. -/
def anyCleanup : CleanupCall := ⟨fun _ => 0, 2, 1⟩

theorem flatTree_partial {dir stem : Text} {type : FileType}
    (h : ([dir, stem ++ ".partial".toList], type) ∈ flatTree.entries) :
    dir = ['m'] ∧ stem = ['x'] := by
  simp only [flatTree, List.mem_cons, Prod.mk.injEq, List.cons.injEq, List.not_mem_nil,
    reduceCtorEq, and_false, and_true, false_and, false_or, or_false] at h
  rcases h with ⟨⟨rfl, hname⟩, -⟩ | ⟨⟨rfl, hname⟩, -⟩
  · exact ⟨rfl, List.append_cancel_right hname⟩
  · exact absurd (congrArg List.getLast? hname) (by simp [List.getLast?_append])

theorem flatTree_meta {dir stem : Text} {type : FileType}
    (h : ([dir, stem ++ ".partial.meta".toList], type) ∈ flatTree.entries) :
    dir = ['m'] ∧ stem = ['x'] := by
  simp only [flatTree, List.mem_cons, Prod.mk.injEq, List.cons.injEq, List.not_mem_nil,
    reduceCtorEq, and_false, and_true, false_and, false_or, or_false] at h
  rcases h with ⟨⟨rfl, hname⟩, -⟩ | ⟨⟨rfl, hname⟩, -⟩
  · exact absurd (congrArg List.getLast? hname) (by simp [List.getLast?_append])
  · exact ⟨rfl, List.append_cancel_right hname⟩

theorem partial_views_agree_flat :
    ViewsAgree id flatTree [[['m']]] (fun _ => some leftoverMeta) anyCleanup := by
  have hfile : IsFile flatTree [['m'], ['x'] ++ ".partial".toList] ∧
      InReach [[['m']]] [['m'], ['x'] ++ ".partial".toList] :=
    ⟨⟨3, by decide⟩, [['m']], List.mem_singleton_self _, [], _, rfl, Nat.zero_le _,
      List.forall_mem_nil _⟩
  have hage : ∀ place, anyCleanup.modified place + anyCleanup.maxAge < anyCleanup.now :=
    fun _ => Nat.lt_succ_self 1
  refine (partial_views_agree_iff fun _ _ _ _ => hage _).mpr ⟨?_, ?_, ?_, ?_⟩
  · rintro dir stem - ⟨size, hentry⟩
    have hdeep : ∀ entry ∈ flatTree.entries, entry.2 ≠ .dir → entry.1.length = 2 := by decide
    have hlength := hdeep _ hentry nofun
    rw [List.length_append] at hlength
    exact Nat.succ.inj hlength
  · rintro dir stem - ⟨size, hentry⟩
    obtain ⟨rfl, rfl⟩ := flatTree_partial hentry
    exact ⟨⟨.file 90, nofun, by decide⟩, rfl⟩
  · rintro dir stem ⟨⟨type, -, hentry⟩, -⟩
    obtain ⟨rfl, rfl⟩ := flatTree_meta hentry
    exact hfile
  · rintro dir stem type hentry -
    obtain ⟨rfl, rfl⟩ := flatTree_partial hentry
    exact hfile

/-- An interrupted download in a folder for its quantization. -/
def nestedPartialTree : DirTree where
  entries := [([['m']], .dir), ([['m'], "Q6".toList], .dir),
    ([['m'], "Q6".toList, "x.partial".toList], .file 3),
    ([['m'], "Q6".toList, "x.partial.meta".toList], .file 90)]
  nodup := by decide
  below := by decide
  named := by decide
  parents := by decide

/-- It is recognised, and neither listed nor removed. -/
theorem nested_partial_unlisted :
    ¬ ∀ (lowercase : Text → Text) (tree : DirTree) (models : List Location)
      (metadataAt : MetadataAt) (call : CleanupCall),
      (∀ dir stem type, (dir ++ [stem ++ ".partial".toList], type) ∈ tree.entries →
        call.modified (dir ++ [stem ++ ".partial".toList]) + call.maxAge < call.now) →
      ViewsAgree lowercase tree models metadataAt call := by
  intro hagree
  have hlisted := (hagree id nestedPartialTree [[['m']]] (fun _ => some leftoverMeta)
    anyCleanup fun _ _ _ _ => Nat.lt_succ_self 1).listed
  have hrecognised : [['m'], "Q6".toList, "x.partial".toList] ∈
      Recognised id nestedPartialTree [[['m']]] := by
    refine mem_recognised_iff.mpr ⟨⟨[['m'], "Q6".toList], ['x'], rfl⟩, ⟨3, by decide⟩, ?_⟩
    exact ⟨[['m']], List.mem_singleton_self _, ["Q6".toList], "x.partial".toList, rfl,
      by decide, by decide⟩
  rw [← hlisted, mem_listed_iff] at hrecognised
  obtain ⟨dir, stem, hplace, -⟩ := hrecognised
  cases congrArg List.length hplace

end HiveBear.Registry
