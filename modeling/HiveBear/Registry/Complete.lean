/-
# Whether discovered models are complete

A model whose files are shards can only be loaded if all shards of its set are in one
directory. Discovery does not look whether they are: it takes the first shard of the least
index, and adds up the sizes of all shards with its prefix, wherever they are. So what is
discovered is complete exactly if that shard has index 1, its set is complete, and nothing else
with its prefix has a size.
-/

import HiveBear.Registry.Scan
import Mathlib.Data.List.Perm.Basic

namespace HiveBear.Registry

open Paths Selection StableSort Texts

variable {lowercase : Text → Text} {tree : DirTree}

/-! ## Every file is found once -/

theorem nodup_readDir (place : Location) : (tree.readDir place).Nodup := by
  have hread : ∀ {entry : Location × FileType} {read : Text × FileType},
      read ∈ (if entry.1.dropLast = place then entry.1.getLast?.map fun name => (name, entry.2)
        else none) → entry = (place ++ [read.1], read.2) := by
    intro entry read h
    split_ifs at h with hplace
    · obtain ⟨name, hname, rfl⟩ := Option.map_eq_some_iff.mp h
      obtain ⟨front, hfront⟩ := List.getLast?_eq_some_iff.mp hname
      rw [hfront, List.dropLast_concat] at hplace
      exact Prod.ext (hplace ▸ hfront) rfl
    · cases h
  apply List.Nodup.filterMap
  · intro entry entry' read h h'
    exact (hread h).trans (hread h').symm
  · exact List.Nodup.of_map _ tree.nodup

theorem nodup_visibleDirs (place : Location) : (visibleDirs tree place).Nodup := by
  have hvisible : ∀ {entry : Text × FileType} {name : Text},
      name ∈ visibleOf entry → entry = (name, .dir) := by
    intro entry name h
    rw [visibleOf] at h
    split_ifs at h with hdir
    · cases h
      exact Prod.ext rfl hdir.1
    · cases h
  apply List.Nodup.filterMap
  · intro entry entry' name h h'
    exact (hvisible h).trans (hvisible h').symm
  · exact nodup_readDir place

theorem nodup_ggufsIn (place : Location) (base : Text) :
    (ggufsIn lowercase tree place base).Nodup := by
  have hgguf : ∀ {entry : Text × FileType} {file : GgufFile},
      file ∈ ggufOf lowercase place base entry → entry = (file.name, .file file.sizeBytes) := by
    intro entry file h
    rw [ggufOf] at h
    split at h
    · rename_i size htype _
      split_ifs at h
      · cases h
        exact Prod.ext rfl htype
      · cases h
    · cases h
  apply List.Nodup.filterMap
  · intro entry entry' file h h'
    exact (hgguf h).trans (hgguf h').symm
  · exact nodup_readDir place

/-- No file is found twice. -/
theorem nodup_collect (left : ℕ) (place : Location) (names : List Text) :
    (collect lowercase tree left place (relativePath names)).ggufs.Nodup := by
  induction left generalizing place names with
  | zero => exact nodup_ggufsIn place _
  | succ left ih =>
      have hbelow {sub : Text} {file : GgufFile} (h : file ∈ (collect lowercase tree left
          (place ++ [sub]) (joinRelative (relativePath names) sub)).ggufs) :
          ∃ above name, file.path = place ++ [sub] ++ above ++ [name] := by
        rw [← relativePath_concat] at h
        obtain ⟨above, name, size, -, -, -, -, rfl⟩ := mem_collect_iff.mp h
        exact ⟨above, name, rfl⟩
      rw [collect]
      dsimp only
      rw [List.flatMap_map]
      apply List.Nodup.append (nodup_ggufsIn place _)
      · apply List.nodup_flatMap.mpr
        constructor
        · intro sub _
          rw [← relativePath_concat]
          exact ih (place ++ [sub]) (names ++ [sub])
        · apply (List.nodup_reverse.mpr (nodup_visibleDirs place)).imp
          intro sub sub' hne file hfile hfile'
          obtain ⟨above, name, hpath⟩ := hbelow hfile
          obtain ⟨above', name', hpath'⟩ := hbelow hfile'
          rw [hpath] at hpath'
          simp only [List.append_assoc, List.append_cancel_left_eq, List.cons_append,
            List.cons.injEq] at hpath'
          exact hne hpath'.1
      · intro file hfile hlater
        obtain ⟨name, size, -, -, rfl⟩ := mem_ggufsIn.mp hfile
        obtain ⟨sub, -, hsub⟩ := List.mem_flatMap.mp hlater
        obtain ⟨above, last, hpath⟩ := hbelow hsub
        have hlength := congrArg List.length hpath
        simp only [List.length_append, List.length_cons, List.length_nil] at hlength
        omega

/-- What is found in one directory is what is read there. -/
theorem filter_collect_perm {left : ℕ} {root above : Location} {names : List Text}
    (hlength : above.length ≤ left) (habove : ∀ dir ∈ above, dir.head? ≠ some '.') :
    ((collect lowercase tree left root (relativePath names)).ggufs.filter fun file =>
        file.path.dropLast = root ++ above).Perm
      (ggufsIn lowercase tree (root ++ above) (relativePath (names ++ above))) := by
  rw [List.perm_ext_iff_of_nodup ((nodup_collect left root names).filter _) (nodup_ggufsIn _ _)]
  intro file
  rw [List.mem_filter, mem_collect_iff, mem_ggufsIn, decide_eq_true_eq]
  constructor
  · rintro ⟨⟨above', name, size, -, -, hentry, hname, rfl⟩, hdir⟩
    rw [List.dropLast_concat, List.append_cancel_left_eq] at hdir
    subst hdir
    exact ⟨name, size, hentry, hname, by rw [relativePath_concat]⟩
  · rintro ⟨name, size, hentry, hname, rfl⟩
    refine ⟨⟨above, name, size, hlength, habove, hentry, hname, ?_⟩, List.dropLast_concat⟩
    rw [relativePath_concat]

/-! ## Complete models -/

section Shards

variable (lowercase) (tree)

instance (name : Text) : Decidable (isGgufName lowercase name) :=
  inferInstanceAs (Decidable (_ ∧ _))

/-- A name is that of a shard of a set. -/
def isMember (base : Text) (total : ℕ) (name : Text) : Bool :=
  match splitShard lowercase name with
  | some (other, index, count) => other = base && count = total && 1 ≤ index && index ≤ total
  | none => false

/-- The shards of a set in a directory, with their sizes. -/
def shardSet (dir : Location) (base : Text) (total : ℕ) : List (Text × ℕ) :=
  (tree.readDir dir).filterMap fun entry =>
    match entry.2 with
    | .file size =>
        if isGgufName lowercase entry.1 ∧ isMember lowercase base total entry.1 then
          some (entry.1, size)
        else none
    | _ => none

/-- All shards of a set are in a directory, and none is still being downloaded there. -/
structure SetComplete (dir : Location) (base : Text) (total : ℕ) : Prop where
  present : ∀ index, 1 ≤ index → index ≤ total → ∃ shard ∈ shardSet lowercase tree dir base total,
    splitShard lowercase shard.1 = some (base, index, total)
  finished : ∀ name size, (dir ++ [name ++ ".partial".toList], .file size) ∈ tree.entries →
    isMember lowercase base total name = false

/-- A file in a directory can be loaded, and this is the size of what is loaded: it is no shard,
or the first one of a complete set. -/
def CompleteFile (dir : Location) (name : Text) (loaded : ℕ) : Prop :=
  ∃ size, (dir ++ [name], .file size) ∈ tree.entries ∧ isGgufName lowercase name ∧
    (splitShard lowercase name = none ∧ loaded = size ∨
      ∃ base total, splitShard lowercase name = some (base, 1, total) ∧ 1 ≤ total ∧
        SetComplete lowercase tree dir base total ∧
        loaded = ((shardSet lowercase tree dir base total).map Prod.snd).sum)

/-- A discovered model stands for a file that can be loaded. -/
def CompleteModel (found : DiscoveredModel) : Prop :=
  ∃ name above last, found.id = String.ofList name ∧
    found.filename = String.ofList (relativePath (above ++ [last])) ∧
    CompleteFile lowercase tree ([name] ++ above) last found.sizeBytes

end Shards

/-- The names that a model is found by are determined by what is reported of it. -/
theorem completeModel_iff {found : DiscoveredModel} {name last : Text} {above : List Text}
    {type : FileType} (hentry : ([name] ++ above ++ [last], type) ∈ tree.entries)
    (hid : found.id = String.ofList name)
    (hfilename : found.filename = String.ofList (relativePath (above ++ [last]))) :
    CompleteModel lowercase tree found ↔
      CompleteFile lowercase tree ([name] ++ above) last found.sizeBytes := by
  have hvalid {above : List Text} {name last : Text} {type : FileType}
      (h : ([name] ++ above ++ [last], type) ∈ tree.entries) :
      segments (relativePath (above ++ [last])) = above ++ [last] := by
    refine (segments_relativePath (by simp) ?_).2
    intro other hother
    apply tree.named _ h
    rw [List.append_assoc]
    exact List.mem_append_right _ hother
  constructor
  · rintro ⟨name', above', last', hid', hfilename', hcomplete⟩
    obtain rfl : name = name' := String.ofList_injective (hid.symm.trans hid')
    have hpaths : relativePath (above ++ [last]) = relativePath (above' ++ [last']) :=
      String.ofList_injective (hfilename.symm.trans hfilename')
    obtain ⟨size, hentry', -⟩ := id hcomplete
    have hnames := congrArg segments hpaths
    rw [hvalid hentry, hvalid hentry'] at hnames
    obtain ⟨rfl, hlast⟩ := List.append_inj' hnames rfl
    obtain rfl := List.singleton_inj.mp hlast
    exact hcomplete
  · exact fun hcomplete => ⟨name, above, last, hid, hfilename, hcomplete⟩

/-! ## The file that is chosen -/

variable (lowercase) in
/-- The index of a shard. -/
def shardIndex (name : Text) : ℕ :=
  match splitShard lowercase name with
  | some shard => shard.2.1
  | none => 0

variable (lowercase) in
/-- A file is the first of those with the least index. -/
def FirstShard (files : List GgufFile) (file : GgufFile) : Prop :=
  ∃ before after, files = before ++ file :: after ∧
    (∀ other ∈ before, shardIndex lowercase file.name < shardIndex lowercase other.name) ∧
    ∀ other ∈ after, shardIndex lowercase file.name ≤ shardIndex lowercase other.name

variable {files : List GgufFile} {file : GgufFile}

theorem shardOf_eq_none_iff {name : Text} :
    shardOf lowercase name = none ↔ splitShard lowercase name = none :=
  Option.map_eq_none_iff

/-- A file that is no shard is preferred. -/
theorem pickGguf_of_unsharded (h : ∃ file ∈ files, splitShard lowercase file.name = none)
    (hchosen : pickGguf lowercase files = some file) : splitShard lowercase file.name = none := by
  obtain ⟨other, hother, hname⟩ := h
  rw [pickGguf] at hchosen
  split at hchosen
  · cases hchosen
    have hnone := (List.mem_filter.mp (mem_of_maxByKey ‹_›)).2
    exact shardOf_eq_none_iff.mp (Option.isNone_iff_eq_none.mp hnone)
  · have hmem : other ∈ files.filter fun file => (shardOf lowercase file.name).isNone :=
      List.mem_filter.mpr ⟨hother, Option.isNone_iff_eq_none.mpr (shardOf_eq_none_iff.mpr hname)⟩
    rename_i hempty
    rw [maxByKey_eq_none_iff.mp hempty] at hmem
    cases hmem

/-- Among shards the first of those with the least index is chosen. -/
theorem pickGguf_of_sharded (h : ∀ file ∈ files, splitShard lowercase file.name ≠ none) :
    pickGguf lowercase files = some file ↔ FirstShard lowercase files file := by
  have hnone : (files.filter fun file => (shardOf lowercase file.name).isNone) = [] := by
    rw [List.filter_eq_nil_iff]
    intro other hother hname
    exact h other hother (shardOf_eq_none_iff.mp (Option.isNone_iff_eq_none.mp hname))
  have hshards : (files.filterMap fun file =>
      (shardOf lowercase file.name).map fun shard => (file, shard.2)) =
        files.map fun file => (file, shardIndex lowercase file.name) := by
    rw [← List.filterMap_eq_map]
    apply List.filterMap_congr
    intro other hother
    obtain ⟨shard, hshard⟩ := Option.ne_none_iff_exists'.mp (h other hother)
    simp [shardOf, shardIndex, hshard]
  have hpick : pickGguf lowercase files =
      (minByKey Prod.snd (files.map fun file => (file, shardIndex lowercase file.name))).map
        Prod.fst := by
    rw [pickGguf, hnone, hshards]
    rfl
  rw [hpick, Option.map_eq_some_iff]
  constructor
  · rintro ⟨⟨_, index⟩, hleast, rfl⟩
    obtain ⟨before, after, hsplit, hbefore, hafter⟩ := minByKey_eq_some_iff.mp hleast
    obtain ⟨before', rest, rfl, rfl, hrest⟩ := List.map_eq_append_iff.mp hsplit
    obtain ⟨chosen, after', rfl, hchosen, rfl⟩ := List.map_eq_cons_iff.mp hrest
    cases hchosen
    refine ⟨before', after', rfl, ?_, ?_⟩
    · exact fun other hother => hbefore _ (List.mem_map_of_mem hother)
    · exact fun other hother => hafter _ (List.mem_map_of_mem hother)
  · rintro ⟨before, after, rfl, hbefore, hafter⟩
    refine ⟨(file, shardIndex lowercase file.name), minByKey_eq_some_iff.mpr ?_, rfl⟩
    refine ⟨_, _, by rw [List.map_append, List.map_cons], ?_, ?_⟩
    · exact List.forall_mem_map.mpr hbefore
    · exact List.forall_mem_map.mpr hafter

/-! ## The size that is reported -/

variable (lowercase) in
/-- Files with the prefix of a set that are not in the set or not in its directory. -/
def strays (files : List GgufFile) (dir : Location) (base : Text) (total : ℕ) : List GgufFile :=
  (files.filter fun other => (shardOf lowercase other.name).any fun shard => shard.1 = base).filter
    fun other => !(decide (other.path.dropLast = dir) && isMember lowercase base total other.name)

/-- The shards of a set are those among the files of its directory. -/
theorem shardSet_eq (dir : Location) (base : Text) (total : ℕ) (relative : Text) :
    shardSet lowercase tree dir base total =
      ((ggufsIn lowercase tree dir relative).filter fun file =>
        isMember lowercase base total file.name).map fun file => (file.name, file.sizeBytes) := by
  rw [shardSet, ggufsIn]
  induction tree.readDir dir with
  | nil => rfl
  | cons entry entries ih =>
      obtain ⟨name, type⟩ := entry
      rw [List.filterMap_cons, List.filterMap_cons, ih]
      cases type with
      | dir | other => simp [ggufOf]
      | file size =>
          dsimp only
          by_cases hname : isGgufName lowercase name
          · have hgguf : ggufOf lowercase dir relative (name, .file size) =
                some ⟨dir ++ [name], joinRelative relative name, name, size⟩ := by
              rw [ggufOf]
              dsimp only
              rw [hname.1]
              exact if_pos hname.2
            rw [hgguf]
            cases hmember : isMember lowercase base total name <;> simp [hname, hmember]
          · have hgguf : ggufOf lowercase dir relative (name, .file size) = none := by
              rw [ggufOf]
              split
              · rename_i hunfinished
                exact if_neg fun hsuffix => hname ⟨hunfinished, hsuffix⟩
              · rfl
            rw [hgguf, if_neg fun h => hname h.1]

/-- A member of a set has its prefix. -/
theorem any_of_isMember {base name : Text} {total : ℕ}
    (h : isMember lowercase base total name = true) :
    ((shardOf lowercase name).any fun shard => shard.1 = base) = true := by
  rw [isMember] at h
  split at h
  · rename_i other index count hshard
    simp only [Bool.and_eq_true, decide_eq_true_eq] at h
    simp [shardOf, hshard, h.1.1.1]
  · cases h

/-- **The reported size** is that of the set and the strays. -/
theorem chosenSize_eq {left : ℕ} {root above : Location} {names : List Text} {base : Text}
    {index total : ℕ} (hlength : above.length ≤ left) (habove : ∀ dir ∈ above, dir.head? ≠ some '.')
    (hshard : splitShard lowercase file.name = some (base, index, total))
    (hfiles : files = (collect lowercase tree left root (relativePath names)).ggufs) :
    chosenSize lowercase files file =
      (((shardSet lowercase tree (root ++ above) base total).map Prod.snd).sum +
        ((strays lowercase files (root ++ above) base total).map GgufFile.sizeBytes).sum) %
          18446744073709551616 := by
  have hof : shardOf lowercase file.name = some (base, index) := by rw [shardOf, hshard]; rfl
  let samePrefix (other : GgufFile) : Bool :=
    (shardOf lowercase other.name).any fun shard => shard.1 = base
  let inSet (other : GgufFile) : Bool :=
    decide (other.path.dropLast = root ++ above) && isMember lowercase base total other.name
  have hset : (((files.filter samePrefix).filter inSet).map GgufFile.sizeBytes).sum =
      ((shardSet lowercase tree (root ++ above) base total).map Prod.snd).sum := by
    have hperm := (@filter_collect_perm lowercase tree left root above names hlength habove).filter
      (fun other => isMember lowercase base total other.name)
    have hfilter : (files.filter samePrefix).filter inSet =
        (files.filter fun other => decide (other.path.dropLast = root ++ above)).filter
          fun other => isMember lowercase base total other.name := by
      rw [List.filter_filter, List.filter_filter]
      apply List.filter_congr
      intro other _
      cases hmember : isMember lowercase base total other.name with
      | false => simp [inSet, hmember]
      | true =>
          have hsame : samePrefix other = true := any_of_isMember hmember
          simp [inSet, hmember, hsame]
    rw [hfilter, hfiles, (hperm.map GgufFile.sizeBytes).sum_nat,
      shardSet_eq _ _ _ (relativePath (names ++ above)), List.map_map]
    rfl
  have hsplit := ((List.filter_append_perm inSet (files.filter samePrefix)).map
    GgufFile.sizeBytes).sum_nat
  rw [List.map_append, List.sum_append, hset] at hsplit
  rw [chosenSize, hof]
  dsimp only
  rw [← hsplit]
  rfl

/-! ## When discovery finds complete models only -/

section Condition

variable (lowercase) (tree)

/-- The shard of least index that is listed first can stand for its set: it has index 1, its set
is complete where it is, and no other shard with its prefix has a size. -/
structure LeadsItsSet (files : List GgufFile) (file : GgufFile) (base : Text) (index total : ℕ) :
    Prop where
  first : index = 1
  total_pos : 1 ≤ total
  complete : SetComplete lowercase tree file.path.dropLast base total
  fits : ((shardSet lowercase tree file.path.dropLast base total).map Prod.snd).sum <
    18446744073709551616
  alone : ((strays lowercase files file.path.dropLast base total).map GgufFile.sizeBytes).sum %
    18446744073709551616 = 0

/-- A model's directory has a GGUF file that is no shard, or its first shard leads its set. -/
def Loadable (root : Location) : Prop :=
  (∃ file ∈ (scanModelDir lowercase tree root).ggufs, splitShard lowercase file.name = none) ∨
    ∀ file base index total, FirstShard lowercase (scanModelDir lowercase tree root).ggufs file →
      splitShard lowercase file.name = some (base, index, total) →
        LeadsItsSet lowercase tree (scanModelDir lowercase tree root).ggufs file base index total

end Condition

/-- A file of a set that leads it is complete, with the size that is reported for it, and only
then. -/
theorem completeFile_iff_leads {root above : Location} {name base : Text} {index total size : ℕ}
    (hlength : above.length ≤ maxModelScanDepth) (habove : ∀ dir ∈ above, dir.head? ≠ some '.')
    (hentry : (root ++ above ++ [name], .file size) ∈ tree.entries)
    (hname : isGgufName lowercase name)
    (hfile : file.path = root ++ above ++ [name] ∧ file.name = name)
    (hshard : splitShard lowercase name = some (base, index, total)) :
    CompleteFile lowercase tree (root ++ above) name
        (chosenSize lowercase (scanModelDir lowercase tree root).ggufs file) ↔
      LeadsItsSet lowercase tree (scanModelDir lowercase tree root).ggufs file base index total := by
  obtain ⟨hpath, rfl⟩ := hfile
  have hdir : file.path.dropLast = root ++ above := by rw [hpath, List.dropLast_concat]
  have hsize := @chosenSize_eq lowercase tree _ file _ root above [] base index total hlength habove
    hshard (ggufs_scanModelDir root)
  rw [hsize]
  constructor
  · rintro ⟨_, -, -, ⟨hnone, -⟩ | ⟨base', total', hshard', hpos, hcomplete, hloaded⟩⟩
    · rw [hshard] at hnone
      cases hnone
    · rw [hshard] at hshard'
      cases hshard'
      constructor
      · rfl
      · exact hpos
      · rwa [hdir]
      · rw [hdir]
        omega
      · rw [hdir]
        omega
  · rintro ⟨rfl, hpos, hcomplete, hfits, halone⟩
    rw [hdir] at hcomplete hfits halone
    refine ⟨size, hentry, hname, Or.inr ⟨base, total, hshard, hpos, hcomplete, ?_⟩⟩
    omega

/-- What is discovered in a directory. -/
theorem discoverModel_eq_some_iff {name : Text} {found : DiscoveredModel} :
    discoverModel lowercase tree name = some found ↔
      ∃ file, pickGguf lowercase (scanModelDir lowercase tree [name]).ggufs = some file ∧
        found = ⟨String.ofList name, String.ofList file.relative,
          chosenSize lowercase (scanModelDir lowercase tree [name]).ggufs file⟩ := by
  rw [discoverModel, Option.map_eq_some_iff]
  exact exists_congr fun file => and_congr_right fun _ => eq_comm

/-- The model in one directory is complete exactly if the directory is loadable. -/
theorem complete_iff_loadable {name : Text} :
    (∀ found, discoverModel lowercase tree name = some found → CompleteModel lowercase tree found) ↔
      Loadable lowercase tree [name] := by
  have hfound {file : GgufFile} (hfile : file ∈ (scanModelDir lowercase tree [name]).ggufs) :
      ∃ above last size, above.length ≤ maxModelScanDepth ∧
        (∀ dir ∈ above, dir.head? ≠ some '.') ∧
        ([name] ++ above ++ [last], .file size) ∈ tree.entries ∧ isGgufName lowercase last ∧
        file = ⟨[name] ++ above ++ [last], relativePath (above ++ [last]), last, size⟩ := by
    rw [ggufs_scanModelDir] at hfile
    exact (@mem_collect_iff lowercase tree [name] file maxModelScanDepth []).mp hfile
  constructor
  · intro hcomplete
    by_cases hunsharded : ∃ file ∈ (scanModelDir lowercase tree [name]).ggufs,
        splitShard lowercase file.name = none
    · exact Or.inl hunsharded
    · apply Or.inr
      intro file base index total hfirst hshard
      have hall : ∀ file ∈ (scanModelDir lowercase tree [name]).ggufs,
          splitShard lowercase file.name ≠ none := fun file hfile hnone =>
        hunsharded ⟨file, hfile, hnone⟩
      have hpick := (pickGguf_of_sharded hall).mpr hfirst
      obtain ⟨above, last, size, hlength, habove, hentry, hname, rfl⟩ :=
        hfound (mem_of_pickGguf hpick)
      have hmodel := hcomplete _ (discoverModel_eq_some_iff.mpr ⟨_, hpick, rfl⟩)
      rw [completeModel_iff hentry rfl rfl] at hmodel
      exact (completeFile_iff_leads hlength habove hentry hname ⟨rfl, rfl⟩ hshard).mp hmodel
  · intro hloadable found hdiscovered
    obtain ⟨file, hpick, rfl⟩ := discoverModel_eq_some_iff.mp hdiscovered
    obtain ⟨above, last, size, hlength, habove, hentry, hname, rfl⟩ :=
      hfound (mem_of_pickGguf hpick)
    rw [completeModel_iff hentry rfl rfl]
    cases hshard : splitShard lowercase last with
    | none =>
        refine ⟨size, hentry, hname, Or.inl ⟨hshard, ?_⟩⟩
        rw [chosenSize]
        dsimp only
        rw [shardOf_eq_none_iff.mpr hshard]
    | some shard =>
        have hall : ∀ file ∈ (scanModelDir lowercase tree [name]).ggufs,
            splitShard lowercase file.name ≠ none := by
          intro other hother hnone
          have hchosen := pickGguf_of_unsharded ⟨other, hother, hnone⟩ hpick
          rw [hshard] at hchosen
          cases hchosen
        have hleads := hloadable.resolve_left (fun ⟨other, hother, hnone⟩ => hall other hother hnone)
          _ shard.1 shard.2.1 shard.2.2 ((pickGguf_of_sharded hall).mp hpick) hshard
        exact (completeFile_iff_leads hlength habove hentry hname ⟨rfl, rfl⟩ hshard).mpr hleads

/-- **Discovery finds complete models only** exactly if each visible directory is loadable. -/
theorem discovered_complete_iff (lowercase : Text → Text) (tree : DirTree) :
    (∀ found ∈ discoverModels lowercase tree, CompleteModel lowercase tree found) ↔
      ∀ name ∈ visibleDirs tree [], Loadable lowercase tree [name] := by
  have hmem (found : DiscoveredModel) : found ∈ discoverModels lowercase tree ↔
      ∃ name ∈ visibleDirs tree [], discoverModel lowercase tree name = some found := by
    rw [discoverModels, mem_sortBy, List.mem_filterMap]
  constructor
  · intro h name hname
    exact complete_iff_loadable.mp fun found hfound => h found ((hmem found).mpr ⟨name, hname, hfound⟩)
  · intro h found hfound
    obtain ⟨name, hname, hmodel⟩ := (hmem found).mp hfound
    exact complete_iff_loadable.mpr (h name hname) found hmodel

/-- A set of two shards of which only the second one is there. -/
def halfSet : DirTree where
  entries := [([['m']], .dir), ([['m'], "a-00002-of-00002.gguf".toList], .file 7)]
  nodup := by decide
  below := by decide
  named := by decide
  parents := by decide

/-- It is discovered as a model. -/
theorem incomplete_discovered :
    ∃ found ∈ discoverModels (List.map Char.toLower) halfSet,
      ¬ CompleteModel (List.map Char.toLower) halfSet found := by
  have hshard : splitShard (List.map Char.toLower) "a-00002-of-00002.gguf".toList =
      some (['a'], 2, 2) := by decide
  have hentry : ([['m']] ++ [] ++ ["a-00002-of-00002.gguf".toList], FileType.file 7) ∈
      halfSet.entries := by decide
  refine ⟨⟨"m", "a-00002-of-00002.gguf", 7⟩, by decide, ?_⟩
  rw [completeModel_iff hentry rfl (by decide)]
  rintro ⟨size, -, -, ⟨hnone, -⟩ | ⟨base, total, hfirst, -⟩⟩
  · rw [hshard] at hnone
    cases hnone
  · rw [hshard] at hfirst
    cases hfirst

end HiveBear.Registry
