/-
# The models on disk

Every visible directory below that of the models may hold a model. Its GGUF files are collected
down to a fixed depth, in the order in which the directories are read, and one of them stands
for the model: the largest that is no shard, or else the first shard.

The scan keeps a stack of directories. `collect` says the same by recursion, and `mem_collect_iff`
says which files it finds.
-/

import HiveBear.Library.DirTree
import HiveBear.Library.Selection
import HiveBear.Library.StableSort
import HiveBear.Library.Texts
import HiveBear.Registry.Install
import Mathlib.Algebra.GroupWithZero.Nat
import Mathlib.Algebra.Order.BigOperators.Group.List

namespace HiveBear.Registry

open Paths Selection StableSort Texts

/-! ## Shard names -/

section Names

variable (lowercase : Text → Text)

/-- Five digits. -/
def isShardNumber (text : Text) : Bool := text.length = 5 && text.all Char.isDigit

def parseNumber (text : Text) : ℕ := text.foldl (fun n c => 10 * n + (c.toNat - 48)) 0

/-- Take a name like `<prefix>-<NNNNN>-of-<MMMMM>.gguf` apart, into its prefix, its index and
the number of shards. -/
def splitShard (filename : Text) : Option (Text × ℕ × ℕ) := do
  let stem ← stripSuffix ".gguf".toList (lowercase filename)
  let (head, total) ← rsplitOnce "-of-".toList stem
  if isShardNumber total then
    let (base, index) ← rsplitOnce ['-'] head
    if isShardNumber index then some (base, parseNumber index, parseNumber total) else none
  else none

/-- The prefix and the index of a shard. -/
def shardOf (filename : Text) : Option (Text × ℕ) :=
  (splitShard lowercase filename).map fun shard => (shard.1, shard.2.1)

example : splitShard id "m-00002-of-00003.gguf".toList = some (['m'], 2, 3) := by decide

end Names

/-! ## The scan of a model's directory -/

/-- A GGUF file. -/
structure GgufFile where
  /-- Where it is, below the directory of the models. -/
  path : Location
  /-- Its path from the directory of its model. -/
  relative : Text
  name : Text
  sizeBytes : ℕ
  deriving DecidableEq

/-- What a scan finds. -/
structure DirScan where
  ggufs : List GgufFile
  /-- Unfinished downloads. -/
  partials : List Text

/-- A directory that is still to be read, with its path from the model's directory. -/
structure PendingDir where
  place : Location
  base : Text
  depth : ℕ

section Scan

variable (lowercase : Text → Text) (tree : DirTree)

/-- What one name in a directory adds to the stack and to the scan. -/
def visit (dir : PendingDir) (state : List PendingDir × DirScan) (entry : Text × FileType) :
    List PendingDir × DirScan :=
  match entry.2 with
  | .dir =>
      if dir.depth < maxModelScanDepth ∧ entry.1.head? ≠ some '.' then
        (⟨dir.place ++ [entry.1], joinRelative dir.base entry.1, dir.depth + 1⟩ :: state.1, state.2)
      else state
  | .other => state
  | .file size =>
      match stripSuffix ".partial".toList entry.1 with
      | some unfinished =>
          (state.1, { state.2 with
            partials := state.2.partials ++ [joinRelative dir.base unfinished] })
      | none =>
          if ".gguf".toList <:+ lowercase entry.1 then
            (state.1, { state.2 with
              ggufs := state.2.ggufs ++
                [⟨dir.place ++ [entry.1], joinRelative dir.base entry.1, entry.1, size⟩] })
          else state

/-- Read the directories on the stack, one after the other. -/
def scanLoop : ℕ → List PendingDir → DirScan → DirScan
  | 0, _, scan => scan
  | _ + 1, [], scan => scan
  | fuel + 1, dir :: stack, scan =>
      let state := (tree.readDir dir.place).foldl (visit lowercase dir) (stack, scan)
      scanLoop fuel state.1 state.2

/-- A directory that is not hidden. -/
def visibleOf (entry : Text × FileType) : Option Text :=
  if entry.2 = .dir ∧ entry.1.head? ≠ some '.' then some entry.1 else none

/-- The directories that are entered from a directory. -/
def visibleDirs (place : Location) : List Text := (tree.readDir place).filterMap visibleOf

/-- How many directories are read from a directory on, to a depth. -/
def visits : ℕ → Location → ℕ
  | 0, _ => 1
  | left + 1, place =>
      1 + ((visibleDirs tree place).map fun name => visits left (place ++ [name])).sum

/-- Texts in the order of their characters. -/
def compareTexts (a b : Text) : Ordering := compareOfLessAndEq a b

/-- Scan a model's directory. -/
def scanModelDir (root : Location) : DirScan :=
  let scan := scanLoop lowercase tree (visits tree maxModelScanDepth root) [⟨root, [], 0⟩] ⟨[], []⟩
  { scan with partials := sortBy compareTexts scan.partials }

/-! ## The scan by recursion -/

/-- A GGUF file that is complete. -/
def ggufOf (place : Location) (base : Text) (entry : Text × FileType) : Option GgufFile :=
  match entry.2, stripSuffix ".partial".toList entry.1 with
  | .file size, none =>
      if ".gguf".toList <:+ lowercase entry.1 then
        some ⟨place ++ [entry.1], joinRelative base entry.1, entry.1, size⟩
      else none
  | _, _ => none

/-- An unfinished download. -/
def unfinishedOf (base : Text) (entry : Text × FileType) : Option Text :=
  match entry.2 with
  | .file _ => (stripSuffix ".partial".toList entry.1).map (joinRelative base)
  | _ => none

/-- The GGUF files in a directory. -/
def ggufsIn (place : Location) (base : Text) : List GgufFile :=
  (tree.readDir place).filterMap (ggufOf lowercase place base)

/-- The unfinished downloads in a directory. -/
def partialsIn (place : Location) (base : Text) : List Text :=
  (tree.readDir place).filterMap (unfinishedOf base)

/-- What is found from a directory on, to a depth. The directory read last is entered first. -/
def collect : ℕ → Location → Text → DirScan
  | 0, place, base => ⟨ggufsIn lowercase tree place base, partialsIn tree place base⟩
  | left + 1, place, base =>
      let below := (visibleDirs tree place).reverse.map fun name =>
        collect left (place ++ [name]) (joinRelative base name)
      ⟨ggufsIn lowercase tree place base ++ below.flatMap DirScan.ggufs,
        partialsIn tree place base ++ below.flatMap DirScan.partials⟩

variable {lowercase tree}

/-- The directories that a name puts on the stack. -/
def pendingOf (dir : PendingDir) (names : List Text) : List PendingDir :=
  if dir.depth < maxModelScanDepth then
    names.map fun name => ⟨dir.place ++ [name], joinRelative dir.base name, dir.depth + 1⟩
  else []

/-- What one name adds. -/
theorem visit_eq (dir : PendingDir) (stack : List PendingDir) (scan : DirScan)
    (entry : Text × FileType) :
    visit lowercase dir (stack, scan) entry =
      (pendingOf dir (visibleOf entry).toList ++ stack,
        ⟨scan.ggufs ++ (ggufOf lowercase dir.place dir.base entry).toList,
          scan.partials ++ (unfinishedOf dir.base entry).toList⟩) := by
  obtain ⟨name, type⟩ := entry
  cases type with
  | dir =>
      rw [visit, ggufOf, unfinishedOf, visibleOf, pendingOf]
      by_cases hvisible : name.head? = some '.' <;>
        by_cases hdepth : dir.depth < maxModelScanDepth <;> simp [hvisible, hdepth]
  | other => simp [visit, ggufOf, unfinishedOf, visibleOf, pendingOf]
  | file size =>
      rw [visit, ggufOf, unfinishedOf, visibleOf, pendingOf]
      generalize stripSuffix ".partial".toList name = unfinished
      cases unfinished with
      | some unfinished => simp
      | none =>
          have hfile : ¬ (FileType.file size = .dir ∧ name.head? ≠ some '.') := fun h => nomatch h.1
          dsimp only
          rw [if_neg hfile]
          split_ifs <;> simp

theorem pendingOf_append (dir : PendingDir) (names names' : List Text) :
    pendingOf dir (names ++ names') = pendingOf dir names ++ pendingOf dir names' := by
  rw [pendingOf, pendingOf, pendingOf]
  split_ifs
  · exact List.map_append
  · rfl

/-- What the names of a directory add together. -/
theorem foldl_visit (dir : PendingDir) (stack : List PendingDir) (scan : DirScan) :
    (tree.readDir dir.place).foldl (visit lowercase dir) (stack, scan) =
      (pendingOf dir (visibleDirs tree dir.place).reverse ++ stack,
        ⟨scan.ggufs ++ ggufsIn lowercase tree dir.place dir.base,
          scan.partials ++ partialsIn tree dir.place dir.base⟩) := by
  rw [visibleDirs, ggufsIn, partialsIn]
  induction tree.readDir dir.place generalizing stack scan with
  | nil => simp [pendingOf]
  | cons entry entries ih =>
      have hcons {β : Type} (f : Text × FileType → Option β) :
          (entry :: entries).filterMap f = (f entry).toList ++ entries.filterMap f := by
        rw [List.filterMap_cons]
        cases f entry <;> rfl
      have hreverse : (visibleOf entry).toList.reverse = (visibleOf entry).toList := by
        cases visibleOf entry <;> rfl
      rw [List.foldl_cons, visit_eq, ih, hcons, hcons, hcons, List.reverse_append, hreverse,
        pendingOf_append]
      simp

/-- The directories on the stack are read to the depth that is left for them. -/
def Reaches (dir : PendingDir) (left : ℕ) : Prop := dir.depth + left = maxModelScanDepth

/-- What the directories on a stack hold, with what is left to do for each. -/
def collectAll (lowercase : Text → Text) (tree : DirTree) (stack : List (PendingDir × ℕ)) :
    DirScan :=
  let scans := stack.map fun dir => collect lowercase tree dir.2 dir.1.place dir.1.base
  ⟨scans.flatMap DirScan.ggufs, scans.flatMap DirScan.partials⟩

theorem scanLoop_nil (fuel : ℕ) (scan : DirScan) : scanLoop lowercase tree fuel [] scan = scan := by
  cases fuel <;> rfl

/-- **The loop with the stack** finds what the recursion finds, in the same order. -/
theorem scanLoop_eq {stack : List (PendingDir × ℕ)} (hstack : ∀ dir ∈ stack, Reaches dir.1 dir.2)
    {fuel : ℕ} (hfuel : (stack.map fun dir => visits tree dir.2 dir.1.place).sum ≤ fuel)
    (scan : DirScan) :
    scanLoop lowercase tree fuel (stack.map Prod.fst) scan =
      ⟨scan.ggufs ++ (collectAll lowercase tree stack).ggufs,
        scan.partials ++ (collectAll lowercase tree stack).partials⟩ := by
  induction fuel generalizing stack scan with
  | zero =>
      cases stack with
      | nil => simp [scanLoop, collectAll]
      | cons dir stack =>
          have hpos : 0 < visits tree dir.2 dir.1.place := by
            cases dir.2 <;> rw [visits] <;> omega
          simp only [List.map_cons, List.sum_cons] at hfuel
          omega
  | succ fuel ih =>
      cases stack with
      | nil => simp [scanLoop, collectAll]
      | cons dir stack =>
          obtain ⟨dir, left⟩ := dir
          obtain ⟨hdir, hrest⟩ := List.forall_mem_cons.mp hstack
          have hleft : dir.depth + left = maxModelScanDepth := hdir
          simp only [List.map_cons, List.sum_cons] at hfuel
          rw [List.map_cons, scanLoop, foldl_visit]
          cases left with
          | zero =>
              have hdepth : ¬ dir.depth < maxModelScanDepth := by omega
              rw [pendingOf, if_neg hdepth, List.nil_append, ih hrest (by rw [visits] at hfuel; omega)]
              simp [collectAll, collect]
          | succ left =>
              have hdepth : dir.depth < maxModelScanDepth := by omega
              let entered : List (PendingDir × ℕ) := (visibleDirs tree dir.place).reverse.map fun name =>
                (⟨dir.place ++ [name], joinRelative dir.base name, dir.depth + 1⟩, left)
              have hentered : pendingOf dir (visibleDirs tree dir.place).reverse =
                  entered.map Prod.fst := by
                rw [pendingOf, if_pos hdepth, List.map_map]
                rfl
              have hreaches : ∀ below ∈ entered ++ stack, Reaches below.1 below.2 := by
                intro below hbelow
                rcases List.mem_append.mp hbelow with hbelow | hbelow
                · obtain ⟨name, -, rfl⟩ := List.mem_map.mp hbelow
                  exact (Nat.add_right_comm _ _ _).trans hleft
                · exact hrest below hbelow
              rw [hentered, ← List.map_append, ih hreaches ?_]
              · simp [collectAll, collect, entered, List.map_map, Function.comp_def]
              · rw [visits] at hfuel
                have hsum : (entered.map fun below => visits tree below.2 below.1.place).sum =
                    ((visibleDirs tree dir.place).map fun name =>
                      visits tree left (dir.place ++ [name])).sum := by
                  rw [List.map_map, List.map_reverse, List.sum_reverse]
                  rfl
                rw [List.map_append, List.sum_append, hsum]
                omega

/-- What the scan of a model's directory finds. -/
theorem ggufs_scanModelDir (root : Location) :
    (scanModelDir lowercase tree root).ggufs =
      (collect lowercase tree maxModelScanDepth root []).ggufs := by
  have hloop := @scanLoop_eq lowercase tree [(⟨root, [], 0⟩, maxModelScanDepth)]
    (by simp [Reaches]) (visits tree maxModelScanDepth root) (by simp) ⟨[], []⟩
  rw [scanModelDir]
  dsimp only
  rw [List.map_singleton] at hloop
  rw [hloop]
  simp [collectAll]

/-! ## Which files are found -/

variable (lowercase) in
/-- A name of a complete GGUF file. -/
def isGgufName (name : Text) : Prop :=
  stripSuffix ".partial".toList name = none ∧ ".gguf".toList <:+ lowercase name

variable {place : Location} {base : Text} {file : GgufFile}

theorem mem_ggufsIn : file ∈ ggufsIn lowercase tree place base ↔
    ∃ name size, (place ++ [name], .file size) ∈ tree.entries ∧ isGgufName lowercase name ∧
      file = ⟨place ++ [name], joinRelative base name, name, size⟩ := by
  rw [ggufsIn, List.mem_filterMap]
  constructor
  · rintro ⟨⟨name, type⟩, hentry, hfile⟩
    rw [ggufOf] at hfile
    split at hfile
    · rename_i size htype hunfinished
      split_ifs at hfile with hgguf
      cases hfile
      obtain rfl : type = .file size := htype
      exact ⟨name, size, DirTree.mem_readDir.mp hentry, ⟨hunfinished, hgguf⟩, rfl⟩
    · cases hfile
  · rintro ⟨name, size, hentry, ⟨hunfinished, hgguf⟩, rfl⟩
    refine ⟨(name, .file size), DirTree.mem_readDir.mpr hentry, ?_⟩
    rw [ggufOf]
    dsimp only
    rw [hunfinished]
    exact if_pos hgguf

theorem mem_visibleDirs {name : Text} : name ∈ visibleDirs tree place ↔
    (place ++ [name], .dir) ∈ tree.entries ∧ name.head? ≠ some '.' := by
  rw [visibleDirs, List.mem_filterMap]
  constructor
  · rintro ⟨⟨other, type⟩, hentry, hvisible⟩
    rw [visibleOf] at hvisible
    split_ifs at hvisible with hdir
    cases hvisible
    obtain ⟨rfl, hhead⟩ := hdir
    exact ⟨DirTree.mem_readDir.mp hentry, hhead⟩
  · rintro ⟨hentry, hhead⟩
    exact ⟨(name, .dir), DirTree.mem_readDir.mpr hentry, if_pos ⟨rfl, hhead⟩⟩

/-- What is found in each directory from one on, to a depth. -/
def collectFrom {β : Type} (tree : DirTree) (here : Location → Text → List β) :
    ℕ → Location → Text → List β
  | 0, place, base => here place base
  | left + 1, place, base =>
      here place base ++ (visibleDirs tree place).reverse.flatMap fun name =>
        collectFrom tree here left (place ++ [name]) (joinRelative base name)

theorem collect_eq_collectFrom (left : ℕ) (place : Location) (base : Text) :
    (collect lowercase tree left place base).ggufs =
        collectFrom tree (ggufsIn lowercase tree) left place base ∧
      (collect lowercase tree left place base).partials =
        collectFrom tree (partialsIn tree) left place base := by
  induction left generalizing place base with
  | zero => exact ⟨rfl, rfl⟩
  | succ left ih =>
      rw [collect, collectFrom, collectFrom]
      dsimp only
      rw [List.flatMap_map, List.flatMap_map]
      constructor
      · exact congrArg _ (List.flatMap_congr fun name _ => (ih _ _).1)
      · exact congrArg _ (List.flatMap_congr fun name _ => (ih _ _).2)

/-- The directories behind a directory are visible, and one stands in the other. -/
structure Enters (tree : DirTree) (place above : Location) : Prop where
  visible : ∀ dir ∈ above, dir.head? ≠ some '.'
  dirs : ∀ part, part ≠ [] → part <+: above → (place ++ part, .dir) ∈ tree.entries

theorem enters_nil (tree : DirTree) (place : Location) : Enters tree place [] where
  visible := List.forall_mem_nil _
  dirs _ hne hpart := absurd (List.prefix_nil.mp hpart) hne

theorem enters_cons {sub : Text} {above : Location} :
    Enters tree place (sub :: above) ↔
      sub ∈ visibleDirs tree place ∧ Enters tree (place ++ [sub]) above := by
  rw [mem_visibleDirs]
  constructor
  · rintro ⟨hvisible, hdirs⟩
    obtain ⟨hsub, habove⟩ := List.forall_mem_cons.mp hvisible
    refine ⟨⟨hdirs [sub] (List.cons_ne_nil _ _) ⟨above, rfl⟩, hsub⟩, habove, ?_⟩
    intro part _ hpart
    have hlonger := hdirs (sub :: part) (List.cons_ne_nil _ _)
      ((List.prefix_cons_inj sub).mpr hpart)
    rwa [List.append_assoc]
  · rintro ⟨⟨hdir, hsub⟩, hvisible, hdirs⟩
    refine ⟨List.forall_mem_cons.mpr ⟨hsub, hvisible⟩, ?_⟩
    intro part hne hpart
    cases part with
    | nil => exact absurd rfl hne
    | cons first rest =>
        obtain ⟨rfl, hrest⟩ := List.cons_prefix_cons.mp hpart
        cases rest with
        | nil => exact hdir
        | cons second rest =>
            have hbelow := hdirs (second :: rest) (List.cons_ne_nil _ _) hrest
            rwa [List.append_assoc] at hbelow

/-- The directories on the way to an entry. -/
theorem enters_of_entry {above : Location} {name : Text} {type : FileType}
    (hvisible : ∀ dir ∈ above, dir.head? ≠ some '.')
    (hentry : (place ++ above ++ [name], type) ∈ tree.entries) : Enters tree place above := by
  refine ⟨hvisible, ?_⟩
  rintro part hne ⟨rest, rfl⟩
  apply DirTree.dir_of_prefix hentry
  · simp [hne]
  · exact ⟨rest ++ [name], by simp⟩
  · simp

/-- **What is collected** is what is found in the directories that are entered. -/
theorem mem_collectFrom_iff {β : Type} {here : Location → Text → List β} {found : β} {left : ℕ}
    {names : List Text} :
    found ∈ collectFrom tree here left place (relativePath names) ↔
      ∃ above, above.length ≤ left ∧ Enters tree place above ∧
        found ∈ here (place ++ above) (relativePath (names ++ above)) := by
  induction left generalizing place names with
  | zero =>
      rw [collectFrom]
      constructor
      · intro hfound
        refine ⟨[], Nat.le_refl 0, enters_nil tree place, ?_⟩
        rwa [List.append_nil, List.append_nil]
      · rintro ⟨above, hlength, -, hfound⟩
        obtain rfl := List.length_eq_zero_iff.mp (Nat.le_zero.mp hlength)
        rwa [List.append_nil, List.append_nil] at hfound
  | succ left ih =>
      rw [collectFrom, List.mem_append]
      constructor
      · rintro (hhere | hbelow)
        · refine ⟨[], Nat.zero_le _, enters_nil tree place, ?_⟩
          rwa [List.append_nil, List.append_nil]
        · obtain ⟨sub, hsub, hfound⟩ := List.mem_flatMap.mp hbelow
          rw [← relativePath_concat, ih] at hfound
          obtain ⟨above, hlength, henters, hfound⟩ := hfound
          refine ⟨sub :: above, Nat.succ_le_succ hlength,
            enters_cons.mpr ⟨List.mem_reverse.mp hsub, henters⟩, ?_⟩
          rwa [List.append_assoc, List.append_assoc] at hfound
      · rintro ⟨above, hlength, henters, hfound⟩
        cases above with
        | nil =>
            apply Or.inl
            rwa [List.append_nil, List.append_nil] at hfound
        | cons sub above =>
            apply Or.inr
            obtain ⟨hsub, habove⟩ := enters_cons.mp henters
            refine List.mem_flatMap.mpr ⟨sub, List.mem_reverse.mpr hsub, ?_⟩
            rw [← relativePath_concat, ih]
            refine ⟨above, Nat.le_of_succ_le_succ hlength, habove, ?_⟩
            rwa [List.append_assoc, List.append_assoc]

/-- **What a scan finds**: the complete GGUF files behind visible directories, not too deep. -/
theorem mem_collect_iff {left : ℕ} {names : List Text} :
    file ∈ (collect lowercase tree left place (relativePath names)).ggufs ↔
      ∃ above name size, above.length ≤ left ∧ (∀ dir ∈ above, dir.head? ≠ some '.') ∧
        (place ++ above ++ [name], .file size) ∈ tree.entries ∧ isGgufName lowercase name ∧
        file = ⟨place ++ above ++ [name], relativePath (names ++ above ++ [name]), name, size⟩ := by
  rw [(collect_eq_collectFrom left place (relativePath names)).1, mem_collectFrom_iff]
  constructor
  · rintro ⟨above, hlength, henters, hfound⟩
    obtain ⟨name, size, hentry, hname, rfl⟩ := mem_ggufsIn.mp hfound
    exact ⟨above, name, size, hlength, henters.visible, hentry, hname, by rw [relativePath_concat]⟩
  · rintro ⟨above, name, size, hlength, hvisible, hentry, hname, rfl⟩
    refine ⟨above, hlength, enters_of_entry hvisible hentry, mem_ggufsIn.mpr ?_⟩
    exact ⟨name, size, hentry, hname, by rw [relativePath_concat]⟩

end Scan

/-! ## The model in a directory -/

section Discover

variable (lowercase : Text → Text)

/-- Choose the file to load: the largest that is no shard, or the first shard. -/
def pickGguf (found : List GgufFile) : Option GgufFile :=
  match maxByKey GgufFile.sizeBytes
      (found.filter fun file => (shardOf lowercase file.name).isNone) with
  | some file => some file
  | none =>
      let shards := found.filterMap fun file =>
        (shardOf lowercase file.name).map fun shard => (file, shard.2)
      (minByKey Prod.snd shards).map Prod.fst

/-- The size of the chosen file, or of its shards, in 64 bits. -/
def chosenSize (found : List GgufFile) (file : GgufFile) : ℕ :=
  match shardOf lowercase file.name with
  | none => file.sizeBytes
  | some (base, _) =>
      let shards := found.filter fun other =>
        (shardOf lowercase other.name).any fun shard => shard.1 = base
      (shards.map GgufFile.sizeBytes).sum % 18446744073709551616

/-- A model that has been found on disk. -/
structure DiscoveredModel where
  /-- The name of its directory. -/
  id : String
  filename : String
  sizeBytes : ℕ
  deriving DecidableEq

/-- The model in a directory, if there is one. -/
def discoverModel (tree : DirTree) (name : Text) : Option DiscoveredModel :=
  let scan := scanModelDir lowercase tree [name]
  (pickGguf lowercase scan.ggufs).map fun file =>
    ⟨String.ofList name, String.ofList file.relative, chosenSize lowercase scan.ggufs file⟩

def compareIds (a b : DiscoveredModel) : Ordering := compareTexts a.id.toList b.id.toList

/-- The models below the directory of the models, in the order of their names. -/
def discoverModels (tree : DirTree) : List DiscoveredModel :=
  sortBy compareIds ((visibleDirs tree []).filterMap (discoverModel lowercase tree))

variable {lowercase}

/-- What is chosen has been found. -/
theorem mem_of_pickGguf {found : List GgufFile} {file : GgufFile}
    (h : pickGguf lowercase found = some file) : file ∈ found := by
  rw [pickGguf] at h
  split at h
  · cases h
    exact (List.mem_filter.mp (mem_of_maxByKey ‹_›)).1
  · obtain ⟨⟨_, _⟩, hleast, rfl⟩ := Option.map_eq_some_iff.mp h
    obtain ⟨before, after, hsplit, -, -⟩ := minByKey_eq_some_iff.mp hleast
    obtain ⟨other, hother, hshard⟩ :=
      List.mem_filterMap.mp (hsplit ▸ List.mem_append_right _ List.mem_cons_self)
    obtain ⟨_, -, hpair⟩ := Option.map_eq_some_iff.mp hshard
    cases hpair
    exact hother

/-- Something is chosen if something has been found. -/
theorem pickGguf_isSome {found : List GgufFile} (h : found ≠ []) :
    (pickGguf lowercase found).isSome := by
  rw [pickGguf]
  split
  · rfl
  · rename_i hnone
    obtain ⟨file, hfile⟩ := List.exists_mem_of_ne_nil found h
    have hfilter := maxByKey_eq_none_iff.mp hnone
    have hshard : (shardOf lowercase file.name).isNone ≠ true := by
      intro hname
      have hmem : file ∈ found.filter fun file => (shardOf lowercase file.name).isNone :=
        List.mem_filter.mpr ⟨hfile, hname⟩
      rw [hfilter] at hmem
      cases hmem
    obtain ⟨shard, hshard⟩ := Option.ne_none_iff_exists'.mp (by simpa using hshard)
    rw [Option.isSome_map, Option.isSome_iff_ne_none]
    intro hleast
    have hmem : (file, shard.2) ∈ found.filterMap fun file =>
        (shardOf lowercase file.name).map fun shard => (file, shard.2) :=
      List.mem_filterMap.mpr ⟨file, hfile, by rw [hshard]; rfl⟩
    rw [minByKey_eq_none_iff.mp hleast] at hmem
    cases hmem

/-- **A discovered model** stands for a file in its directory. -/
theorem exists_of_mem_discoverModels {tree : DirTree} {found : DiscoveredModel}
    (h : found ∈ discoverModels lowercase tree) :
    ∃ name above last size, found.id = String.ofList name ∧
      found.filename = String.ofList (relativePath (above ++ [last])) ∧
      (([name] ++ above ++ [last] : Location), .file size) ∈ tree.entries := by
  rw [discoverModels, mem_sortBy, List.mem_filterMap] at h
  obtain ⟨name, -, hfound⟩ := h
  obtain ⟨file, hfile, rfl⟩ := Option.map_eq_some_iff.mp hfound
  have hmem := mem_of_pickGguf hfile
  rw [ggufs_scanModelDir] at hmem
  obtain ⟨above, last, size, -, -, hentry, -, rfl⟩ :=
    (@mem_collect_iff lowercase tree [name] file maxModelScanDepth []).mp hmem
  exact ⟨name, above, last, size, rfl, rfl, hentry⟩

/-- The ids that are discovered are the visible directories with a GGUF file somewhere below. -/
theorem mem_discovered_ids {tree : DirTree} {modelId : String} :
    (∃ found ∈ discoverModels lowercase tree, found.id = modelId) ↔
      ∃ name, String.ofList name = modelId ∧ name ∈ visibleDirs tree [] ∧
        ∃ file, file ∈ (scanModelDir lowercase tree [name]).ggufs := by
  constructor
  · rintro ⟨found, hfound, rfl⟩
    rw [discoverModels, mem_sortBy, List.mem_filterMap] at hfound
    obtain ⟨name, hname, hmodel⟩ := hfound
    obtain ⟨file, hfile, rfl⟩ := Option.map_eq_some_iff.mp hmodel
    exact ⟨name, rfl, hname, file, mem_of_pickGguf hfile⟩
  · rintro ⟨name, rfl, hname, file, hfile⟩
    obtain ⟨chosen, hchosen⟩ := Option.isSome_iff_exists.mp
      (@pickGguf_isSome lowercase _ (List.ne_nil_of_mem hfile))
    let found : DiscoveredModel := ⟨String.ofList name, String.ofList chosen.relative,
      chosenSize lowercase (scanModelDir lowercase tree [name]).ggufs chosen⟩
    refine ⟨found, ?_, rfl⟩
    rw [discoverModels, mem_sortBy, List.mem_filterMap]
    refine ⟨name, hname, ?_⟩
    rw [discoverModel, hchosen]
    rfl

/-- Trees that hold the same have the same files found in them. -/
theorem mem_scan_of_same {tree tree' : DirTree}
    (hsame : ∀ entry, entry ∈ tree.entries ↔ entry ∈ tree'.entries) {root : Location}
    {file : GgufFile} (h : file ∈ (scanModelDir lowercase tree root).ggufs) :
    file ∈ (scanModelDir lowercase tree' root).ggufs := by
  rw [ggufs_scanModelDir] at h ⊢
  obtain ⟨above, name, size, hlength, habove, hentry, hname, rfl⟩ :=
    (@mem_collect_iff lowercase tree root file maxModelScanDepth []).mp h
  exact (@mem_collect_iff lowercase tree' root _ maxModelScanDepth []).mpr
    ⟨above, name, size, hlength, habove, (hsame _).mp hentry, hname, rfl⟩

/-- Trees that hold the same have the same ids discovered in them. -/
theorem discovered_of_same {tree tree' : DirTree}
    (hsame : ∀ entry, entry ∈ tree.entries ↔ entry ∈ tree'.entries) {modelId : String}
    (h : ∃ found ∈ discoverModels lowercase tree, found.id = modelId) :
    ∃ found ∈ discoverModels lowercase tree', found.id = modelId := by
  obtain ⟨name, hid, hname, file, hfile⟩ := mem_discovered_ids.mp h
  obtain ⟨hentry, hvisible⟩ := mem_visibleDirs.mp hname
  exact mem_discovered_ids.mpr
    ⟨name, hid, mem_visibleDirs.mpr ⟨(hsame _).mp hentry, hvisible⟩, file,
      mem_scan_of_same hsame hfile⟩

end Discover

end HiveBear.Registry
