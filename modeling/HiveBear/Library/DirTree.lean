/-
# Trees of directories

A tree lists the places below a directory, each with what is there. The order of the list is
the order in which directories are read, so that any order of reading is that of some list.
What stands in a directory is a directory, a file of some size, or something else, like a link.

`readDir` gives the names in a directory, and the names on the way to a place, put behind each
other with slashes, are the path that leads there.
-/

import HiveBear.Library.Paths
import Mathlib.Data.List.Nodup

namespace Paths

/-! ## Paths of names -/

/-- A name that a directory can hold. -/
def ValidName (name : Text) : Prop := component name = some (.normal name) ∧ '/' ∉ name

instance (name : Text) : Decidable (ValidName name) := inferInstanceAs (Decidable (_ ∧ _))

theorem ValidName.ne_nil {name : Text} (h : ValidName name) : name ≠ [] := by
  rintro rfl
  cases h.1

/-- Append a name to the path of a directory, which is empty for the top. -/
def joinRelative (base name : Text) : Text := if base = [] then name else base ++ '/' :: name

/-- The path of names. -/
def relativePath (names : List Text) : Text := names.foldl joinRelative []

theorem relativePath_concat (names : List Text) (name : Text) :
    relativePath (names ++ [name]) = joinRelative (relativePath names) name := by
  rw [relativePath, List.foldl_append]
  rfl

theorem segments_of_noSlash {name : Text} (h : '/' ∉ name) : segments name = [name] :=
  List.splitOn_eq_singleton h

/-- The segments of the path of names are the names. -/
theorem segments_relativePath {names : List Text} (hne : names ≠ [])
    (hnames : ∀ name ∈ names, ValidName name) :
    relativePath names ≠ [] ∧ segments (relativePath names) = names := by
  induction names using List.reverseRecOn with
  | nil => exact absurd rfl hne
  | append_singleton names name ih =>
      have hname : ValidName name := hnames name (List.mem_append_right _ (List.mem_singleton_self _))
      rw [relativePath_concat]
      cases names with
      | nil => exact ⟨hname.ne_nil, segments_of_noSlash hname.2⟩
      | cons first names =>
          obtain ⟨hpath, hsegments⟩ := ih (List.cons_ne_nil _ _)
            (fun other hother => hnames other (List.mem_append_left _ hother))
          rw [joinRelative, if_neg hpath, segments_append_slash, hsegments,
            segments_of_noSlash hname.2]
          exact ⟨by simp, rfl⟩

theorem filterMap_component {names : List Text} (hnames : ∀ name ∈ names, ValidName name) :
    names.filterMap component = names.map .normal := by
  induction names with
  | nil => rfl
  | cons name names ih =>
      obtain ⟨hname, hrest⟩ := List.forall_mem_cons.mp hnames
      rw [List.filterMap_cons, hname.1, ih hrest]
      rfl

theorem isAbsolute_eq_false {path : Text} {first : Text} {rest : List Text}
    (h : segments path = first :: rest) (hfirst : first ≠ []) : isAbsolute path = false := by
  cases path with
  | nil => rfl
  | cons c path =>
      rw [segments_cons] at h
      split_ifs at h with hslash
      · cases h
        exact absurd rfl hfirst
      · simpa [isAbsolute] using hslash

theorem isAbsolute_relativePath {names : List Text} (hne : names ≠ [])
    (hnames : ∀ name ∈ names, ValidName name) : isAbsolute (relativePath names) = false := by
  obtain ⟨-, hsegments⟩ := segments_relativePath hne hnames
  cases names with
  | nil => exact absurd rfl hne
  | cons first rest =>
      exact isAbsolute_eq_false hsegments (hnames first List.mem_cons_self).ne_nil

/-- The path of names, joined to a base, goes on with the names. -/
theorem components_join_relativePath {base : Text} (hbase : base ≠ []) {names : List Text}
    (hne : names ≠ []) (hnames : ∀ name ∈ names, ValidName name) :
    components (join base (relativePath names)) = components base ++ names.map .normal := by
  rw [components_join hbase (isAbsolute_relativePath hne hnames),
    (segments_relativePath hne hnames).2, filterMap_component hnames]

theorem walk_map_normal (origin : Location) (names : List Text) :
    walk origin (names.map .normal) = origin ++ names := by
  induction names generalizing origin with
  | nil => exact (List.append_nil _).symm
  | cons name names ih =>
      have hnext := ih (origin ++ [name])
      rw [List.append_assoc] at hnext
      exact hnext

/-- The path of names, joined to a base, leads on along the names. -/
theorem leadsTo_join_relativePath (origin : Location) {base : Text} (hbase : base ≠ [])
    {names : List Text} (hne : names ≠ []) (hnames : ∀ name ∈ names, ValidName name) :
    leadsTo origin (join base (relativePath names)) = leadsTo origin base ++ names := by
  rw [leadsTo, components_join_relativePath hbase hne hnames, walk_append, walk_map_normal]
  rfl

/-- A path that is joined to a base ends like the path. -/
theorem lastName_join {base path : Text} (hbase : base ≠ []) (hpath : isAbsolute path = false) :
    lastName (join base path) = lastName path := by
  have hsegments : ∃ front, segments (join base path) = front ++ segments path := by
    rw [join, if_neg (by rw [hpath]; exact Bool.false_ne_true)]
    split
    · rename_i hlast
      obtain ⟨front, rfl⟩ := List.getLast?_eq_some_iff.mp (hlast.resolve_left hbase)
      rw [List.append_assoc, List.singleton_append]
      exact ⟨_, segments_append_slash front path⟩
    · exact ⟨_, segments_append_slash base path⟩
  obtain ⟨front, hfront⟩ := hsegments
  have hlast : (segments (join base path)).getLast? = (segments path).getLast? := by
    rw [hfront, List.getLast?_append_of_ne_nil _ (segments_ne_nil path)]
  rw [List.getLast?_eq_some_getLast (segments_ne_nil _),
    List.getLast?_eq_some_getLast (segments_ne_nil _)] at hlast
  exact Option.some.inj hlast

/-- The path of names ends with the last of them. -/
theorem lastName_relativePath {names : List Text} (hne : names ≠ [])
    (hnames : ∀ name ∈ names, ValidName name) :
    lastName (relativePath names) = names.getLast hne := by
  have hsegments := (segments_relativePath hne hnames).2
  simp only [lastName, hsegments]

/-- The components of an absolute path that does not climb are the names that lead to its place. -/
theorem components_eq_of_absolute {path : Text} (hpath : isAbsolute path = true)
    (hclimb : .parentDir ∉ components path) (origin : Location) :
    components path = .rootDir :: (leadsTo origin path).map .normal := by
  have hwalk : ∀ (parts : List Component) (place : Location),
      (∀ part ∈ parts, ∃ name, part = .normal name) →
        (walk place parts).map Component.normal = place.map Component.normal ++ parts := by
    intro parts
    induction parts with
    | nil => exact fun place _ => (List.append_nil _).symm
    | cons part parts ih =>
        intro place hparts
        obtain ⟨⟨name, rfl⟩, hrest⟩ := List.forall_mem_cons.mp hparts
        have hnext := ih (place ++ [name]) hrest
        rw [List.map_append, List.append_assoc] at hnext
        exact hnext
  rw [components_of_absolute hpath] at hclimb
  have hnormal : ∀ part ∈ (segments path).filterMap component, ∃ name, part = .normal name := by
    intro part hpart
    obtain ⟨segment, -, hsegment⟩ := List.mem_filterMap.mp hpart
    rw [component] at hsegment
    split_ifs at hsegment <;> cases hsegment
    · exact absurd (List.mem_cons_of_mem _ hpart) hclimb
    · exact ⟨segment, rfl⟩
  rw [leadsTo, components_of_absolute hpath]
  exact congrArg (.rootDir :: ·) (hwalk _ [] hnormal).symm

/-- For absolute paths that do not climb, one path begins with another one just if its place is
there or below. -/
theorem components_prefix_iff {path base : Text} (hpath : isAbsolute path = true)
    (hbase : isAbsolute base = true) (hclimb : .parentDir ∉ components path)
    (hclimb' : .parentDir ∉ components base) (origin : Location) :
    components base <+: components path ↔ leadsTo origin base <+: leadsTo origin path := by
  rw [components_eq_of_absolute hpath hclimb origin, components_eq_of_absolute hbase hclimb' origin,
    List.cons_prefix_cons]
  have hinjective : Function.Injective Component.normal := fun _ _ h => Component.normal.inj h
  exact (and_iff_right rfl).trans (List.prefix_map_iff_of_injective hinjective)

/-! ## Trees -/

/-- What stands in a directory. -/
inductive FileType
  | dir
  | file (size : ℕ)
  /-- A link, for instance. -/
  | other
  deriving DecidableEq

/-- What is below a directory. -/
structure DirTree where
  entries : List (Location × FileType)
  nodup : (entries.map Prod.fst).Nodup
  below : ∀ entry ∈ entries, entry.1 ≠ []
  named : ∀ entry ∈ entries, ∀ name ∈ entry.1, ValidName name
  /-- What is not at the top stands in a directory. -/
  parents : ∀ entry ∈ entries, entry.1.dropLast ≠ [] → (entry.1.dropLast, .dir) ∈ entries

namespace DirTree

variable (tree : DirTree)

/-- The names in a directory, with what they stand for. -/
def readDir (dir : Location) : List (Text × FileType) :=
  tree.entries.filterMap fun entry =>
    if entry.1.dropLast = dir then entry.1.getLast?.map fun name => (name, entry.2) else none

variable {tree} {dir place : Location} {name : Text} {type type' : FileType}

theorem mem_readDir : (name, type) ∈ tree.readDir dir ↔ (dir ++ [name], type) ∈ tree.entries := by
  rw [readDir, List.mem_filterMap]
  constructor
  · rintro ⟨⟨place, _⟩, hentry, hread⟩
    dsimp only at hread
    split_ifs at hread with hdir
    obtain ⟨last, hlast, hpair⟩ := Option.map_eq_some_iff.mp hread
    cases hpair
    obtain ⟨front, rfl⟩ := List.getLast?_eq_some_iff.mp hlast
    rw [List.dropLast_concat] at hdir
    rwa [← hdir]
  · intro hentry
    exact ⟨_, hentry, by simp⟩

/-- The directories on the way to a place are there. -/
theorem dir_of_prefix (h : (place, type) ∈ tree.entries) {above : Location} (hne : above ≠ [])
    (habove : above <+: place) (hother : above ≠ place) : (above, .dir) ∈ tree.entries := by
  induction place using List.reverseRecOn generalizing type with
  | nil => exact absurd (List.prefix_nil.mp habove) hne
  | append_singleton front last ih =>
      rcases List.prefix_concat_iff.mp habove with hsame | hfront
      · exact absurd hsame hother
      · have hfrontNe : front ≠ [] := by
          rintro rfl
          exact hne (List.prefix_nil.mp hfront)
        have hdir : (front, FileType.dir) ∈ tree.entries := by
          have hparent := tree.parents _ h
          rw [List.dropLast_concat] at hparent
          exact hparent hfrontNe
        by_cases hsame : above = front
        · exact hsame ▸ hdir
        · exact ih hdir hfront hsame

theorem validName_of_mem_readDir (h : (name, type) ∈ tree.readDir dir) : ValidName name :=
  tree.named _ (mem_readDir.mp h) name (List.mem_append_right _ (List.mem_singleton_self _))

/-- What stands in a directory below the top stands in a directory of the tree. -/
theorem dir_of_mem (hne : dir ≠ []) (h : (dir ++ [name], type) ∈ tree.entries) :
    (dir, .dir) ∈ tree.entries := by
  have hparent := tree.parents _ h
  rw [List.dropLast_concat] at hparent
  exact hparent hne

theorem type_unique (h : (place, type) ∈ tree.entries) (h' : (place, type') ∈ tree.entries) :
    type = type' :=
  congrArg Prod.snd (List.inj_on_of_nodup_map tree.nodup h h' rfl)

/-- Files may be taken out of a tree. Directories stay. -/
def withoutFiles (tree : DirTree) (gone : Location → Bool) : DirTree where
  entries := tree.entries.filter fun entry => entry.2 = .dir || !gone entry.1
  nodup := tree.nodup.sublist (List.Sublist.map _ List.filter_sublist)
  below entry hentry := tree.below entry (List.mem_filter.mp hentry).1
  named entry hentry := tree.named entry (List.mem_filter.mp hentry).1
  parents entry hentry hne :=
    List.mem_filter.mpr ⟨tree.parents entry (List.mem_filter.mp hentry).1 hne, by simp⟩

theorem mem_withoutFiles {gone : Location → Bool} :
    (place, type) ∈ (tree.withoutFiles gone).entries ↔
      (place, type) ∈ tree.entries ∧ (type = .dir ∨ gone place = false) := by
  simp [withoutFiles]

end DirTree

end Paths
