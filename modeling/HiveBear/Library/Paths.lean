/-
# Paths

A path is a text. Its components are what stands between its slashes: empty segments and
dots count for nothing, two dots climb, a leading slash starts at the root. Read from a
directory, a path passes one place after the other and leads to the last of them. Joining a
path to a base reads it from where the base leads, and an absolute path replaces the base.

Links are not part of this: a place is the list of the names that lead to it.
-/

import Mathlib.Data.List.Infix

namespace Paths

/-- The text of a path, or of a name in it. -/
abbrev Text := List Char

/-- A place in a tree of directories: the names that lead to it from the root. -/
abbrev Location := List Text

inductive Component
  | rootDir
  | curDir
  | parentDir
  | normal (name : Text)
  deriving DecidableEq

/-! ## Components -/

def isAbsolute (path : Text) : Bool := path.head? = some '/'

/-- What stands between the slashes. -/
def segments (path : Text) : List Text := path.splitOn '/'

/-- The component that a segment stands for. -/
def component (segment : Text) : Option Component :=
  if segment = [] ∨ segment = ['.'] then none
  else if segment = ['.', '.'] then some .parentDir
  else some (.normal segment)

/-- The component in front of those of the segments; a dot counts only there. -/
def leading (path : Text) : List Component :=
  if isAbsolute path then [.rootDir]
  else if (segments path).head? = some ['.'] then [.curDir]
  else []

def components (path : Text) : List Component :=
  leading path ++ (segments path).filterMap component

/-- Append a path to a base, behind a slash. -/
def join (base path : Text) : Text :=
  if isAbsolute path then path
  else if base = [] ∨ base.getLast? = some '/' then base ++ path
  else base ++ '/' :: path

example : join "/models".toList "a/../b".toList = "/models/a/../b".toList := by decide

example : join "/models".toList "/etc".toList = "/etc".toList := by decide

/-- Segments of a path behind a slash. -/
theorem segments_append_slash (base path : Text) :
    segments (base ++ '/' :: path) = segments base ++ segments path :=
  List.splitOn_append_cons_self base path

theorem segments_ne_nil (path : Text) : segments path ≠ [] := List.splitOn_ne_nil '/' path

/-- A slash in the path cuts off its segments in front. -/
theorem leading_append_slash {base : Text} (hne : base ≠ []) (path : Text) :
    leading (base ++ '/' :: path) = leading base := by
  have habsolute : isAbsolute (base ++ '/' :: path) = isAbsolute base := by
    cases base with
    | nil => exact absurd rfl hne
    | cons c base => rfl
  have hhead : (segments (base ++ '/' :: path)).head? = (segments base).head? := by
    rw [segments_append_slash]
    exact List.head?_append_of_ne_nil _ (segments_ne_nil base)
  rw [leading, leading, habsolute, hhead]

/-- The components of a path behind a slash. -/
theorem components_append_slash {base : Text} (hbase : base ≠ []) (path : Text) :
    components (base ++ '/' :: path) =
      components base ++ (segments path).filterMap component := by
  rw [components, components, leading_append_slash hbase, segments_append_slash,
    List.filterMap_append, List.append_assoc]

/-- The components of a path that is joined to a base. -/
theorem components_join {base path : Text} (hbase : base ≠ []) (hpath : isAbsolute path = false) :
    components (join base path) = components base ++ (segments path).filterMap component := by
  rw [join, if_neg (by rw [hpath]; exact Bool.false_ne_true)]
  split
  · rename_i hlast
    obtain ⟨front, rfl⟩ := List.getLast?_eq_some_iff.mp (hlast.resolve_left hbase)
    rw [List.append_assoc, List.singleton_append]
    cases front with
    | nil =>
        -- the base is the root
        rfl
    | cons c front =>
        have hfront : c :: front ≠ [] := List.cons_ne_nil c front
        rw [components_append_slash hfront path, components_append_slash hfront []]
        simp [segments, component]
  · exact components_append_slash hbase path

/-! ## Where a path leads -/

/-- Go on from a place. -/
def enter (place : Location) : Component → Location
  | .rootDir => []
  | .curDir => place
  | .parentDir => place.dropLast
  | .normal name => place ++ [name]

/-- Where components lead from a place. -/
def walk (origin : Location) (path : List Component) : Location := path.foldl enter origin

/-- Where a path leads from a place. -/
def leadsTo (origin : Location) (path : Text) : Location := walk origin (components path)

/-- The places that components pass, the last one included. -/
def passes (origin : Location) : List Component → List Location
  | [] => []
  | part :: path => enter origin part :: passes (enter origin part) path

theorem walk_append (origin : Location) (path later : List Component) :
    walk origin (path ++ later) = walk (walk origin path) later :=
  List.foldl_append

theorem passes_append (origin : Location) (path later : List Component) :
    passes origin (path ++ later) = passes origin path ++ passes (walk origin path) later := by
  induction path generalizing origin with
  | nil => rfl
  | cons part path ih => exact congrArg (enter origin part :: ·) (ih (enter origin part))

/-- A dot in front leads nowhere. -/
theorem walk_components {path : Text} (hpath : isAbsolute path = false) (origin : Location) :
    leadsTo origin path = walk origin ((segments path).filterMap component) := by
  have hleading : walk origin (leading path) = origin := by
    rw [leading, if_neg (by rw [hpath]; exact Bool.false_ne_true)]
    split <;> rfl
  rw [leadsTo, components, walk_append, hleading]

theorem components_of_absolute {path : Text} (hpath : isAbsolute path = true) :
    components path = .rootDir :: (segments path).filterMap component := by
  rw [components, leading, if_pos hpath]
  rfl

/-- An absolute path leads to the same place from everywhere. -/
theorem leadsTo_of_absolute {path : Text} (hpath : isAbsolute path = true)
    (origin other : Location) : leadsTo origin path = leadsTo other path := by
  rw [leadsTo, leadsTo, components_of_absolute hpath]
  rfl

/-- **Joined paths.** A path that is joined to a base leads on from where the base leads. -/
theorem leadsTo_join (origin : Location) {base : Text} (hbase : base ≠ []) (path : Text) :
    leadsTo origin (join base path) = leadsTo (leadsTo origin base) path := by
  cases hpath : isAbsolute path with
  | true =>
      rw [join, if_pos hpath]
      exact leadsTo_of_absolute hpath _ _
  | false =>
      rw [walk_components hpath, leadsTo, components_join hbase hpath, walk_append]
      rfl

/-! ## Names of files -/

/-- The components in front of the last name of a path. -/
def folder (path : Text) : List Component :=
  (if isAbsolute path then [.rootDir] else []) ++ (segments path).dropLast.filterMap component

/-- What stands behind the last slash. -/
def lastName (path : Text) : Text := (segments path).getLast (segments_ne_nil path)

/-- The path without its last component; the root has none. -/
def parent (path : List Component) : Option (List Component) :=
  match path.getLast? with
  | none | some .rootDir => none
  | some _ => some path.dropLast

/-- The segments of a path end with its last name. -/
theorem segments_eq (path : Text) :
    segments path = (segments path).dropLast ++ [lastName path] :=
  (List.dropLast_append_getLast (segments_ne_nil path)).symm

/-- A first character goes to the first segment, unless it is a slash. -/
theorem segments_cons (c : Char) (path : Text) :
    segments (c :: path) =
      if c = '/' then [] :: segments path else (segments path).modifyHead (c :: ·) := by
  rw [segments, List.splitOn_cons_eq_if_modifyHead]
  simp [segments]

/-- A suffix without a slash goes to the last segment. -/
theorem segments_append {path suffix : Text} (hsuffix : '/' ∉ suffix) {front : List Text}
    {last : Text} (h : segments path = front ++ [last]) :
    segments (path ++ suffix) = front ++ [last ++ suffix] := by
  induction path generalizing front last with
  | nil =>
      have hnil : front = [] ∧ last = [] := by
        rw [segments, List.splitOn_nil, eq_comm, List.append_eq_singleton_iff] at h
        simpa using h
      rw [hnil.1, hnil.2]
      exact List.splitOn_eq_singleton hsuffix
  | cons c path ih =>
      have hsplit {xs : List Text} {x : Text} (hx : xs ++ [x] = front ++ [last]) :
          front ++ [last ++ suffix] = xs ++ [x ++ suffix] := by
        obtain ⟨rfl, hlast⟩ := List.append_inj' hx rfl
        rw [List.singleton_inj.mp hlast]
      rw [segments_cons, segments_eq path] at h
      rw [List.cons_append, segments_cons, ih (segments_eq path)]
      split_ifs at h ⊢
      · exact (@hsplit ([] :: (segments path).dropLast) _ h).symm
      · cases hfront : (segments path).dropLast with
        | nil =>
            rw [hfront] at h
            exact (@hsplit [] _ h).symm
        | cons first rest =>
            rw [hfront] at h
            exact (@hsplit ((c :: first) :: rest) _ h).symm

theorem segments_append_suffix (path : Text) {suffix : Text} (hsuffix : '/' ∉ suffix) :
    segments (path ++ suffix) = (segments path).dropLast ++ [lastName path ++ suffix] :=
  segments_append hsuffix (segments_eq path)

theorem isAbsolute_append_suffix (path : Text) {suffix : Text} (hsuffix : '/' ∉ suffix) :
    isAbsolute (path ++ suffix) = isAbsolute path := by
  cases path with
  | cons c path => rfl
  | nil =>
      have hhead : suffix.head? ≠ some '/' := fun h => hsuffix (List.mem_of_mem_head? h)
      simpa [isAbsolute] using hhead

/-- A name with a suffix of at least three characters is no dots. -/
theorem component_append_suffix (name : Text) {suffix : Text} (hlong : 3 ≤ suffix.length) :
    component (name ++ suffix) = some (.normal (name ++ suffix)) := by
  have hshort (dots : Text) (hdots : dots.length < 3) : name ++ suffix ≠ dots := by
    rintro rfl
    rw [List.length_append] at hdots
    omega
  rw [component, if_neg (not_or.mpr ⟨hshort [] (by decide), hshort ['.'] (by decide)⟩),
    if_neg (hshort ['.', '.'] (by decide))]

/-- **Siblings.** However a name begins, with a suffix it denotes a file in the directory to
which the rest of the path leads. -/
theorem leadsTo_append_suffix (origin : Location) (path : Text) {suffix : Text}
    (hsuffix : '/' ∉ suffix) (hlong : 3 ≤ suffix.length) :
    leadsTo origin (path ++ suffix) =
      walk origin (folder path) ++ [lastName path ++ suffix] := by
  have hlast : ((segments path).dropLast ++ [lastName path ++ suffix]).filterMap component =
      (segments path).dropLast.filterMap component ++ [.normal (lastName path ++ suffix)] := by
    rw [List.filterMap_append, List.filterMap_cons, component_append_suffix _ hlong]
    rfl
  cases hpath : isAbsolute path with
  | true =>
      rw [leadsTo, components_of_absolute (by rw [isAbsolute_append_suffix path hsuffix, hpath]),
        segments_append_suffix path hsuffix, hlast, ← List.cons_append, walk_append, folder, hpath]
      rfl
  | false =>
      rw [walk_components (by rw [isAbsolute_append_suffix path hsuffix, hpath]),
        segments_append_suffix path hsuffix, hlast, walk_append, folder, hpath]
      rfl

theorem lastName_append_suffix (path : Text) {suffix : Text} (hsuffix : '/' ∉ suffix) :
    lastName (path ++ suffix) = lastName path ++ suffix := by
  have hsplit : segments (path ++ suffix) = (segments path).dropLast ++ [lastName path ++ suffix] :=
    segments_append_suffix path hsuffix
  rw [segments_eq (path ++ suffix)] at hsplit
  exact List.singleton_inj.mp (List.append_inj' hsplit rfl).2

theorem folder_append_suffix (path : Text) {suffix : Text} (hsuffix : '/' ∉ suffix) :
    folder (path ++ suffix) = folder path := by
  rw [folder, folder, isAbsolute_append_suffix path hsuffix, segments_append_suffix path hsuffix,
    List.dropLast_concat]

/-- A suffix goes to the end of a joined path. -/
theorem join_append (base : Text) {path : Text} (hpath : path ≠ []) (suffix : Text) :
    join base path ++ suffix = join base (path ++ suffix) := by
  have habsolute : isAbsolute (path ++ suffix) = isAbsolute path := by
    cases path with
    | nil => exact absurd rfl hpath
    | cons c path => rfl
  rw [join, join, habsolute]
  split_ifs <;> simp

/-- How a path that is joined to a base divides before its last name. -/
def stem (base path : Text) : List Component :=
  if isAbsolute path then folder path else components base ++ folder path

theorem components_join_eq_stem {base : Text} (hbase : base ≠ []) (path : Text) :
    components (join base path) = stem base path ++ (component (lastName path)).toList := by
  have hlast : (segments path).filterMap component =
      (segments path).dropLast.filterMap component ++ (component (lastName path)).toList := by
    conv_lhs => rw [segments_eq path]
    rw [List.filterMap_append]
    cases hname : component (lastName path) <;> simp [hname]
  cases hpath : isAbsolute path with
  | true =>
      rw [join, if_pos hpath, components_of_absolute hpath, hlast, stem, if_pos hpath, folder,
        if_pos hpath]
      rfl
  | false =>
      rw [components_join hbase hpath, hlast, stem, folder]
      simp [hpath]

theorem stem_append_suffix (base path : Text) {suffix : Text} (hsuffix : '/' ∉ suffix) :
    stem base (path ++ suffix) = stem base path := by
  rw [stem, stem, isAbsolute_append_suffix path hsuffix, folder_append_suffix path hsuffix]

/-- A stem leads on from where the base leads. -/
theorem walk_stem (origin : Location) (base path : Text) :
    walk origin (stem base path) = walk (leadsTo origin base) (folder path) := by
  cases hpath : isAbsolute path with
  | true =>
      rw [stem, if_pos hpath, folder, if_pos hpath]
      rfl
  | false =>
      rw [stem, if_neg (by rw [hpath]; exact Bool.false_ne_true), walk_append]
      rfl

/-- **Siblings of a joined path.** They lie where its stem leads. -/
theorem leadsTo_join_append_suffix (origin : Location) {base : Text} (hbase : base ≠ [])
    (path : Text) {suffix : Text} (hsuffix : '/' ∉ suffix) (hlong : 3 ≤ suffix.length) :
    leadsTo origin (join base (path ++ suffix)) =
      walk origin (stem base path) ++ [lastName path ++ suffix] := by
  rw [leadsTo_join origin hbase, leadsTo_append_suffix _ path hsuffix hlong, walk_stem]

/-- Names lead only down. -/
theorem prefix_walk {path : List Component} (hpath : ∀ part ∈ path, ∃ name, part = .normal name)
    (origin : Location) : origin <+: walk origin path := by
  induction path generalizing origin with
  | nil => exact List.prefix_rfl
  | cons part path ih =>
      obtain ⟨⟨name, rfl⟩, hrest⟩ := List.forall_mem_cons.mp hpath
      exact (List.prefix_append origin [name]).trans (ih hrest _)

/-- Where names alone lead, every place on the way is in front of the last one. -/
theorem prefix_of_mem_passes {path : List Component}
    (hpath : ∀ part ∈ path, ∃ name, part = .normal name) {origin place : Location}
    (h : place ∈ passes origin path) : place <+: walk origin path := by
  induction path generalizing origin with
  | nil => cases h
  | cons part path ih =>
      have hrest := (List.forall_mem_cons.mp hpath).2
      rcases List.mem_cons.mp h with rfl | hlater
      · exact prefix_walk hrest _
      · exact ih hrest hlater

theorem component_ne_rootDir (segment : Text) : component segment ≠ some .rootDir := by
  rw [component]
  split_ifs <;> simp

/-- The parent of a path with a proper last name. -/
theorem parent_join {base path : Text} (hbase : base ≠ [])
    (hname : (component (lastName path)).isSome) :
    parent (components (join base path)) = some (stem base path) := by
  obtain ⟨last, hlast⟩ := Option.isSome_iff_exists.mp hname
  have hroot := component_ne_rootDir (lastName path)
  rw [hlast] at hroot
  rw [components_join_eq_stem hbase, hlast, Option.toList_some, parent, List.getLast?_concat]
  cases last with
  | rootDir => exact absurd rfl hroot
  | curDir | parentDir | normal => rw [List.dropLast_concat]

/-- The parent of any path passes nothing but what leads to its last name. -/
theorem passes_parent_subset (origin : Location) {base : Text} (hbase : base ≠ []) (path : Text)
    {above : List Component} (habove : parent (components (join base path)) = some above) :
    passes origin above ⊆ passes origin (stem base path) := by
  cases hname : component (lastName path) with
  | some last =>
      rw [parent_join hbase (by rw [hname]; rfl)] at habove
      cases habove
      exact List.Subset.refl _
  | none =>
      rw [components_join_eq_stem hbase, hname, Option.toList_none, List.append_nil] at habove
      have hdrop : above = (stem base path).dropLast := by
        rw [parent] at habove
        split at habove <;> cases habove
        rfl
      obtain ⟨rest, hrest⟩ := List.dropLast_prefix (stem base path)
      rw [hdrop]
      conv_rhs => rw [← hrest]
      rw [passes_append]
      exact List.subset_append_left _ _

/-! ## Below a directory -/

/-- A place lies strictly under a directory. -/
def Under (top place : Location) : Prop := top <+: place ∧ place ≠ top

instance (top place : Location) : Decidable (Under top place) := inferInstanceAs (Decidable (_ ∧ _))

/-- A place in a directory does not lead to it. -/
theorem not_prefix_of_concat (place : Location) (name : Text) : ¬ place ++ [name] <+: place := by
  intro h
  have hlength := h.length_le
  rw [List.length_append, List.length_singleton] at hlength
  omega

/-- A file lies strictly under a directory if its own directory lies there or is it. -/
theorem under_concat_iff {top place : Location} {name : Text} :
    Under top (place ++ [name]) ↔ top <+: place := by
  rw [Under, List.prefix_concat_iff]
  constructor
  · rintro ⟨rfl | hplace, hne⟩
    · exact absurd rfl hne
    · exact hplace
  · intro hplace
    refine ⟨Or.inr hplace, ?_⟩
    rintro rfl
    exact not_prefix_of_concat _ _ hplace

/-- A place is one that leads to a directory, or lies strictly under it. -/
def OnTheWay (top place : Location) : Prop := place <+: top ∨ Under top place

theorem Under.trans {top place below : Location} (h : Under top place) (hbelow : place <+: below) :
    Under top below := by
  refine ⟨h.1.trans hbelow, ?_⟩
  rintro rfl
  exact h.2 (hbelow.eq_of_length_le h.1.length_le)

/-- The places that are to be made for a directory to exist. -/
def missing (dirs : List Location) (origin : Location) (path : List Component) : List Location :=
  (passes origin path).filter fun place => place ∉ dirs

theorem mem_missing_iff {dirs : List Location} {origin place : Location}
    {path : List Component} :
    place ∈ missing dirs origin path ↔ place ∈ passes origin path ∧ place ∉ dirs := by
  rw [missing, List.mem_filter, decide_eq_true_eq]

/-- With what was missing a path can be passed. -/
theorem passes_subset_append_missing (dirs : List Location) (origin : Location)
    (path : List Component) : passes origin path ⊆ dirs ++ missing dirs origin path := by
  intro place hplace
  by_cases hthere : place ∈ dirs
  · exact List.mem_append_left _ hthere
  · exact List.mem_append_right _ (mem_missing_iff.mpr ⟨hplace, hthere⟩)

end Paths
