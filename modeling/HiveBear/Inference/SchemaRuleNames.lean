/-
# The names of the rules of a grammar

A part of a schema has a rule that is named by the way to it: the names of the properties on it,
joined by dashes. Nothing is done about other characters in these names, about two ways that come to
the same name, or about the rules that any object brings along when there are several.
-/

import HiveBear.Inference.SchemaOutline

namespace HiveBear.Inference

open Gbnf JsonText

/-! ## The places of a schema -/

def itemStep : Text := "item".toList

mutual

/-- The ways to the parts that have a rule of their own: the names of the properties, and a step
into an array. -/
def Outline.places : Outline → List (List Text)
  | .string | .number | .integer | .boolean | .null | .oneOf _ | .anyObject => []
  | .anyItems => [[itemStep]]
  | .array items => [itemStep] :: items.places.map (itemStep :: ·)
  | .object parts => parts.places

def Parts.places : Parts → List (List Text)
  | .nil => []
  | .cons propName _ part more =>
      [propName] :: part.places.map (propName :: ·) ++ more.places

end

mutual

/-- How many objects have no properties. -/
def Outline.anyObjects : Outline → ℕ
  | .string | .number | .integer | .boolean | .null | .oneOf _ | .anyItems => 0
  | .anyObject => 1
  | .array items => items.anyObjects
  | .object parts => parts.anyObjects

def Parts.anyObjects : Parts → ℕ
  | .nil => 0
  | .cons _ _ part more => part.anyObjects + more.anyObjects

end

mutual

/-- A place is a part below the whole. -/
theorem Outline.ne_nil_of_mem_places : (outline : Outline) → ∀ place ∈ outline.places, place ≠ []
  | .string | .number | .integer | .boolean | .null | .oneOf _ | .anyObject =>
      List.forall_mem_nil _
  | .anyItems => List.forall_mem_singleton.mpr (List.cons_ne_nil _ _)
  | .array items => by
      rw [Outline.places]
      exact List.forall_mem_cons.mpr ⟨List.cons_ne_nil _ _,
        List.forall_mem_map.mpr fun place _ => List.cons_ne_nil _ _⟩
  | .object parts => parts.ne_nil_of_mem_places

theorem Parts.ne_nil_of_mem_places : (parts : Parts) → ∀ place ∈ parts.places, place ≠ []
  | .nil => List.forall_mem_nil _
  | .cons propName _ part more => by
      rw [Parts.places]
      exact List.forall_mem_append.mpr ⟨List.forall_mem_cons.mpr ⟨List.cons_ne_nil _ _,
        List.forall_mem_map.mpr fun place _ => List.cons_ne_nil _ _⟩, more.ne_nil_of_mem_places⟩

end

/-! ## The names that rules are written for -/

/-- A way, as it stands in the name of a rule. -/
def wayText (place : List Text) : Text := place.flatMap fun step => '-' :: step

/-- The names of the rules of some parts, given that of the whole. -/
def wayNames (name : Text) (places : List (List Text)) : List Text :=
  places.map fun place => name ++ wayText place

/-- The names of the rules that any objects bring along. -/
def helperNames (anyObjects : ℕ) : List Text :=
  (List.replicate anyObjects (helperRules.map GrammarRule.name)).flatten

theorem itemRuleName_eq (name : Text) : itemRuleName name = name ++ wayText [itemStep] := by
  have hdash : "-item".toList = '-' :: itemStep := by decide +kernel
  rw [itemRuleName, hdash, wayText, List.flatMap_singleton]

theorem propertyRuleName_eq (name propName : Text) :
    propertyRuleName name propName = name ++ wayText [propName] := by
  rw [propertyRuleName, wayText, List.flatMap_singleton, List.append_assoc, List.singleton_append]

/-- The names of the rules behind a step. -/
theorem wayNames_behind (name step : Text) (places : List (List Text)) :
    wayNames name (places.map (step :: ·)) = wayNames (name ++ wayText [step]) places := by
  rw [wayNames, List.map_map]
  refine List.map_congr_left fun place _ => ?_
  simp [wayText]

theorem helperNames_add (first second : ℕ) :
    helperNames (first + second) = helperNames first ++ helperNames second := by
  rw [helperNames, List.replicate_add, List.flatten_append]
  rfl

/-- The rules of a part and of its own parts. -/
def entryRules (name : Text) (outline : Outline) : List GrammarRule :=
  ownRules name outline ++ (partEntries name outline).flatten

/-- The rules of the properties of an object. -/
def propertyRules (name : Text) (parts : Parts) : List GrammarRule :=
  (propertyEntries name parts).flatten

theorem entryRules_array_perm (name : Text) (items : Outline) :
    (entryRules name (.array items)).Perm
      (⟨name, bodyOf name (.array .null), false⟩ :: entryRules (itemRuleName name) items) := by
  have hrules : entryRules name (.array items) = ⟨name, bodyOf name (.array .null), false⟩ ::
      ((partEntries (itemRuleName name) items).flatten ++ ownRules (itemRuleName name) items) := by
    have hparts : (partEntries name (.array items)).flatten =
        (partEntries (itemRuleName name) items).flatten ++ ownRules (itemRuleName name) items := by
      rw [partEntries, List.flatten_append, List.flatten_singleton]
    rw [entryRules, hparts]
    rfl
  rw [hrules]
  exact List.perm_append_comm.cons _

theorem propertyRules_cons_perm (name propName : Text) (required : Bool) (part : Outline)
    (more : Parts) : (propertyRules name (.cons propName required part more)).Perm
      (entryRules (propertyRuleName name propName) part ++ propertyRules name more) := by
  have hrules : propertyRules name (.cons propName required part more) =
      (partEntries (propertyRuleName name propName) part).flatten ++
        ownRules (propertyRuleName name propName) part ++ propertyRules name more := by
    rw [propertyRules, propertyEntries, List.flatten_append, List.flatten_cons,
      ← List.append_assoc]
    rfl
  rw [hrules]
  exact List.perm_append_comm.append_right _

mutual

/-- **The names that rules are written for** are those of the places, and for each object without
properties those of the rules it brings along. -/
theorem names_entryRules (name : Text) : (outline : Outline) →
    ((entryRules name outline).map GrammarRule.name).Perm
      (name :: wayNames name outline.places ++ helperNames outline.anyObjects)
  | .string | .number | .integer | .boolean | .null | .oneOf _ | .anyObject => List.Perm.refl _
  | .anyItems => by
      have hnames : (entryRules name .anyItems).map GrammarRule.name = [name, itemRuleName name] :=
        rfl
      rw [hnames, itemRuleName_eq]
      exact List.Perm.refl _
  | .array items => by
      have hitems := names_entryRules (itemRuleName name) items
      have hplaces : name :: wayNames name (Outline.array items).places ++
          helperNames (Outline.array items).anyObjects = name ::
            (itemRuleName name :: wayNames (itemRuleName name) items.places ++
              helperNames items.anyObjects) := by
        rw [itemRuleName_eq, ← wayNames_behind]
        rfl
      rw [hplaces]
      exact ((entryRules_array_perm name items).map _).trans (hitems.cons name)
  | .object parts => (names_propertyRules name parts).cons name

theorem names_propertyRules (name : Text) : (parts : Parts) →
    ((propertyRules name parts).map GrammarRule.name).Perm
      (wayNames name parts.places ++ helperNames parts.anyObjects)
  | .nil => List.Perm.refl _
  | .cons propName required part more => by
      have hpart := names_entryRules (propertyRuleName name propName) part
      have hmore := names_propertyRules name more
      have hrules := (propertyRules_cons_perm name propName required part more).map
        GrammarRule.name
      have hplaces : wayNames name (Parts.cons propName required part more).places =
          propertyRuleName name propName :: wayNames (propertyRuleName name propName) part.places ++
            wayNames name more.places := by
        rw [propertyRuleName_eq, ← wayNames_behind, Parts.places, wayNames, List.map_append]
        rfl
      rw [List.map_append] at hrules
      rw [hplaces, Parts.anyObjects, helperNames_add]
      -- The helpers of the part stand in front of the names of the other parts.
      refine (hrules.trans (hpart.append hmore)).trans ?_
      rw [List.append_assoc, List.append_assoc]
      refine List.Perm.append_left _ ?_
      rw [← List.append_assoc, ← List.append_assoc]
      exact List.perm_append_comm.append_right _

end

/-- A part has a rule of its name. -/
theorem name_mem_entryRules (name : Text) (outline : Outline) :
    name ∈ (entryRules name outline).map GrammarRule.name :=
  (names_entryRules name outline).mem_iff.mpr (List.mem_append_left _ List.mem_cons_self)

theorem propertyRuleName_mem_propertyRules (name : Text) : (parts : Parts) →
    parts.properties.names.map (propertyRuleName name) ⊆
      (propertyRules name parts).map GrammarRule.name
  | .nil => List.nil_subset _
  | .cons propName required part more => by
      have hrules := (propertyRules_cons_perm name propName required part more).map
        GrammarRule.name
      rw [List.map_append] at hrules
      refine List.Subset.trans (List.cons_subset.mpr ⟨?_, ?_⟩) hrules.symm.subset
      · exact List.mem_append_left _ (name_mem_entryRules _ part)
      · exact List.subset_append_of_subset_right _ (propertyRuleName_mem_propertyRules name more)

/-- The names of the rules of a grammar. -/
def Outline.ruleNames (outline : Outline) : List Text :=
  "ws".toList :: rootName :: wayNames rootName outline.places ++ helperNames outline.anyObjects

/-- The rule of white space stands behind that of the whole. -/
theorem grammarRules_perm (outline : Outline) :
    (grammarRules outline).Perm (wsGrammarRule :: entryRules rootName outline) :=
  List.perm_middle

theorem names_grammarRules (outline : Outline) :
    ((grammarRules outline).map GrammarRule.name).Perm outline.ruleNames :=
  ((grammarRules_perm outline).map _).trans ((names_entryRules rootName outline).cons _)

/-! ## Names that differ -/

theorem wayText_ne_nil {place : List Text} (h : place ≠ []) : wayText place ≠ [] := by
  obtain ⟨step, more, rfl⟩ := List.exists_cons_of_ne_nil h
  simp [wayText]

/-- The names of the places are longer than that of the whole. -/
theorem rootName_notMem_wayNames (outline : Outline) :
    rootName ∉ wayNames rootName outline.places := by
  intro hmem
  obtain ⟨place, hplace, hname⟩ := List.mem_map.mp hmem
  exact wayText_ne_nil (outline.ne_nil_of_mem_places place hplace)
    (List.append_right_eq_self.mp hname)

theorem nodup_wayNames_iff (name : Text) (places : List (List Text)) :
    (wayNames name places).Nodup ↔ (places.map wayText).Nodup := by
  have hnames : wayNames name places = (places.map wayText).map (name ++ ·) := by
    rw [List.map_map]
    rfl
  rw [hnames]
  exact List.nodup_map_iff (List.append_right_injective name)

theorem nodup_helperNames_iff (anyObjects : ℕ) :
    (helperNames anyObjects).Nodup ↔ anyObjects ≤ 1 := by
  match anyObjects with
  | 0 => exact iff_of_true List.nodup_nil (by omega)
  | 1 => exact iff_of_true (by decide +kernel) le_rfl
  | more + 2 =>
      refine iff_of_false (fun hnodup => ?_) (by omega)
      have htwice : helperNames (more + 2) = helperNames 1 ++ helperNames (1 + more) := by
        rw [← helperNames_add]
        congr 1
        omega
      rw [htwice, helperNames_add 1 more] at hnodup
      have hthere : "pair".toList ∈ helperNames 1 := by decide +kernel
      exact (List.nodup_append.mp hnodup).2.2 _ hthere _ (List.mem_append_left _ hthere) rfl

/-- Names of places begin with that of the whole, the others do not. -/
theorem head_of_mem_wayNames {name : Text} {places : List (List Text)}
    (h : name ∈ rootName :: wayNames rootName places) : name.head? = some 'r' := by
  have hroot : rootName.head? = some 'r' := by decide +kernel
  rcases List.mem_cons.mp h with rfl | hway
  · exact hroot
  · obtain ⟨place, -, rfl⟩ := List.mem_map.mp hway
    rw [List.head?_append, hroot, Option.some_or]

theorem head_of_mem_helperNames {name : Text} {anyObjects : ℕ}
    (h : name ∈ helperNames anyObjects) : name.head? ≠ some 'r' ∧ name ≠ "ws".toList := by
  have hall : ∀ name ∈ helperRules.map GrammarRule.name,
      name.head? ≠ some 'r' ∧ name ≠ "ws".toList := by
    decide +kernel
  obtain ⟨names, hnames, hname⟩ := List.mem_flatten.mp h
  rw [(List.mem_replicate.mp hnames).2] at hname
  exact hall name hname

/-- **The names of the rules differ** if and only if the ways are not alike as they are written and
there are not several objects without properties. -/
theorem nodup_ruleNames_iff (outline : Outline) : outline.ruleNames.Nodup ↔
    (outline.places.map wayText).Nodup ∧ outline.anyObjects ≤ 1 := by
  have hws : "ws".toList ∉ rootName :: wayNames rootName outline.places := by
    intro hmem
    have hhead := head_of_mem_wayNames hmem
    revert hhead
    decide +kernel
  have hapart : ∀ name ∈ "ws".toList :: rootName :: wayNames rootName outline.places,
      ∀ helper ∈ helperNames outline.anyObjects, name ≠ helper := by
    rintro name hname helper hhelper rfl
    obtain ⟨hhead, hnotWs⟩ := head_of_mem_helperNames hhelper
    rcases List.mem_cons.mp hname with rfl | hway
    · exact hnotWs rfl
    · exact hhead (head_of_mem_wayNames hway)
  rw [Outline.ruleNames, List.nodup_append, List.nodup_cons, List.nodup_cons,
    and_iff_right hws, and_iff_right (rootName_notMem_wayNames outline), and_iff_left hapart,
    nodup_wayNames_iff, nodup_helperNames_iff]

/-! ## Names that are legal -/

/-- The steps of ways can be parts of names. -/
def WordyPlaces (places : List (List Text)) : Prop := ∀ place ∈ places, ∀ step ∈ place, Wordy step

theorem isName_rootName : IsName rootName := by decide +kernel

theorem isName_append_wayText_iff {name : Text} (hname : IsName name) (place : List Text) :
    IsName (name ++ wayText place) ↔ ∀ step ∈ place, Wordy step := by
  have hdash : isWord '-' = true := rfl
  constructor
  · intro h step hstep c hc
    exact h.2 c (List.mem_append_right _
      (List.mem_flatMap.mpr ⟨step, hstep, List.mem_cons_of_mem _ hc⟩))
  · intro h
    refine ⟨by simp [hname.1], List.forall_mem_append.mpr ⟨hname.2, fun c hc => ?_⟩⟩
    obtain ⟨step, hstep, hmem⟩ := List.mem_flatMap.mp hc
    rcases List.mem_cons.mp hmem with rfl | hletter
    · exact hdash
    · exact h step hstep c hletter

/-- **The names of the rules are legal** if and only if those of the properties on the ways can be
parts of names. -/
theorem isName_ruleNames_iff (outline : Outline) :
    (∀ name ∈ outline.ruleNames, IsName name) ↔ WordyPlaces outline.places := by
  constructor
  · intro h place hplace
    refine (isName_append_wayText_iff isName_rootName place).mp (h _ ?_)
    exact List.mem_append_left _
      (List.mem_cons_of_mem _ (List.mem_cons_of_mem _ (List.mem_map_of_mem hplace)))
  · intro h
    have hws : IsName "ws".toList := by decide +kernel
    have hhelpers : ∀ name ∈ helperRules.map GrammarRule.name, IsName name := by decide +kernel
    refine List.forall_mem_append.mpr ⟨List.forall_mem_cons.mpr ⟨hws,
      List.forall_mem_cons.mpr ⟨isName_rootName, List.forall_mem_map.mpr fun place hplace => ?_⟩⟩,
        fun name hname => ?_⟩
    · exact (isName_append_wayText_iff isName_rootName place).mpr (h place hplace)
    · obtain ⟨names, hnames, hmem⟩ := List.mem_flatten.mp hname
      rw [(List.mem_replicate.mp hnames).2] at hmem
      exact hhelpers name hmem

end HiveBear.Inference
