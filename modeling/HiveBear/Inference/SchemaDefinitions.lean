/-
# What the rules of a grammar define

Each line of a grammar is written for a rule, and its body uses the rules of the parts. Constants go
into the body as they are: one with a quote in it ends its literal early, and what follows may use
and define names of its own.

So the rules of a grammar are well defined if and only if this can be said of the names on the ways
to the parts and of the constants.
-/

import HiveBear.Inference.SchemaRuleNames
import Mathlib.Data.List.Perm.Basic

namespace HiveBear.Inference

open Gbnf JsonText

/-! ## Names that are defined and used -/

/-- The names of the rules that a line is read as. -/
def GrammarRule.defines (line : GrammarRule) : List Text :=
  ((readRules line.text).getD []).map Prod.fst

def GrammarRule.uses (line : GrammarRule) : List Text :=
  ((readRules line.text).getD []).flatMap fun rule => rule.2.names

/-- Each line is read as the rule that it is written for, which has a legal name, and maybe others.
Every name is defined once, and what is used is defined. -/
structure WellDefined (lines : List GrammarRule) : Prop where
  legal : ∀ line ∈ lines, IsName line.name
  readable : ∀ line ∈ lines, (readRules line.text).isSome
  once : (lines.flatMap GrammarRule.defines).Nodup
  defined : ∀ line ∈ lines, ∀ used ∈ line.uses, used ∈ lines.flatMap GrammarRule.defines

/-- A text is a grammar, with one rule for each name. -/
def IsGrammar (grammar : Text) : Prop :=
  ∃ rules, Gbnf.read grammar = some rules ∧ (rules.map Prod.fst).Nodup

/-- **The text of lines that can be read is a grammar** just if the rules are well defined. -/
theorem isGrammar_linesText_iff {lines : List GrammarRule} (hne : lines ≠ [])
    (hlegal : ∀ line ∈ lines, IsName line.name)
    (hreadable : ∀ line ∈ lines, (readRules line.text).isSome) :
    IsGrammar (linesText lines) ↔ WellDefined lines := by
  have hlines : ∀ line ∈ lines, readRules line.text = some ((readRules line.text).getD []) :=
    fun line hline => by
      obtain ⟨rules, hrules⟩ := Option.isSome_iff_exists.mp (hreadable line hline)
      rw [hrules, Option.getD_some]
  have hread := @readRules_intercalate
    (lines.map fun line => (line.text, (readRules line.text).getD [])) (by simpa)
    (List.forall_mem_map.mpr hlines)
  rw [List.map_map, ← List.map_reverse, List.flatMap_map] at hread
  have hnames : ((lines.reverse.flatMap fun line => (readRules line.text).getD []).map
      Prod.fst).Perm (lines.flatMap GrammarRule.defines) := by
    rw [List.map_flatMap]
    exact lines.reverse_perm.flatMap_right _
  constructor
  · rintro ⟨rules, hrules, hnodup⟩
    obtain ⟨hfound, hclosed⟩ := read_eq_some_iff.mp hrules
    cases hread.symm.trans hfound
    refine ⟨hlegal, hreadable, hnames.nodup_iff.mp hnodup, fun line hline used hused => ?_⟩
    obtain ⟨rule, hrule, hname⟩ := List.mem_flatMap.mp hused
    exact hnames.mem_iff.mp (hclosed rule
      (List.mem_flatMap.mpr ⟨line, List.mem_reverse.mpr hline, hrule⟩) used hname)
  · intro h
    refine ⟨_, read_eq_some_iff.mpr ⟨hread, fun rule hrule used hused => ?_⟩,
      hnames.nodup_iff.mpr h.once⟩
    obtain ⟨line, hline, hmem⟩ := List.mem_flatMap.mp hrule
    exact hnames.mem_iff.mpr (h.defined line (List.mem_reverse.mp hline) used
      (List.mem_flatMap.mpr ⟨rule, hmem, hused⟩))

/-! ## The body of a rule -/

def placeholder : Text := "rule".toList

/-- The rules that a body is read as, whatever rule it is the body of. -/
def readBody (body : Text) : Option Rules := readRules (namedRule placeholder body)

/-- Names that a body defines. -/
def strayNames (body : Text) : List Text := (((readBody body).getD []).dropLast).map Prod.fst

def usedNames (body : Text) : List Text :=
  ((readBody body).getD []).flatMap fun rule => rule.2.names

theorem namedRule_eq (name body : Text) :
    namedRule name body = name ++ [' ', ':', ':', '=', ' '] ++ body := by
  have hdefines : " ::= ".toList = [' ', ':', ':', '=', ' '] := String.toList_ofList
  rw [namedRule, hdefines]

theorem isName_placeholder : IsName placeholder := by decide +kernel

/-- A line is read in the same way with another name. -/
theorem readRules_renamed {name other body : Text} (hname : IsName name) (hother : IsName other)
    {rules : Rules} (h : readRules (namedRule name body) = some rules) :
    ∃ later expr, rules = later ++ [(name, expr)] ∧
      readRules (namedRule other body) = some (later ++ [(other, expr)]) := by
  rw [namedRule_eq] at h
  obtain ⟨later, expr, hrules, hothers⟩ := readRules_named hname h
  refine ⟨later, expr, hrules, ?_⟩
  rw [namedRule_eq]
  exact hothers other hother

theorem readable_renamed {name other body : Text} (hname : IsName name) (hother : IsName other)
    (h : (readRules (namedRule name body)).isSome) :
    (readRules (namedRule other body)).isSome := by
  obtain ⟨rules, hrules⟩ := Option.isSome_iff_exists.mp h
  obtain ⟨later, expr, -, hread⟩ := readRules_renamed hname hother hrules
  exact Option.isSome_of_eq_some hread

section

variable {line : GrammarRule} (hname : IsName line.name)

include hname

theorem readable_iff : (readRules line.text).isSome ↔ (readBody line.body).isSome :=
  ⟨readable_renamed hname isName_placeholder, readable_renamed isName_placeholder hname⟩

/-- A line defines its own name and what its body defines. -/
theorem defines_eq (h : (readBody line.body).isSome) :
    line.defines = strayNames line.body ++ [line.name] ∧ line.uses = usedNames line.body := by
  obtain ⟨rules, hrules⟩ := Option.isSome_iff_exists.mp h
  obtain ⟨later, expr, rfl, hline⟩ := readRules_renamed isName_placeholder hname hrules
  rw [← GrammarRule.text] at hline
  rw [GrammarRule.defines, GrammarRule.uses, strayNames, usedNames, hline, hrules]
  simp

end

/-! ## Bodies that are the same for all schemas -/

/-- A body is read as one rule, and what it uses is there. -/
def Steady (names : List Text) (body : Text) : Prop :=
  ∃ expr, readBody body = some [(placeholder, expr)] ∧ ∀ used ∈ expr.names, used ∈ names

theorem Steady.mono {names more : List Text} {body : Text} (h : Steady names body)
    (hsub : names ⊆ more) : Steady more body := by
  obtain ⟨expr, hread, hused⟩ := h
  exact ⟨expr, hread, fun used hmem => hsub (hused used hmem)⟩

theorem Steady.readBody_isSome {names : List Text} {body : Text} (h : Steady names body) :
    (readBody body).isSome := by
  obtain ⟨expr, hread, -⟩ := h
  exact Option.isSome_of_eq_some hread

theorem Steady.strayNames_eq {names : List Text} {body : Text} (h : Steady names body) :
    strayNames body = [] := by
  obtain ⟨expr, hread, -⟩ := h
  rw [strayNames, hread]
  rfl

theorem Steady.mem_of_mem_usedNames {names : List Text} {body : Text} (h : Steady names body) :
    ∀ used ∈ usedNames body, used ∈ names := by
  obtain ⟨expr, hread, hused⟩ := h
  rw [usedNames, hread, Option.getD_some, List.flatMap_singleton]
  exact hused

theorem steady_bodyOf {name : Text} (hname : IsName name) {shape : Shape} (h : Writable shape) :
    Steady ("ws".toList :: partNames name shape) (bodyOf name shape) := by
  have hread := readRules_of_isRule (isRule_ruleText hname h)
  obtain ⟨later, expr, hrules, hbody⟩ := readRules_renamed hname isName_placeholder hread
  have hsingle : [] ++ [(name, exprOf name shape)] = later ++ [(name, expr)] := hrules
  obtain ⟨rfl, hlast⟩ := List.append_inj' hsingle rfl
  cases hlast
  refine ⟨_, hbody, fun used hused => ?_⟩
  exact List.mem_cons.mpr (names_exprOf hused)

/-- The rule of a schema without parts. -/
theorem steady_leaf {name : Text} (hname : IsName name) {shape : Shape} (h : Writable shape)
    (hparts : partNames name shape = []) (names : List Text) :
    Steady ("ws".toList :: names) (bodyOf name shape) := by
  have hsteady := steady_bodyOf hname h
  rw [hparts] at hsteady
  exact hsteady.mono (List.cons_subset_cons _ (List.nil_subset _))

/-- The rules that any object brings along use each other. -/
theorem steady_helperRules : ∀ line ∈ helperRules,
    Steady ("ws".toList :: helperNames 1) line.body := by
  refine List.forall_mem_cons.mpr ⟨⟨seq [.rule "string".toList, wsRule, .text [':'], wsRule,
    .rule "value".toList], ?_, ?_⟩, List.forall_mem_cons.mpr ⟨⟨choice [seq [.rule "string".toList],
      seq [.rule "number".toList], seq [.text "true".toList], seq [.text "false".toList],
      seq [.text "null".toList]], ?_, ?_⟩, List.forall_mem_cons.mpr ⟨⟨stringExpr, ?_, ?_⟩,
        List.forall_mem_singleton.mpr ⟨seq [signExpr, digitsExpr, fractionExpr], ?_, ?_⟩⟩⟩⟩
  all_goals decide +kernel

/-! ## The bodies of a grammar -/

theorem WordyPlaces.behind {step : Text} {places : List (List Text)}
    (h : WordyPlaces (places.map (step :: ·))) : WordyPlaces places := by
  intro place hplace
  exact (List.forall_mem_cons.mp (h _ (List.mem_map_of_mem hplace))).2

theorem WordyPlaces.items {items : Outline} (h : WordyPlaces (Outline.array items).places) :
    WordyPlaces items.places := by
  rw [Outline.places] at h
  exact WordyPlaces.behind (List.forall_mem_cons.mp h).2

theorem WordyPlaces.property {propName : Text} {required : Bool} {part : Outline} {more : Parts}
    (h : WordyPlaces (Parts.cons propName required part more).places) :
    Wordy propName ∧ WordyPlaces part.places ∧ WordyPlaces more.places := by
  rw [Parts.places] at h
  obtain ⟨hpart, hmore⟩ := List.forall_mem_append.mp h
  obtain ⟨hname, hbehind⟩ := List.forall_mem_cons.mp hpart
  exact ⟨List.forall_mem_singleton.mp hname, WordyPlaces.behind hbehind, hmore⟩

theorem writableProperties_of_wordy : (parts : Parts) → WordyPlaces parts.places →
    WritableProperties parts.properties
  | .nil, _ => trivial
  | .cons _ _ _ more, h =>
      ⟨h.property.1, trivial, writableProperties_of_wordy more h.property.2.2⟩

/-- The names that are used by a part, among more of them. -/
theorem ws_cons_subset {front back : List Text} (h : front ⊆ back) :
    "ws".toList :: front ⊆ "ws".toList :: back := List.cons_subset_cons _ h

theorem steady_anyObject : Steady ("ws".toList :: helperNames 1)
    "\"\x7b\" ws (pair (ws \",\" ws pair)*)? ws \"\x7d\"".toList := by
  refine ⟨bracketExpr wsRule '\x7b' '\x7d' (.rep (seq [.rule "pair".toList,
    .rep (seq [wsRule, .text [','], wsRule, .rule "pair".toList]) 0 none]) 0 (some 1)), ?_, ?_⟩
  all_goals decide +kernel

theorem steady_anyItem : Steady ["ws".toList] anyItemRule := by
  refine ⟨choice [stringExpr, integerExpr, seq [.text "true".toList], seq [.text "false".toList],
    seq [.text "null".toList]], ?_, ?_⟩
  all_goals decide +kernel

theorem steady_ws : Steady ["ws".toList] wsGrammarRule.body := by
  refine ⟨spaceExpr, ?_, ?_⟩
  all_goals decide +kernel

mutual

/-- **The bodies without constants are the rules they are written for**, and use those of white
space and of the parts. -/
theorem steady_entryRules {name : Text} (hname : IsName name) : (outline : Outline) →
    WordyPlaces outline.places → ∀ line ∈ entryRules name outline, line.constants = false →
      Steady ("ws".toList :: (entryRules name outline).map GrammarRule.name) line.body
  | .string, _ => List.forall_mem_singleton.mpr fun _ => @steady_leaf _ hname .string trivial rfl _
  | .number, _ => List.forall_mem_singleton.mpr fun _ => @steady_leaf _ hname .number trivial rfl _
  | .integer, _ =>
      List.forall_mem_singleton.mpr fun _ => @steady_leaf _ hname .integer trivial rfl _
  | .boolean, _ =>
      List.forall_mem_singleton.mpr fun _ => @steady_leaf _ hname .boolean trivial rfl _
  | .null, _ => List.forall_mem_singleton.mpr fun _ => @steady_leaf _ hname .null trivial rfl _
  | .oneOf _, _ => List.forall_mem_singleton.mpr fun h => by cases h
  | .anyObject, _ => by
      have hhelpers : "ws".toList :: helperNames 1 ⊆
          "ws".toList :: (entryRules name .anyObject).map GrammarRule.name :=
        ws_cons_subset (List.subset_cons_self _ _)
      refine List.forall_mem_cons.mpr ⟨fun _ => steady_anyObject.mono hhelpers, ?_⟩
      intro line hline _
      exact (steady_helperRules line (List.append_nil helperRules ▸ hline)).mono hhelpers
  | .anyItems, _ => by
      have hitem : itemRuleName name ∈ (entryRules name .anyItems).map GrammarRule.name :=
        List.mem_cons_of_mem _ List.mem_cons_self
      refine List.forall_mem_cons.mpr ⟨fun _ => ?_, List.forall_mem_singleton.mpr fun _ =>
        steady_anyItem.mono (ws_cons_subset (List.nil_subset _))⟩
      exact (@steady_bodyOf name hname (.array .null) trivial).mono
        (ws_cons_subset (List.cons_subset.mpr ⟨hitem, List.nil_subset _⟩))
  | .array items, h => by
      have hrules := entryRules_array_perm name items
      have hnames := (hrules.map GrammarRule.name).symm.subset
      have hitems := steady_entryRules (isName_itemRuleName hname) items h.items
      intro line hline hconstants
      rcases List.mem_cons.mp (hrules.mem_iff.mp hline) with rfl | hitem
      · exact (@steady_bodyOf name hname (.array .null) trivial).mono (ws_cons_subset
          (List.cons_subset.mpr ⟨hnames (List.mem_cons_of_mem _ (name_mem_entryRules _ items)),
            List.nil_subset _⟩))
      · exact (hitems line hitem hconstants).mono
          (ws_cons_subset (List.Subset.trans (List.subset_cons_self _ _) hnames))
  | .object parts, h => by
      have hparts := steady_propertyRules hname parts h
      refine List.forall_mem_cons.mpr ⟨fun _ => ?_, fun line hline hconstants => ?_⟩
      · exact (@steady_bodyOf name hname (.object parts.properties)
          (writableProperties_of_wordy parts h)).mono (ws_cons_subset
            (List.subset_cons_of_subset _ (propertyRuleName_mem_propertyRules name parts)))
      · exact (hparts line hline hconstants).mono (ws_cons_subset (List.subset_cons_self _ _))

theorem steady_propertyRules {name : Text} (hname : IsName name) : (parts : Parts) →
    WordyPlaces parts.places → ∀ line ∈ propertyRules name parts, line.constants = false →
      Steady ("ws".toList :: (propertyRules name parts).map GrammarRule.name) line.body
  | .nil, _ => List.forall_mem_nil _
  | .cons propName required part more, h => by
      obtain ⟨hprop, hpartWordy, hmoreWordy⟩ := h.property
      have hrules := propertyRules_cons_perm name propName required part more
      have hnames := (hrules.map GrammarRule.name).symm.subset
      rw [List.map_append] at hnames
      have hpart := steady_entryRules (isName_propertyRuleName hname hprop) part hpartWordy
      have hmore := steady_propertyRules hname more hmoreWordy
      intro line hline hconstants
      rcases List.mem_append.mp (hrules.mem_iff.mp hline) with hhere | hlater
      · exact (hpart line hhere hconstants).mono
          (ws_cons_subset (List.Subset.trans (List.subset_append_left _ _) hnames))
      · exact (hmore line hlater hconstants).mono
          (ws_cons_subset (List.Subset.trans (List.subset_append_right _ _) hnames))

end

/-! ## Constants -/

/-- The body of a rule for constants. -/
def constantsText (constants : List Value) : Text :=
  " | ".toList.intercalate (constants.map constantLiteral)

mutual

/-- The constants of the parts that list some. -/
def Outline.constants : Outline → List (List Value)
  | .string | .number | .integer | .boolean | .null | .anyObject | .anyItems => []
  | .oneOf constants => [constants]
  | .array items => items.constants
  | .object parts => parts.constants

def Parts.constants : Parts → List (List Value)
  | .nil => []
  | .cons _ _ part more => part.constants ++ more.constants

end

/-- The bodies that are made of constants. -/
def constantBodies (lines : List GrammarRule) : List Text :=
  (lines.filter GrammarRule.constants).map GrammarRule.body

theorem constantBodies_append (front back : List GrammarRule) :
    constantBodies (front ++ back) = constantBodies front ++ constantBodies back := by
  rw [constantBodies, List.filter_append, List.map_append]
  rfl

theorem perm_constantBodies {lines others : List GrammarRule} (h : lines.Perm others) :
    (constantBodies lines).Perm (constantBodies others) := (h.filter _).map _

mutual

theorem constantBodies_entryRules (name : Text) : (outline : Outline) →
    (constantBodies (entryRules name outline)).Perm (outline.constants.map constantsText)
  | .string | .number | .integer | .boolean | .null | .oneOf _ | .anyObject | .anyItems =>
      List.Perm.refl _
  | .array items =>
      (perm_constantBodies (entryRules_array_perm name items)).trans
        (constantBodies_entryRules (itemRuleName name) items)
  | .object parts => constantBodies_propertyRules name parts

theorem constantBodies_propertyRules (name : Text) : (parts : Parts) →
    (constantBodies (propertyRules name parts)).Perm (parts.constants.map constantsText)
  | .nil => List.Perm.refl _
  | .cons propName required part more => by
      have hpart := constantBodies_entryRules (propertyRuleName name propName) part
      have hmore := constantBodies_propertyRules name more
      have hrules := perm_constantBodies (propertyRules_cons_perm name propName required part more)
      rw [constantBodies_append] at hrules
      rw [Parts.constants, List.map_append]
      exact hrules.trans (hpart.append hmore)

end

/-- Names that the constants of a schema define. -/
def Outline.strays (outline : Outline) : List Text :=
  outline.constants.flatMap fun constants => strayNames (constantsText constants)

/-- The names of the properties on the ways can be parts of names, no two ways are alike as they are
written, and there are not several objects without properties. The constants can be read, define
new names only, and use names that are there. -/
structure Legible (outline : Outline) : Prop where
  wordy : WordyPlaces outline.places
  distinct : (outline.places.map wayText).Nodup
  single : outline.anyObjects ≤ 1
  readable : ∀ constants ∈ outline.constants, (readBody (constantsText constants)).isSome
  strays : outline.strays.Nodup
  apart : ∀ stray ∈ outline.strays, stray ∉ outline.ruleNames
  known : ∀ constants ∈ outline.constants, ∀ used ∈ usedNames (constantsText constants),
    used ∈ outline.ruleNames ++ outline.strays

/-- Scalars that need no escapes define nothing and use nothing. -/
theorem legible_of_scalars {outline : Outline} (hwordy : WordyPlaces outline.places)
    (hdistinct : (outline.places.map wayText).Nodup) (hsingle : outline.anyObjects ≤ 1)
    (hconstants : ∀ constants ∈ outline.constants, Writable (.oneOf constants)) :
    Legible outline := by
  have hsteady : ∀ constants ∈ outline.constants, Steady ["ws".toList] (constantsText constants) :=
    fun constants hmem => @steady_bodyOf placeholder isName_placeholder (.oneOf constants)
      (hconstants constants hmem)
  have hnone : outline.strays = [] :=
    List.flatMap_eq_nil_iff.mpr fun constants hmem => (hsteady constants hmem).strayNames_eq
  have hws : "ws".toList ∈ outline.ruleNames := List.mem_cons_self
  refine ⟨hwordy, hdistinct, hsingle, fun constants hmem => (hsteady constants hmem).readBody_isSome,
    hnone ▸ List.nodup_nil, hnone ▸ List.forall_mem_nil _, fun constants hmem used hused => ?_⟩
  have hsame := List.mem_singleton.mp ((hsteady constants hmem).mem_of_mem_usedNames used hused)
  exact List.mem_append_left _ (hsame ▸ hws)

section

variable {outline : Outline}

theorem legal_iff : (∀ line ∈ grammarRules outline, IsName line.name) ↔
    WordyPlaces outline.places := by
  rw [← isName_ruleNames_iff, ← List.forall_mem_map]
  simp only [(names_grammarRules outline).mem_iff]

theorem constantBodies_grammarRules (outline : Outline) :
    (constantBodies (grammarRules outline)).Perm (outline.constants.map constantsText) :=
  (perm_constantBodies (grammarRules_perm outline)).trans
    (constantBodies_entryRules rootName outline)

theorem steady_grammarRules (hwordy : WordyPlaces outline.places) :
    ∀ line ∈ grammarRules outline, line.constants = false →
      Steady outline.ruleNames line.body := by
  have hrules := grammarRules_perm outline
  have hnames := (hrules.map GrammarRule.name).symm.trans (names_grammarRules outline)
  intro line hline hconstants
  rcases List.mem_cons.mp (hrules.mem_iff.mp hline) with rfl | hentry
  · exact steady_ws.mono (List.cons_subset.mpr ⟨List.mem_cons_self, List.nil_subset _⟩)
  · exact (steady_entryRules isName_rootName outline hwordy line hentry hconstants).mono
      hnames.subset

/-- What all bodies without constants have, all bodies have if those of the constants do. -/
theorem forall_bodies_iff {P : Text → Prop}
    (h : ∀ line ∈ grammarRules outline, line.constants = false → P line.body) :
    (∀ line ∈ grammarRules outline, P line.body) ↔
      ∀ constants ∈ outline.constants, P (constantsText constants) := by
  have hbodies := constantBodies_grammarRules outline
  have hmap : (∀ constants ∈ outline.constants, P (constantsText constants)) ↔
      ∀ body ∈ constantBodies (grammarRules outline), P body := by
    simp only [hbodies.mem_iff, List.forall_mem_map]
  rw [hmap, constantBodies, List.forall_mem_map]
  constructor
  · intro hall line hline
    exact hall line (List.mem_filter.mp hline).1
  · intro hall line hline
    cases hconstants : line.constants with
    | false => exact h line hline hconstants
    | true => exact hall line (List.mem_filter.mpr ⟨hline, hconstants⟩)

theorem strays_perm (hwordy : WordyPlaces outline.places) :
    ((grammarRules outline).flatMap fun line => strayNames line.body).Perm outline.strays := by
  have hsplit := (List.filter_append_perm GrammarRule.constants (grammarRules outline)).symm
  have hnone : ((grammarRules outline).filter fun line => !line.constants).flatMap
      (fun line => strayNames line.body) = [] := by
    rw [List.flatMap_eq_nil_iff]
    intro line hline
    obtain ⟨hmem, hconstants⟩ := List.mem_filter.mp hline
    exact (steady_grammarRules hwordy line hmem (by simpa using hconstants)).strayNames_eq
  have hsome := (constantBodies_grammarRules outline).flatMap_right strayNames
  refine (hsplit.flatMap_right _).trans ?_
  rw [List.flatMap_append, hnone, List.append_nil]
  rwa [constantBodies, List.flatMap_map, List.flatMap_map] at hsome

end

/-! ## When the rules are well defined -/

section

variable {outline : Outline} (hwordy : WordyPlaces outline.places)

include hwordy

theorem readable_bodies_iff : (∀ line ∈ grammarRules outline, (readBody line.body).isSome) ↔
    ∀ constants ∈ outline.constants, (readBody (constantsText constants)).isSome :=
  @forall_bodies_iff outline (fun body => (readBody body).isSome) fun line hline hconstants =>
    (steady_grammarRules hwordy line hline hconstants).readBody_isSome

theorem readable_lines_iff : (∀ line ∈ grammarRules outline, (readRules line.text).isSome) ↔
    ∀ constants ∈ outline.constants, (readBody (constantsText constants)).isSome := by
  rw [← readable_bodies_iff hwordy]
  exact forall₂_congr fun line hline => readable_iff (legal_iff.mpr hwordy line hline)

variable (hread : ∀ constants ∈ outline.constants, (readBody (constantsText constants)).isSome)

include hread

/-- **The names that a grammar defines** are those its rules are written for, and those of the
constants. -/
theorem defines_perm : ((grammarRules outline).flatMap GrammarRule.defines).Perm
    (outline.ruleNames ++ outline.strays) := by
  have hbodies := (readable_bodies_iff hwordy).mpr hread
  have hlegal := legal_iff.mpr hwordy
  have hdefines : (grammarRules outline).flatMap GrammarRule.defines =
      (grammarRules outline).flatMap fun line => strayNames line.body ++ [line.name] :=
    List.flatMap_congr fun line hline => (defines_eq (hlegal line hline) (hbodies line hline)).1
  rw [hdefines]
  refine (List.flatMap_append_perm _ _ _).symm.trans ?_
  rw [← List.map_eq_flatMap]
  exact ((strays_perm hwordy).append (names_grammarRules outline)).trans List.perm_append_comm

theorem once_iff : ((grammarRules outline).flatMap GrammarRule.defines).Nodup ↔
    ((outline.places.map wayText).Nodup ∧ outline.anyObjects ≤ 1) ∧ outline.strays.Nodup ∧
      ∀ stray ∈ outline.strays, stray ∉ outline.ruleNames := by
  rw [(defines_perm hwordy hread).nodup_iff, List.nodup_append, nodup_ruleNames_iff]
  refine and_congr_right' (and_congr_right' ⟨?_, ?_⟩)
  · exact fun hne stray hstray hname => hne stray hname stray hstray rfl
  · rintro hne name hname stray hstray rfl
    exact hne name hstray hname

theorem defined_iff : (∀ line ∈ grammarRules outline, ∀ used ∈ line.uses,
    used ∈ (grammarRules outline).flatMap GrammarRule.defines) ↔
      ∀ constants ∈ outline.constants, ∀ used ∈ usedNames (constantsText constants),
        used ∈ outline.ruleNames ++ outline.strays := by
  have hbodies := (readable_bodies_iff hwordy).mpr hread
  have hlegal := legal_iff.mpr hwordy
  rw [← @forall_bodies_iff outline fun body => ∀ used ∈ usedNames body,
    used ∈ outline.ruleNames ++ outline.strays]
  · refine forall₂_congr fun line hline => ?_
    rw [(defines_eq (hlegal line hline) (hbodies line hline)).2]
    simp only [(defines_perm hwordy hread).mem_iff]
  · intro line hline hconstants used hused
    have hsteady := steady_grammarRules hwordy line hline hconstants
    exact List.mem_append_left _ (hsteady.mem_of_mem_usedNames used hused)

end

/-- **The rules of an outline are well defined if and only if it is legible.** -/
theorem wellDefined_iff (outline : Outline) :
    WellDefined (grammarRules outline) ↔ Legible outline := by
  constructor
  · intro h
    have hwordy := legal_iff.mp h.legal
    have hread := (readable_lines_iff hwordy).mp h.readable
    obtain ⟨⟨hdistinct, hsingle⟩, hstrays, hapart⟩ := (once_iff hwordy hread).mp h.once
    exact ⟨hwordy, hdistinct, hsingle, hread, hstrays, hapart,
      (defined_iff hwordy hread).mp h.defined⟩
  · rintro ⟨hwordy, hdistinct, hsingle, hread, hstrays, hapart, hknown⟩
    exact ⟨legal_iff.mpr hwordy, (readable_lines_iff hwordy).mpr hread,
      (once_iff hwordy hread).mpr ⟨⟨hdistinct, hsingle⟩, hstrays, hapart⟩,
      (defined_iff hwordy hread).mpr hknown⟩

/-- **The rules of the grammar of a schema are well defined if and only if the schema is
legible.** If the names can be parts of names and the constants can be read, the text is a grammar
just if the schema is legible. -/
theorem jsonSchemaToGbnf_wellDefined_iff {schema : Value} {grammar : Text}
    (h : jsonSchemaToGbnf schema = .ok grammar) :
    ∃ outline, outlineOf schema = .ok outline ∧ grammar = linesText (grammarRules outline) ∧
      (WellDefined (grammarRules outline) ↔ Legible outline) ∧
      (WordyPlaces outline.places →
        (∀ constants ∈ outline.constants, (readBody (constantsText constants)).isSome) →
          (IsGrammar grammar ↔ Legible outline)) := by
  rw [jsonSchemaToGbnf_eq_outline] at h
  cases houtline : outlineOf schema with
  | error e =>
      rw [houtline] at h
      cases h
  | ok outline =>
      rw [houtline] at h
      cases h
      have hne : grammarRules outline ≠ [] :=
        List.append_ne_nil_of_left_ne_nil (ownRules_ne_nil rootName outline) _
      refine ⟨outline, rfl, rfl, wellDefined_iff outline, fun hwordy hread => ?_⟩
      rw [← wellDefined_iff outline]
      exact isGrammar_linesText_iff hne (legal_iff.mpr hwordy)
        ((readable_lines_iff hwordy).mpr hread)

/-! ### Objects with one property -/

def recordSchema (propName : Text) : Value :=
  .obj [("properties".toList, .obj [(propName, .obj [("type".toList, .str "string".toList)])]),
    ("type".toList, .str "object".toList)]

theorem outlineOf_recordSchema (propName : Text) :
    outlineOf (recordSchema propName) = .ok (.object (.cons propName false .string .nil)) := by
  have hproperties : (recordSchema propName).get "properties" =
      some (.obj [(propName, .obj [("type".toList, .str "string".toList)])]) := rfl
  have hobject : ((recordSchema propName).get "type").bind asStr = some "object" := rfl
  have hstring : ((Value.obj [("type".toList, .str "string".toList)]).get "type").bind asStr =
      some "string" := rfl
  have hpart : outlineOf (.obj [("type".toList, .str "string".toList)]) = .ok .string := by
    rw [outlineOf, hstring]
    rfl
  have hparts : partsOutline [(propName, .obj [("type".toList, .str "string".toList)])] [] =
      .ok (.cons propName false .string .nil) := by
    rw [partsOutline, hpart, partsOutline]
    rfl
  have hrequired : requiredNames (recordSchema propName) = [] := rfl
  have hobjectOutline : objectOutline (recordSchema propName) =
      .ok (.object (.cons propName false .string .nil)) := by
    rw [objectOutline_of_properties hproperties, hrequired, hparts]
    rfl
  rw [outlineOf, hobject]
  exact hobjectOutline

theorem jsonSchemaToGbnf_recordSchema (propName : Text) :
    jsonSchemaToGbnf (recordSchema propName) =
      .ok (linesText (grammarRules (.object (.cons propName false .string .nil)))) := by
  rw [jsonSchemaToGbnf_eq_outline, outlineOf_recordSchema]
  rfl

/-- The grammar of objects with a name. -/
theorem jsonSchemaToGbnf_wellDefined_name :
    ∃ outline, outlineOf (recordSchema "name".toList) = .ok outline ∧
      linesText (grammarRules (.object (.cons "name".toList false .string .nil))) =
        linesText (grammarRules outline) ∧
      (WellDefined (grammarRules outline) ↔ Legible outline) ∧
      (WordyPlaces outline.places →
        (∀ constants ∈ outline.constants, (readBody (constantsText constants)).isSome) →
          (IsGrammar (linesText (grammarRules (.object (.cons "name".toList false .string .nil)))) ↔
            Legible outline)) :=
  jsonSchemaToGbnf_wellDefined_iff (jsonSchemaToGbnf_recordSchema "name".toList)

/-- A space is no part of a name. -/
theorem space_not_legal :
    ¬ ∀ schema grammar, jsonSchemaToGbnf schema = .ok grammar →
      ∃ outline, outlineOf schema = .ok outline ∧ grammar = linesText (grammarRules outline) ∧
        WellDefined (grammarRules outline) := by
  intro hall
  obtain ⟨outline, houtline, -, hdefined⟩ :=
    hall _ _ (jsonSchemaToGbnf_recordSchema "first name".toList)
  rw [outlineOf_recordSchema] at houtline
  cases houtline
  have hwordy := (legal_iff.mp hdefined.legal) ["first name".toList] List.mem_cons_self
  have hnot : ¬ Wordy "first name".toList := by decide +kernel
  exact hnot (List.forall_mem_singleton.mp hwordy)

end HiveBear.Inference
