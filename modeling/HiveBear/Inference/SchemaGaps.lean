/-
# Gaps in the grammar of a schema

The comma between two properties of an object is there even if an optional one is left out. So the
grammar of a schema with such a gap derives texts that are no JSON: the others are those that match
their schema at every strict text that is spelled like it.
-/

import HiveBear.Inference.SchemaLanguage
import HiveBear.Library.JsonFailure

namespace HiveBear.Inference

open Gbnf JsonText

/-! ## Texts without white space -/

/-- A key and a value. -/
def pairText (propName value : Text) : Text := lettersText (keyLetters propName) ++ ':' :: value

section

variable {rules : Rules} {name propName front back text : Text} {shape : Shape}
  {more properties : Properties}

theorem derives_noPart : Derives rules (seq (partItems name propName false)) [] :=
  derives_seq_singleton.mpr (derives_opt_iff.mpr (Or.inl rfl))

variable (hspace : Derives rules wsRule [])

include hspace

theorem derives_part (hprop : Plain propName) (required : Bool)
    (hvalue : Derives rules (.rule (propertyRuleName name propName)) text) :
    Derives rules (seq (partItems name propName required)) (pairText propName text) := by
  have hpair : Derives rules (seq (pairItems propName (propertyRuleName name propName)))
      (pairText propName text) := by
    have htext : ['"' :: (propName ++ ['"']), [], [':'], [], text].flatten =
        pairText propName text := by
      rw [pairText, lettersText_keyLetters hprop]
      simp
    rw [← htext]
    exact derives_seq_flatten (.cons (.text _) (.cons hspace (.cons (.text [':']) (.cons hspace
      (.cons hvalue .nil)))))
  cases required with
  | true => exact hpair
  | false => exact derives_seq_singleton.mpr (derives_opt_iff.mpr (Or.inr hpair))

/-- The comma is there in any case. -/
theorem derives_parts {required : Bool} (hne : more ≠ .nil)
    (hfirst : Derives rules (seq (partItems name propName required)) front)
    (hmore : Derives rules (seq (partsItems name more)) back) :
    Derives rules (seq (partsItems name (.cons propName required shape more)))
      (front ++ ',' :: back) := by
  have hcomma : Derives rules (seq [wsRule, .text [','], wsRule]) [','] :=
    derives_seq_flatten (.cons hspace (.cons (.text [',']) (.cons hspace .nil)))
  cases more with
  | nil => exact absurd rfl hne
  | cons =>
      exact derives_seq_append.mpr ⟨front, _, rfl, hfirst,
        derives_seq_append.mpr ⟨[','], back, rfl, hcomma, hmore⟩⟩

theorem derives_objectText (h : Derives rules (seq (partsItems name properties)) text) :
    Derives rules (exprOf name (.object properties)) ('\x7b' :: (text ++ ['\x7d'])) := by
  have hopen : Derives rules (seq [.text ['\x7b'], wsRule]) ['\x7b'] :=
    derives_seq_flatten (.cons (.text ['\x7b']) (.cons hspace .nil))
  have hclose : Derives rules (seq [wsRule, .text ['\x7d']]) ['\x7d'] :=
    derives_seq_flatten (.cons hspace (.cons (.text ['\x7d']) .nil))
  exact derives_seq_append.mpr ⟨['\x7b'], _, rfl, hopen,
    derives_seq_append.mpr ⟨text, _, rfl, h, hclose⟩⟩

/-- An array of nothing or of one item. -/
theorem derives_arrayText (h : text = [] ∨ Derives rules (.rule (itemRuleName name)) text) :
    Derives rules (exprOf name (.array shape)) ('[' :: (text ++ [']'])) := by
  have hlist : Derives rules (listExpr wsRule (.rule (itemRuleName name))) text := by
    refine derives_opt_iff.mpr (h.imp_right fun hitem => ?_)
    have hnone : Derives rules (.rep (seq [.text [','], wsRule, .rule (itemRuleName name)]) 0 none)
        [] := derives_star_iff.mpr ⟨[], rfl, List.forall_mem_nil _⟩
    have htext : [text, []].flatten = text := by simp
    rw [← htext]
    exact derives_seq_flatten (.cons hitem (.cons hnone .nil))
  have htext : [['['], [], text, [], [']']].flatten = '[' :: (text ++ [']']) := by simp
  rw [← htext]
  exact derives_seq_flatten (.cons (.text ['[']) (.cons hspace (.cons hlist (.cons hspace
    (.cons (.text [']']) .nil)))))

end

/-! ## Samples -/

def zero : Number where
  negative := false
  whole := ⟨['0'], List.cons_ne_nil _ _, List.forall_mem_singleton.mpr rfl⟩
  fraction := none
  exponent := none

mutual

/-- Every schema has a tree that its rule derives. -/
theorem exists_sample {rules : Rules}
    (hspace : ∀ s, Derives rules wsRule s ↔ ∃ space : Space, s = space.text) :
    (shape : Shape) → {name : Text} → Writable shape → HasRules rules (allRulesOf name shape) →
      ∃ tree : Tree, Derives rules (.rule name) tree.text
  | .string, _, h, hrules =>
      ⟨_, (describes_rule hspace .string h trivial hrules _).mpr ⟨.str [], ⟨[], rfl⟩, rfl⟩⟩
  | .number, _, h, hrules =>
      ⟨_, (describes_rule hspace .number h trivial hrules _).mpr ⟨.num zero, ⟨zero, rfl⟩, rfl⟩⟩
  | .integer, _, h, hrules =>
      ⟨_, (describes_rule hspace .integer h trivial hrules _).mpr
        ⟨.num zero, ⟨zero, rfl, rfl, rfl⟩, rfl⟩⟩
  | .boolean, _, h, hrules =>
      ⟨_, (describes_rule hspace .boolean h trivial hrules _).mpr ⟨.bool true, ⟨true, rfl⟩, rfl⟩⟩
  | .null, _, h, hrules =>
      ⟨_, (describes_rule hspace .null h trivial hrules _).mpr ⟨.null, rfl, rfl⟩⟩
  | .oneOf constants, _, h, hrules => by
      obtain ⟨constant, hconstant⟩ := List.exists_mem_of_ne_nil constants h.1
      obtain ⟨tree, htext, -⟩ := exists_tree constant (h.2 constant hconstant).2.1
      exact ⟨tree, (describes_rule hspace (.oneOf constants) h trivial hrules _).mpr
        ⟨tree, ⟨constant, hconstant, htext⟩, rfl⟩⟩
  | .array items, _, h, hrules => by
      refine ⟨.arr .none .nil, (derives_rule (hrules _ List.mem_cons_self)).mpr ?_⟩
      exact derives_arrayText ((hspace []).mpr ⟨.none, rfl⟩) (Or.inl rfl)
  | .object properties, _, h, hrules => by
      obtain ⟨hrule, hparts⟩ := List.forall_mem_cons.mp hrules
      obtain ⟨written, hwritten, -⟩ := exists_sampleFields hspace properties h hparts
      refine ⟨.obj .none written, (derives_rule hrule).mpr ?_⟩
      have htext : (Tree.obj .none written).text = '\x7b' :: (written.text ++ ['\x7d']) := by
        simp [Tree.text, Space.none]
      rw [htext]
      exact derives_objectText ((hspace []).mpr ⟨.none, rfl⟩) hwritten

/-- The properties of an object, all of them. -/
theorem exists_sampleFields {rules : Rules}
    (hspace : ∀ s, Derives rules wsRule s ↔ ∃ space : Space, s = space.text) :
    (properties : Properties) → {name : Text} → WritableProperties properties →
      HasRules rules (propertyRulesOf name properties) →
        ∃ written : Fields, Derives rules (seq (partsItems name properties)) written.text ∧
          (written = .nil ↔ properties = .nil)
  | .nil, _, _, _ => ⟨.nil, .empty, iff_of_true rfl rfl⟩
  | .cons propName required shape more, name, h, hrules => by
      obtain ⟨hshape, hmore⟩ := hasRules_cons hrules
      have hempty := (hspace []).mpr ⟨.none, rfl⟩
      obtain ⟨tree, htree⟩ := exists_sample hspace shape h.2.1 hshape
      obtain ⟨written, hwritten, hnil⟩ := exists_sampleFields hspace more h.2.2 hmore
      have hpart := derives_part hempty h.1.plain required htree
      refine ⟨.cons .none (keyLetters propName) .none .none tree .none written, ?_, by simp⟩
      have htext : (Fields.cons .none (keyLetters propName) .none .none tree .none written).text =
          pairText propName tree.text ++ written.rest := by
        rw [Fields.text_cons, pairText]
        simp [Space.none]
      rw [htext]
      by_cases hmoreNil : more = .nil
      · subst hmoreNil
        rw [hnil.mpr rfl, Fields.rest, List.append_nil]
        exact hpart
      · have hrest : written.rest = ',' :: written.text := by
          cases written with
          | nil => exact absurd (hnil.mp rfl) hmoreNil
          | cons => rfl
        rw [hrest]
        exact derives_parts hempty hmoreNil hpart hwritten

end

/-! ## Texts that are no JSON -/

section

variable {rules : Rules}
  (hspace : ∀ s, Derives rules wsRule s ↔ ∃ space : Space, s = space.text)

include hspace

/-- Where an optional property is left out the fields of an object are stuck. -/
theorem exists_gap {name : Text} {properties : Properties} (h : WritableProperties properties)
    (hgap : ¬ AllRequired properties) (hrules : HasRules rules (propertyRulesOf name properties)) :
    ∃ text, Derives rules (seq (partsItems name properties)) text ∧ StuckFields (text ++ ['\x7d']) ∧
      (1 < properties.names.length → ∃ c more, text = c :: more ∧ (c = ',' ∨ c = '"')) := by
  induction properties using partsItems.induct with
  | case1 => exact absurd trivial hgap
  | case2 propName required shape =>
      cases required with
      | true => exact absurd ⟨rfl, trivial⟩ hgap
      | false => exact ⟨[], derives_noPart, stuckFields_of_head (Or.inr rfl), fun hlt => by
          simp [Properties.names] at hlt⟩
  | case3 propName required shape more hmoreNil ih =>
      obtain ⟨hshape, hmore⟩ := hasRules_cons hrules
      have hempty := (hspace []).mpr ⟨.none, rfl⟩
      cases required with
      | false =>
          obtain ⟨written, hwritten, -⟩ := exists_sampleFields hspace more h.2.2 hmore
          exact ⟨_, derives_parts hempty hmoreNil derives_noPart hwritten,
            stuckFields_of_head (Or.inl rfl), fun _ => ⟨',', _, rfl, Or.inl rfl⟩⟩
      | true =>
          obtain ⟨tree, htree⟩ := exists_sample hspace shape h.2.1 hshape
          obtain ⟨text, htext, hstuck, -⟩ := ih h.2.2 (fun hall => hgap ⟨rfl, hall⟩) hmore
          have hpart := derives_part hempty h.1.plain true htree
          refine ⟨_, derives_parts hempty hmoreNil hpart htext, ?_,
            fun _ => ⟨'"', _, rfl, Or.inr rfl⟩⟩
          have hmoreStuck := stuckFields_more (keyLetters propName) tree hstuck
          simpa [pairText] using hmoreStuck

end

mutual

/-- A schema with a gap has a text that its rule derives and that is stuck. -/
theorem exists_stuck {rules : Rules}
    (hspace : ∀ s, Derives rules wsRule s ↔ ∃ space : Space, s = space.text) :
    (shape : Shape) → {name : Text} → Writable shape → ¬ Gapless shape →
      HasRules rules (allRulesOf name shape) → ∃ text, Derives rules (.rule name) text ∧ Stuck text
  | .string, _, _, hgap, _ | .number, _, _, hgap, _ | .integer, _, _, hgap, _
  | .boolean, _, _, hgap, _ | .null, _, _, hgap, _ | .oneOf _, _, _, hgap, _ =>
      absurd trivial hgap
  | .array items, _, h, hgap, hrules => by
      obtain ⟨hrule, hparts⟩ := List.forall_mem_cons.mp hrules
      obtain ⟨text, htext, hstuck⟩ := exists_stuck hspace items h hgap (hasRules_items hparts)
      exact ⟨_, (derives_rule hrule).mpr
        (derives_arrayText ((hspace []).mpr ⟨.none, rfl⟩) (Or.inr htext)), stuck_arr hstuck⟩
  | .object properties, name, h, hgap, hrules => by
      obtain ⟨hrule, hparts⟩ := List.forall_mem_cons.mp hrules
      have hfields : ∃ text, Derives rules (seq (partsItems name properties)) text ∧
          StuckFields (text ++ ['\x7d']) ∧ ∃ c more, text = c :: more ∧ (c = ',' ∨ c = '"') := by
        by_cases hinner : GaplessProperties properties
        · obtain ⟨hnot, hlong⟩ := not_or.mp fun hhere => hgap ⟨hhere, hinner⟩
          obtain ⟨text, htext, hstuck, hhead⟩ := exists_gap hspace h hnot hparts
          exact ⟨text, htext, hstuck, hhead (Nat.not_le.mp hlong)⟩
        · exact exists_stuckFields hspace properties h hinner hparts
      obtain ⟨text, htext, hstuck, c, more, rfl, hc⟩ := hfields
      exact ⟨_, (derives_rule hrule).mpr (derives_objectText ((hspace []).mpr ⟨.none, rfl⟩) htext),
        stuck_obj hstuck ⟨c, _, rfl, hc⟩⟩

theorem exists_stuckFields {rules : Rules}
    (hspace : ∀ s, Derives rules wsRule s ↔ ∃ space : Space, s = space.text) :
    (properties : Properties) → {name : Text} → WritableProperties properties →
      ¬ GaplessProperties properties → HasRules rules (propertyRulesOf name properties) →
        ∃ text, Derives rules (seq (partsItems name properties)) text ∧
          StuckFields (text ++ ['\x7d']) ∧ ∃ c more, text = c :: more ∧ (c = ',' ∨ c = '"')
  | .nil, _, _, hgap, _ => absurd trivial hgap
  | .cons propName required shape more, name, h, hgap, hrules => by
      obtain ⟨hshape, hmore⟩ := hasRules_cons hrules
      have hempty := (hspace []).mpr ⟨.none, rfl⟩
      by_cases hinner : Gapless shape
      · have hgapMore : ¬ GaplessProperties more := fun hall => hgap ⟨hinner, hall⟩
        have hmoreNil : more ≠ .nil := by
          rintro rfl
          exact hgapMore trivial
        obtain ⟨tree, htree⟩ := exists_sample hspace shape h.2.1 hshape
        obtain ⟨text, htext, hstuck, -⟩ := exists_stuckFields hspace more h.2.2 hgapMore hmore
        have hpart := derives_part hempty h.1.plain required htree
        refine ⟨_, derives_parts hempty hmoreNil hpart htext, ?_, '"', _, rfl, Or.inr rfl⟩
        have hmoreStuck := stuckFields_more (keyLetters propName) tree hstuck
        simpa [pairText] using hmoreStuck
      · obtain ⟨text, htext, hstuck⟩ := exists_stuck hspace shape h.2.1 hinner hshape
        have hpart := derives_part hempty h.1.plain required htext
        by_cases hmoreNil : more = .nil
        · subst hmoreNil
          refine ⟨_, hpart, ?_, '"', _, rfl, Or.inr rfl⟩
          have hvalue := stuckFields_value (keyLetters propName) hstuck ['\x7d']
          simpa [pairText] using hvalue
        · obtain ⟨written, hwritten, -⟩ := exists_sampleFields hspace more h.2.2 hmore
          refine ⟨_, derives_parts hempty hmoreNil hpart hwritten, ?_, '"', _, rfl, Or.inr rfl⟩
          have hvalue := stuckFields_value (keyLetters propName) hstuck
            (',' :: (written.text ++ ['\x7d']))
          simpa [pairText] using hvalue

end

/-- A grammar with a gap derives a text that is no JSON. -/
theorem not_matches_of_gap {shape : Shape} (h : Regular shape) (hgap : ¬ Gapless shape) :
    ∃ text, ¬ Matches (schemaRules shape) shape text := by
  obtain ⟨text, htext, hstuck⟩ := exists_stuck (derives_wsRule_iff h.distinct) shape h.writable hgap
    (lookup_schemaRules h.distinct).2
  refine ⟨text, fun hmatches => ?_⟩
  obtain ⟨value, hvalue, -⟩ := hmatches.sound htext
  rw [fromStr_of_stuck hstuck] at hvalue
  cases hvalue

/-! ## When a grammar matches its schema -/

def personRequired (ageRequired : Bool) : List Text :=
  if ageRequired then ["age".toList, "name".toList] else ["name".toList]

/-- The schema of an object with an age and a name, which is required. -/
def personSchema (ageRequired : Bool) : Value :=
  .obj [("properties".toList, .obj [
      ("age".toList, .obj [("type".toList, .str "integer".toList)]),
      ("name".toList, .obj [("type".toList, .str "string".toList)])]),
    ("required".toList, .arr ((personRequired ageRequired).map .str)),
    ("type".toList, .str "object".toList)]

def personShape (ageRequired : Bool) : Shape :=
  .object (.cons "age".toList ageRequired .integer (.cons "name".toList true .string .nil))

theorem hasShape_person (ageRequired : Bool) :
    HasShape (personSchema ageRequired) (personShape ageRequired) := by
  have hsimple {type : Text} {shape : Shape} (htype : simpleShape (.str type) = some shape) :
      HasShape (.obj [("type".toList, .str type)]) shape :=
    .simple ⟨rfl, rfl, rfl⟩ htype
  have hage : decide ("age".toList ∈ personRequired ageRequired) = ageRequired := by
    cases ageRequired <;> decide +kernel
  have hname : decide ("name".toList ∈ personRequired ageRequired) = true := by
    cases ageRequired <;> decide +kernel
  have hthere : ∀ name ∈ personRequired ageRequired, name ∈ ["age".toList, "name".toList] := by
    cases ageRequired with
    | true => exact fun _ hmem => hmem
    | false => exact List.forall_mem_singleton.mpr (List.mem_cons_of_mem _ List.mem_cons_self)
  have hshapes : HaveShapes (personRequired ageRequired) _ (.cons "age".toList
      (decide ("age".toList ∈ personRequired ageRequired)) .integer (.cons "name".toList
        (decide ("name".toList ∈ personRequired ageRequired)) .string .nil)) :=
    .cons (@hsimple "integer".toList _ rfl) (.cons (@hsimple "string".toList _ rfl) .nil)
  rw [hage, hname] at hshapes
  exact .object ⟨rfl, rfl, rfl⟩ rfl (Or.inr rfl) hthere hshapes

theorem writable_person (ageRequired : Bool) : Writable (personShape ageRequired) :=
  ⟨by decide +kernel, trivial, by decide +kernel, trivial, trivial⟩

theorem distinct_person (ageRequired : Bool) : Distinct (personShape ageRequired) := by
  have hnames : ((rulesOf rootName (personShape ageRequired)).map Prod.fst) =
      ["root-age".toList, "root-name".toList] := rfl
  rw [Distinct, hnames]
  decide +kernel

/-- An object with a comma too many: the age is left out, the comma behind it is not. -/
theorem derives_danglingComma :
    Derives (schemaRules (personShape false)) (.rule rootName)
      "\x7b,\"name\":\"\"\x7d".toList := by
  obtain ⟨hws, hrules⟩ := lookup_schemaRules (distinct_person false)
  obtain ⟨hroot, hparts⟩ := List.forall_mem_cons.mp hrules
  generalize schemaRules (personShape false) = rules at hws hroot hparts
  have hspace : Derives rules wsRule [] := .rule hws (derives_spaceExpr.mpr ⟨.none, rfl⟩)
  have hname : Derives rules (.rule (propertyRuleName rootName "name".toList)) ['"', '"'] :=
    .rule (hparts (_, .string) (List.mem_cons_of_mem _ List.mem_cons_self))
      (derives_stringExpr.mpr ⟨[], rfl⟩)
  have hpart := derives_part hspace (by decide +kernel) true hname
  have hfields : Derives rules (seq (partsItems rootName (.cons "age".toList false .integer
      (.cons "name".toList true .string .nil)))) ([] ++ ',' :: pairText "name".toList ['"', '"']) :=
    derives_parts hspace (by simp) derives_noPart hpart
  have htext : '\x7b' :: ([] ++ ',' :: pairText "name".toList ['"', '"'] ++ ['\x7d']) =
      "\x7b,\"name\":\"\"\x7d".toList := by
    decide +kernel
  rw [← htext]
  exact .rule hroot (derives_objectText hspace hfields)

end HiveBear.Inference
