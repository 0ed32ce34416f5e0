/-
# The outline of a schema

Of a schema the generator reads little: the constants it lists, its type, its items and its
properties. This outline has all that the grammar depends on, and the grammar is the text of its
rules: those of the whole first, that of white space, and those of the parts, each behind the rules
of its own parts.

Every part has a rule that is named by the way to it. A part that may be any object brings rules for
its values along, always by the same names.
-/

import HiveBear.Inference.SchemaGrammar

namespace HiveBear.Inference

open Gbnf JsonText

/-! ## Outlines -/

mutual

/-- What the generator reads of a schema. -/
inductive Outline
  | string
  | number
  | integer
  | boolean
  | null
  | oneOf (constants : List Value)
  | anyObject
  | anyItems
  | array (items : Outline)
  | object (parts : Parts)

/-- The properties of an object, and whether they are required. -/
inductive Parts
  | nil
  | cons (propName : Text) (required : Bool) (part : Outline) (more : Parts)

end

mutual

def outlineOf (schema : Value) : Except String Outline :=
  match (schema.get "enum").bind asArray with
  | some values => .ok (.oneOf values)
  | none =>
      match schema.get "const" with
      | some value => .ok (.oneOf [value])
      | none =>
          let schemaType := ((schema.get "type").bind asStr).getD "string"
          if schemaType = "object" then objectOutline schema
          else if schemaType = "array" then arrayOutline schema
          else if schemaType = "string" then .ok .string
          else if schemaType = "number" then .ok .number
          else if schemaType = "integer" then .ok .integer
          else if schemaType = "boolean" then .ok .boolean
          else if schemaType = "null" then .ok .null
          else .error ("Unsupported JSON Schema type: " ++ schemaType)
termination_by (sizeOf schema, 1)
decreasing_by all_goals exact Prod.Lex.right _ Nat.one_pos

def objectOutline (schema : Value) : Except String Outline :=
  match _hproperties : schema.get "properties" with
  | none => .ok .anyObject
  | some (.obj properties) => (partsOutline properties (requiredNames schema)).map .object
  | some _ => .error "properties must be an object"
termination_by (sizeOf schema, 0)
decreasing_by
  have hlt := Value.sizeOf_get _hproperties
  rw [Value.obj.sizeOf_spec] at hlt
  exact Prod.Lex.left _ _ (by omega)

def partsOutline (properties : List (Text × Value)) (required : List Text) :
    Except String Parts :=
  match properties with
  | [] => .ok .nil
  | (propName, propSchema) :: properties =>
      (outlineOf propSchema).bind fun part =>
        (partsOutline properties required).map fun more =>
          .cons propName (decide (propName ∈ required)) part more
termination_by (sizeOf properties, 0)
decreasing_by
  · exact Prod.Lex.left _ _ (by simp only [List.cons.sizeOf_spec, Prod.mk.sizeOf_spec]; omega)
  · exact Prod.Lex.left _ _ (by simp only [List.cons.sizeOf_spec]; omega)

def arrayOutline (schema : Value) : Except String Outline :=
  match _hitems : schema.get "items" with
  | some items => (outlineOf items).map .array
  | none => .ok .anyItems
termination_by (sizeOf schema, 0)
decreasing_by exact Prod.Lex.left _ _ (Value.sizeOf_get _hitems)

end

/-! ## The rules of an outline -/

/-- The properties of an object, whatever their schemas are. -/
def Parts.properties : Parts → Properties
  | .nil => .nil
  | .cons propName required _ more => .cons propName required .null more.properties

/-- A schema with the same rule, if there is one. -/
def Outline.shape : Outline → Shape
  | .string => .string
  | .number => .number
  | .integer => .integer
  | .boolean => .boolean
  | .null => .null
  | .oneOf constants => .oneOf constants
  | .anyObject => .null
  | .anyItems | .array _ => .array .null
  | .object parts => .object parts.properties

/-- A rule as it is written. -/
structure GrammarRule where
  name : Text
  body : Text
  /-- The body is made of constants of the schema. -/
  constants : Bool
  deriving DecidableEq

def GrammarRule.text (rule : GrammarRule) : Text := namedRule rule.name rule.body

/-- The rules that any object brings along. -/
def helperRules : List GrammarRule :=
  [⟨"pair".toList, "string ws \":\" ws value".toList, false⟩,
    ⟨"value".toList, "string | number | \"true\" | \"false\" | \"null\"".toList, false⟩,
    ⟨"string".toList, stringRule, false⟩,
    ⟨"number".toList, "\"-\"? [0-9]+ (\".\" [0-9]+)?".toList, false⟩]

/-- The rules that are written at the place of a part, the one of its name first. -/
def ownRules (name : Text) : Outline → List GrammarRule
  | .anyObject =>
      ⟨name, "\"\x7b\" ws (pair (ws \",\" ws pair)*)? ws \"\x7d\"".toList, false⟩ :: helperRules
  | .oneOf constants => [⟨name, bodyOf name (.oneOf constants), true⟩]
  | outline => [⟨name, bodyOf name outline.shape, false⟩]

mutual

/-- The rules of the parts of an outline, part by part. -/
def partEntries (name : Text) : Outline → List (List GrammarRule)
  | .string | .number | .integer | .boolean | .null | .oneOf _ | .anyObject => []
  | .anyItems => [[⟨itemRuleName name, anyItemRule, false⟩]]
  | .array items =>
      partEntries (itemRuleName name) items ++ [ownRules (itemRuleName name) items]
  | .object parts => propertyEntries name parts

def propertyEntries (name : Text) : Parts → List (List GrammarRule)
  | .nil => []
  | .cons propName _ part more =>
      partEntries (propertyRuleName name propName) part ++
        ownRules (propertyRuleName name propName) part :: propertyEntries name more

end

def wsGrammarRule : GrammarRule := ⟨"ws".toList, "[ \\t\\n\\r]*".toList, false⟩

/-- The rules of a grammar, in order. -/
def grammarRules (outline : Outline) : List GrammarRule :=
  ownRules rootName outline ++ wsGrammarRule :: (partEntries rootName outline).flatten

def linesText (rules : List GrammarRule) : Text :=
  ['\n'].intercalate (rules.map GrammarRule.text)

/-! ## The grammar is the text of the rules -/

theorem intercalate_append {α : Type} (sep : List α) {front back : List (List α)}
    (hfront : front ≠ []) (hback : back ≠ []) :
    sep.intercalate (front ++ back) = sep.intercalate front ++ sep ++ sep.intercalate back := by
  induction front with
  | nil => exact absurd rfl hfront
  | cons first front ih =>
      by_cases hmore : front = []
      · rw [hmore, List.singleton_append, List.intercalate_singleton]
        exact List.intercalate_cons_of_ne_nil hback
      · rw [List.cons_append, List.intercalate_cons_of_ne_nil (by simp [hmore]), ih hmore,
          List.intercalate_cons_of_ne_nil hmore]
        simp only [List.append_assoc]

/-- Texts that are joined in groups, and then the groups. -/
theorem intercalate_flatten {α : Type} (sep : List α) {groups : List (List (List α))}
    (h : ∀ group ∈ groups, group ≠ []) :
    sep.intercalate (groups.map sep.intercalate) = sep.intercalate groups.flatten := by
  induction groups with
  | nil => rfl
  | cons group groups ih =>
      obtain ⟨hgroup, hgroups⟩ := List.forall_mem_cons.mp h
      cases groups with
      | nil => simp
      | cons next groups =>
          have htexts : (next :: groups).map sep.intercalate ≠ [] := List.cons_ne_nil _ _
          have hrest : (next :: groups).flatten ≠ [] := by
            simp [(List.forall_mem_cons.mp hgroups).1]
          rw [List.map_cons, List.intercalate_cons_of_ne_nil htexts, ih hgroups,
            @List.flatten_cons _ group, intercalate_append sep hgroup hrest]

theorem linesText_singleton (rule : GrammarRule) : linesText [rule] = rule.text :=
  List.intercalate_singleton

/-- The text of the rules at the place of a part. -/
def ownText (name : Text) (outline : Outline) : Text := linesText (ownRules name outline)

/-- The rule of any object is written in several lines. -/
theorem anyObjectRule_eq : anyObjectRule =
    "\"\x7b\" ws (pair (ws \",\" ws pair)*)? ws \"\x7d\"".toList ++
      (['\n'] ++ linesText helperRules) := by
  have hnewline : "\n".toList = ['\n'] := String.toList_ofList
  have hlines : linesText helperRules =
      "pair".toList ++ " ::= ".toList ++ "string ws \":\" ws value".toList ++ "\n".toList ++
        ("value".toList ++ " ::= ".toList ++
            "string | number | \"true\" | \"false\" | \"null\"".toList ++ "\n".toList ++
          ("string".toList ++ " ::= ".toList ++
              "\"\\\"\" ([^\"\\\\] | \"\\\\\" .)* \"\\\"\"".toList ++ "\n".toList ++
            ("number".toList ++ " ::= ".toList ++ "\"-\"? [0-9]+ (\".\" [0-9]+)?".toList))) := by
    rw [hnewline]
    rfl
  -- Strings are compared faster than lists of characters.
  rw [hlines, ← hnewline]
  simp only [← String.toList_append]
  exact congrArg String.toList (by decide +kernel)

theorem ownText_anyObject (name : Text) :
    ownText name .anyObject = namedRule name anyObjectRule := by
  have hown : ownText name .anyObject =
      namedRule name "\"\x7b\" ws (pair (ws \",\" ws pair)*)? ws \"\x7d\"".toList ++ ['\n'] ++
        linesText helperRules := List.intercalate_cons_of_ne_nil (List.cons_ne_nil _ _)
  rw [hown, anyObjectRule_eq, namedRule, namedRule]
  simp only [List.append_assoc]

/-- The parts of the rule of an object. -/
def partTexts (name : Text) (parts : Parts) : List Text := partsOf name parts.properties

theorem partTexts_cons (name propName : Text) (required : Bool) (part : Outline) (more : Parts) :
    partTexts name (.cons propName required part more) =
      propertyPart name propName required :: partTexts name more := by
  rw [partTexts, Parts.properties, partsOf, partTexts]

theorem objectOutline_of_properties {schema : Value} {properties : List (Text × Value)}
    (h : schema.get "properties" = some (.obj properties)) :
    objectOutline schema = (partsOutline properties (requiredNames schema)).map .object := by
  rw [objectOutline]
  split
  · next hnone =>
      rw [h] at hnone
      cases hnone
  · next found hfound =>
      rw [h] at hfound
      cases hfound
      rfl
  · next hother => exact absurd h (by simp_all)

/-- The result of a rule, given the outline. -/
def entriesFor (name : Text) (rules : List Text) (outline : Outline) : Text × List Text :=
  (ownText name outline, rules ++ (partEntries name outline).map linesText)

/-- A rule that no other ones are made for. -/
theorem entriesFor_leaf {name body : Text} {outline : Outline} {constants : Bool}
    (hown : ownRules name outline = [⟨name, body, constants⟩])
    (hparts : partEntries name outline = []) (rules : List Text) :
    entriesFor name rules outline = (namedRule name body, rules) := by
  have htext : ownText name outline = namedRule name body := by
    rw [ownText, hown, linesText_singleton]
    rfl
  rw [entriesFor, htext, hparts, List.map_nil, List.append_nil]

mutual

/-- **The rules of a schema are those of its outline.** -/
theorem generateRule_eq_outline (schema : Value) (name : Text) (rules : List Text) :
    generateRule schema name rules = (outlineOf schema).map (entriesFor name rules) := by
  have hleaf {body : Text} {outline : Outline} {constants : Bool}
      (hown : ownRules name outline = [⟨name, body, constants⟩])
      (hparts : partEntries name outline = []) :
      .ok (namedRule name body, rules) =
        (Except.ok outline : Except String Outline).map (entriesFor name rules) :=
    congrArg Except.ok (entriesFor_leaf hown hparts rules).symm
  rw [generateRule, outlineOf]
  cases (schema.get "enum").bind asArray with
  | some values => exact hleaf rfl rfl
  | none =>
      cases schema.get "const" with
      | some value =>
          have hown : ownRules name (.oneOf [value]) = [⟨name, constantLiteral value, true⟩] := by
            have hbody : bodyOf name (.oneOf [value]) = constantLiteral value :=
              List.intercalate_singleton
            rw [← hbody]
            rfl
          exact hleaf hown rfl
      | none =>
          dsimp only
          split_ifs
          · exact generateObjectRule_eq_outline schema name rules
          · exact generateArrayRule_eq_outline schema name rules
          · exact hleaf rfl rfl
          · exact hleaf rfl rfl
          · exact hleaf rfl rfl
          · exact hleaf rfl rfl
          · exact hleaf rfl rfl
          · rfl
termination_by (sizeOf schema, 1)
decreasing_by all_goals exact Prod.Lex.right _ Nat.one_pos

theorem generateObjectRule_eq_outline (schema : Value) (name : Text) (rules : List Text) :
    generateObjectRule schema name rules = (objectOutline schema).map (entriesFor name rules) := by
  match hproperties : schema.get "properties" with
  | none =>
      have hrule : generateObjectRule schema name rules =
          .ok (namedRule name anyObjectRule, rules) := by
        rw [generateObjectRule]
        split <;> simp_all
      have houtline : objectOutline schema = .ok .anyObject := by
        rw [objectOutline]
        split <;> simp_all
      rw [hrule, houtline, ← ownText_anyObject]
      exact congrArg (fun rules => Except.ok (_, rules)) (List.append_nil rules).symm
  | some (.obj properties) =>
      rw [generateObjectRule_of_properties hproperties, objectOutline_of_properties hproperties,
        generateProperties_eq_outline properties name]
      cases partsOutline properties (requiredNames schema) with
      | error e => rfl
      | ok parts =>
          have htext : ownText name (.object parts) =
              namedRule name (objectRule (partTexts name parts)) := linesText_singleton _
          exact congrArg (fun text => Except.ok (text, _)) htext.symm
  | some .null | some (.bool _) | some (.num _) | some (.str _) | some (.arr _) =>
      have hrule : generateObjectRule schema name rules = .error "properties must be an object" := by
        rw [generateObjectRule]
        split <;> simp_all
      have houtline : objectOutline schema = .error "properties must be an object" := by
        rw [objectOutline]
        split <;> simp_all
      rw [hrule, houtline]
      rfl
termination_by (sizeOf schema, 0)
decreasing_by
  have hlt := Value.sizeOf_get hproperties
  rw [Value.obj.sizeOf_spec] at hlt
  exact Prod.Lex.left _ _ (by omega)

theorem generateProperties_eq_outline (properties : List (Text × Value)) (name : Text)
    (required rules : List Text) :
    generateProperties properties name required rules =
      (partsOutline properties required).map fun parts =>
        (partTexts name parts, rules ++ (propertyEntries name parts).map linesText) := by
  match properties with
  | [] =>
      rw [generateProperties, partsOutline]
      exact congrArg (fun rules => Except.ok ([], rules)) (List.append_nil rules).symm
  | (propName, propSchema) :: properties =>
      rw [generateProperties, partsOutline, generateRule_eq_outline propSchema]
      cases outlineOf propSchema with
      | error e => rfl
      | ok part =>
          dsimp only [Except.map, Except.bind, entriesFor]
          rw [generateProperties_eq_outline properties]
          cases partsOutline properties required with
          | error e => rfl
          | ok more =>
              dsimp only [Except.map]
              rw [partTexts_cons, propertyEntries, List.map_append, List.map_cons, ← ownText]
              simp only [List.append_assoc, List.singleton_append]
termination_by (sizeOf properties, 0)
decreasing_by
  · exact Prod.Lex.left _ _ (by simp only [List.cons.sizeOf_spec, Prod.mk.sizeOf_spec]; omega)
  · exact Prod.Lex.left _ _ (by simp only [List.cons.sizeOf_spec]; omega)

theorem generateArrayRule_eq_outline (schema : Value) (name : Text) (rules : List Text) :
    generateArrayRule schema name rules = (arrayOutline schema).map (entriesFor name rules) := by
  match hitems : schema.get "items" with
  | some items =>
      have houtline : arrayOutline schema = (outlineOf items).map .array := by
        rw [arrayOutline]
        split <;> simp_all
      rw [generateArrayRule_of_items hitems, generateRule_eq_outline items, houtline]
      cases outlineOf items with
      | error e => rfl
      | ok outline =>
          have htext : ownText name (.array outline) =
              namedRule name (arrayRule (itemRuleName name)) := linesText_singleton _
          dsimp only [Except.map, entriesFor]
          rw [htext, partEntries, List.map_append, List.map_singleton, ← ownText,
            List.append_assoc]
  | none =>
      have hrule : generateArrayRule schema name rules =
          .ok (namedRule name (arrayRule (itemRuleName name)),
            rules ++ [namedRule (itemRuleName name) anyItemRule]) := by
        rw [generateArrayRule]
        split <;> simp_all
      have houtline : arrayOutline schema = .ok .anyItems := by
        rw [arrayOutline]
        split <;> simp_all
      have htext : ownText name .anyItems = namedRule name (arrayRule (itemRuleName name)) :=
        linesText_singleton _
      have hitem : linesText [⟨itemRuleName name, anyItemRule, false⟩] =
          namedRule (itemRuleName name) anyItemRule := linesText_singleton _
      rw [hrule, houtline]
      dsimp only [Except.map, entriesFor]
      rw [htext, partEntries, List.map_singleton, hitem]
termination_by (sizeOf schema, 0)
decreasing_by exact Prod.Lex.left _ _ (Value.sizeOf_get hitems)

end

theorem ownRules_ne_nil (name : Text) (outline : Outline) : ownRules name outline ≠ [] := by
  cases outline <;> exact List.cons_ne_nil _ _

mutual

theorem partEntries_ne_nil (name : Text) : (outline : Outline) →
    ∀ entry ∈ partEntries name outline, entry ≠ []
  | .string | .number | .integer | .boolean | .null | .oneOf _ | .anyObject =>
      List.forall_mem_nil _
  | .anyItems => List.forall_mem_singleton.mpr (List.cons_ne_nil _ _)
  | .array items => by
      rw [partEntries]
      exact List.forall_mem_append.mpr
        ⟨partEntries_ne_nil _ items, List.forall_mem_singleton.mpr (ownRules_ne_nil _ items)⟩
  | .object parts => propertyEntries_ne_nil name parts

theorem propertyEntries_ne_nil (name : Text) : (parts : Parts) →
    ∀ entry ∈ propertyEntries name parts, entry ≠ []
  | .nil => List.forall_mem_nil _
  | .cons propName _ part more => by
      rw [propertyEntries]
      exact List.forall_mem_append.mpr ⟨partEntries_ne_nil _ part,
        List.forall_mem_cons.mpr ⟨ownRules_ne_nil _ part, propertyEntries_ne_nil name more⟩⟩

end

/-- **The grammar of a schema is the text of the rules of its outline.** -/
theorem jsonSchemaToGbnf_eq_outline (schema : Value) :
    jsonSchemaToGbnf schema =
      (outlineOf schema).map fun outline => linesText (grammarRules outline) := by
  rw [jsonSchemaToGbnf, generateRule_eq_outline]
  cases outlineOf schema with
  | error e => rfl
  | ok outline =>
      have hne : ∀ group ∈ ownRules rootName outline :: [wsGrammarRule] ::
          partEntries rootName outline, group.map GrammarRule.text ≠ [] := by
        simp only [ne_eq, List.map_eq_nil_iff]
        exact List.forall_mem_cons.mpr ⟨ownRules_ne_nil _ _, List.forall_mem_cons.mpr
          ⟨List.cons_ne_nil _ _, partEntries_ne_nil _ outline⟩⟩
      have hflatten := intercalate_flatten ['\n'] (List.forall_mem_map.mpr hne)
      rw [← List.map_flatten] at hflatten
      have hws : linesText [wsGrammarRule] = "ws ::= [ \\t\\n\\r]*".toList := by decide +kernel
      have htexts : ownText rootName outline :: "ws ::= [ \\t\\n\\r]*".toList ::
          (partEntries rootName outline).map linesText =
          ((ownRules rootName outline :: [wsGrammarRule] ::
            partEntries rootName outline).map (List.map GrammarRule.text)).map
              ['\n'].intercalate := by
        rw [← hws]
        simp only [List.map_cons, List.map_map]
        rfl
      exact congrArg Except.ok ((congrArg ['\n'].intercalate htexts).trans hflatten)

end HiveBear.Inference
