/-
# Structured output

A model that must answer with a JSON value of some schema is held to a grammar that is made of the
schema. Each part of the schema has a rule of its own, named by the way that leads to it, and the
rules of the parts stand behind the rule of the whole.

The text of the rules depends on little of a schema: that of a rule on its part, and the names of
the other rules on the way to them.
-/

import HiveBear.Inference.ToolCalling
import HiveBear.Library.JsonSchema

namespace HiveBear.Inference

open JsonText

/-! ## The grammar of a schema -/

abbrev Text := List Char

def namedRule (name body : Text) : Text := name ++ " ::= ".toList ++ body

/-- The literal of a constant. -/
def constantLiteral (value : Value) : Text :=
  match value with
  | .str text => "\"\\\"".toList ++ text ++ "\\\"\"".toList
  | value => "\"".toList ++ write value ++ "\"".toList

def asArray : Value → Option (List Value)
  | .arr items => some items
  | _ => none

def stringRule : Text := "\"\\\"\" ([^\"\\\\] | \"\\\\\" .)* \"\\\"\"".toList

def numberRule : Text :=
  "\"-\"? [0-9]+ (\".\" [0-9]+)? ((\"e\" | \"E\") (\"+\" | \"-\")? [0-9]+)?".toList

def integerRule : Text := "\"-\"? [0-9]+".toList

/-- Any object, with the rules of its values. -/
def anyObjectRule : Text :=
  "\"\x7b\" ws (pair (ws \",\" ws pair)*)? ws \"\x7d\"
pair ::= string ws \":\" ws value
value ::= string | number | \"true\" | \"false\" | \"null\"
string ::= \"\\\"\" ([^\"\\\\] | \"\\\\\" .)* \"\\\"\"
number ::= \"-\"? [0-9]+ (\".\" [0-9]+)?".toList

/-- Any item. -/
def anyItemRule : Text :=
  "\"\\\"\" ([^\"\\\\] | \"\\\\\" .)* \"\\\"\" | \"-\"? [0-9]+ | \"true\" | \"false\" | \"null\"".toList

def propertyRuleName (name propName : Text) : Text := name ++ ['-'] ++ propName

def itemRuleName (name : Text) : Text := name ++ "-item".toList

/-- A property with its value. -/
def propertyPair (propName ruleName : Text) : Text :=
  "\"\\\"".toList ++ propName ++ "\\\"\" ws \":\" ws ".toList ++ ruleName

def propertyPart (name propName : Text) (isRequired : Bool) : Text :=
  let pair := propertyPair propName (propertyRuleName name propName)
  if isRequired then pair else "(".toList ++ pair ++ ")?".toList

def objectRule (parts : List Text) : Text :=
  "\"\x7b\" ws ".toList ++ " ws \",\" ws ".toList.intercalate parts ++ " ws \"\x7d\"".toList

def arrayRule (itemsRule : Text) : Text :=
  "\"[\" ws (".toList ++ itemsRule ++ " (\",\" ws ".toList ++ itemsRule ++ ")*)? ws \"]\"".toList

/-- The names that a schema requires. -/
def requiredNames (schema : Value) : List Text :=
  match (schema.get "required").bind asArray with
  | some names => names.filterMap fun name => (asStr name).map String.toList
  | none => []

mutual

/-- The rule of a schema, and all other rules. -/
def generateRule (schema : Value) (name : Text) (rules : List Text) :
    Except String (Text × List Text) :=
  match (schema.get "enum").bind asArray with
  | some values =>
      .ok (namedRule name (" | ".toList.intercalate (values.map constantLiteral)), rules)
  | none =>
      match schema.get "const" with
      | some value => .ok (namedRule name (constantLiteral value), rules)
      | none =>
          let schemaType := ((schema.get "type").bind asStr).getD "string"
          if schemaType = "object" then generateObjectRule schema name rules
          else if schemaType = "array" then generateArrayRule schema name rules
          else if schemaType = "string" then .ok (namedRule name stringRule, rules)
          else if schemaType = "number" then .ok (namedRule name numberRule, rules)
          else if schemaType = "integer" then .ok (namedRule name integerRule, rules)
          else if schemaType = "boolean" then
            .ok (namedRule name "\"true\" | \"false\"".toList, rules)
          else if schemaType = "null" then .ok (namedRule name "\"null\"".toList, rules)
          else .error ("Unsupported JSON Schema type: " ++ schemaType)
termination_by (sizeOf schema, 1)
decreasing_by all_goals exact Prod.Lex.right _ Nat.one_pos

def generateObjectRule (schema : Value) (name : Text) (rules : List Text) :
    Except String (Text × List Text) :=
  match _hproperties : schema.get "properties" with
  | none => .ok (namedRule name anyObjectRule, rules)
  | some (.obj properties) =>
      (generateProperties properties name (requiredNames schema) rules).map fun (parts, rules) =>
        (namedRule name (objectRule parts), rules)
  | some _ => .error "properties must be an object"
termination_by (sizeOf schema, 0)
decreasing_by
  have hlt := Value.sizeOf_get _hproperties
  rw [Value.obj.sizeOf_spec] at hlt
  exact Prod.Lex.left _ _ (by omega)

/-- The parts of the rule of an object, and the rules of its properties. -/
def generateProperties (properties : List (Text × Value)) (name : Text) (required : List Text)
    (rules : List Text) : Except String (List Text × List Text) :=
  match properties with
  | [] => .ok ([], rules)
  | (propName, propSchema) :: properties =>
      (generateRule propSchema (propertyRuleName name propName) rules).bind fun (rule, rules) =>
        (generateProperties properties name required (rules ++ [rule])).map fun (parts, rules) =>
          (propertyPart name propName (decide (propName ∈ required)) :: parts, rules)
termination_by (sizeOf properties, 0)
decreasing_by
  · exact Prod.Lex.left _ _ (by simp only [List.cons.sizeOf_spec, Prod.mk.sizeOf_spec]; omega)
  · exact Prod.Lex.left _ _ (by simp only [List.cons.sizeOf_spec]; omega)

def generateArrayRule (schema : Value) (name : Text) (rules : List Text) :
    Except String (Text × List Text) :=
  match _hitems : schema.get "items" with
  | some items =>
      (generateRule items (itemRuleName name) rules).map fun (rule, rules) =>
        (namedRule name (arrayRule (itemRuleName name)), rules ++ [rule])
  | none =>
      .ok (namedRule name (arrayRule (itemRuleName name)),
        rules ++ [namedRule (itemRuleName name) anyItemRule])
termination_by (sizeOf schema, 0)
decreasing_by exact Prod.Lex.left _ _ (Value.sizeOf_get _hitems)

end

/-- The grammar of a schema. -/
def jsonSchemaToGbnf (schema : Value) : Except String Text :=
  (generateRule schema "root".toList ["ws ::= [ \\t\\n\\r]*".toList]).map fun (rootRule, rules) =>
    ['\n'].intercalate (rootRule :: rules)

/-! ## The rules of a schema -/

/-- The parts of the rule of an object. -/
def partsOf (name : Text) : Properties → List Text
  | .nil => []
  | .cons propName required _ more => propertyPart name propName required :: partsOf name more

/-- What stands behind the name of a rule. -/
def bodyOf (name : Text) : Shape → Text
  | .string => stringRule
  | .number => numberRule
  | .integer => integerRule
  | .boolean => "\"true\" | \"false\"".toList
  | .null => "\"null\"".toList
  | .oneOf constants => " | ".toList.intercalate (constants.map constantLiteral)
  | .array _ => arrayRule (itemRuleName name)
  | .object properties => objectRule (partsOf name properties)

def ruleText (rule : Text × Shape) : Text := namedRule rule.1 (bodyOf rule.1 rule.2)

mutual

/-- The rules of the parts of a schema. -/
def rulesOf (name : Text) : Shape → List (Text × Shape)
  | .string | .number | .integer | .boolean | .null | .oneOf _ => []
  | .array items => rulesOf (itemRuleName name) items ++ [(itemRuleName name, items)]
  | .object properties => propertyRulesOf name properties

def propertyRulesOf (name : Text) : Properties → List (Text × Shape)
  | .nil => []
  | .cons propName _ shape more =>
      rulesOf (propertyRuleName name propName) shape ++
        (propertyRuleName name propName, shape) :: propertyRulesOf name more

end

theorem requiredNames_eq {schema : Value} {required : List Text} (h : schema.Requires required) :
    requiredNames schema = required := by
  rcases h with ⟨hnone, rfl⟩ | hsome
  · rw [requiredNames, hnone]
    rfl
  · have hnames : (required.map Value.str).filterMap
        (fun name => (asStr name).map String.toList) = required := by
      rw [List.filterMap_map]
      have hname : (fun name => (asStr name).map String.toList) ∘ Value.str = some := by
        funext text
        exact congrArg some String.toList_ofList
      rw [hname, List.filterMap_some]
    rw [requiredNames, hsome]
    exact hnames

/-- The rule of a type is chosen if there are no constants. -/
theorem generateRule_of_typed {schema : Value} {type : Text} (h : schema.Typed (.str type))
    (name : Text) (rules : List Text) :
    generateRule schema name rules =
      if String.ofList type = "object" then generateObjectRule schema name rules
      else if String.ofList type = "array" then generateArrayRule schema name rules
      else if String.ofList type = "string" then .ok (namedRule name stringRule, rules)
      else if String.ofList type = "number" then .ok (namedRule name numberRule, rules)
      else if String.ofList type = "integer" then .ok (namedRule name integerRule, rules)
      else if String.ofList type = "boolean" then
        .ok (namedRule name "\"true\" | \"false\"".toList, rules)
      else if String.ofList type = "null" then .ok (namedRule name "\"null\"".toList, rules)
      else .error ("Unsupported JSON Schema type: " ++ String.ofList type) := by
  rw [generateRule, h.enum, h.const, h.type]
  rfl

theorem generateRule_simple {schema type : Value} {shape : Shape} (htype : schema.Typed type)
    (hsimple : simpleShape type = some shape) (name : Text) (rules : List Text) :
    generateRule schema name rules = .ok (namedRule name (bodyOf name shape), rules) ∧
      rulesOf name shape = [] := by
  cases type with
  | str text =>
      rw [generateRule_of_typed htype]
      rw [simpleShape] at hsimple
      split_ifs at hsimple with hstring hnumber hinteger hboolean hnull
      all_goals
        subst text
        cases hsimple
        exact ⟨rfl, rfl⟩
  | _ => cases hsimple

theorem generateArrayRule_of_items {schema items : Value} (h : schema.get "items" = some items)
    (name : Text) (rules : List Text) :
    generateArrayRule schema name rules =
      (generateRule items (itemRuleName name) rules).map fun (rule, rules) =>
        (namedRule name (arrayRule (itemRuleName name)), rules ++ [rule]) := by
  rw [generateArrayRule]
  split
  · next found hfound =>
      rw [h] at hfound
      cases hfound
      rfl
  · next hnone =>
      rw [h] at hnone
      cases hnone

theorem generateObjectRule_of_properties {schema : Value} {properties : List (Text × Value)}
    (h : schema.get "properties" = some (.obj properties)) (name : Text) (rules : List Text) :
    generateObjectRule schema name rules =
      (generateProperties properties name (requiredNames schema) rules).map fun (parts, rules) =>
        (namedRule name (objectRule parts), rules) := by
  rw [generateObjectRule]
  split
  · next hnone =>
      rw [h] at hnone
      cases hnone
  · next found hfound =>
      rw [h] at hfound
      cases hfound
      rfl
  · next hother =>
      exact absurd h (by simp_all)

mutual

/-- **A schema has a grammar**, with a rule for each of its parts. -/
theorem generateRule_eq {schema : Value} {shape : Shape} (h : HasShape schema shape)
    (name : Text) (rules : List Text) :
    generateRule schema name rules =
      .ok (namedRule name (bodyOf name shape), rules ++ (rulesOf name shape).map ruleText) := by
  cases h with
  | simple htype hsimple =>
      obtain ⟨hrule, hnone⟩ := generateRule_simple htype hsimple name rules
      rw [hrule, hnone, List.map_nil, List.append_nil]
  | enum henum hconst hlists =>
      rw [generateRule, henum, rulesOf, List.map_nil, List.append_nil]
      rfl
  | const henum hconst hlists =>
      rename_i constant
      have hbody : bodyOf name (.oneOf [constant]) = constantLiteral constant :=
        List.intercalate_singleton
      rw [hbody, rulesOf, List.map_nil, List.append_nil, generateRule, henum, hconst]
      rfl
  | array htype hitems hshape =>
      rw [generateRule_of_typed htype, if_neg (by decide), if_pos (by decide),
        generateArrayRule_of_items hitems, generateRule_eq hshape, rulesOf, List.map_append,
        ← List.append_assoc]
      rfl
  | object htype hproperties hrequired hthere hshapes =>
      rw [generateRule_of_typed htype, if_pos (by decide),
        generateObjectRule_of_properties hproperties, requiredNames_eq hrequired,
        generateProperties_eq hshapes]
      rfl

theorem generateProperties_eq {required : List Text} {fields : List (Text × Value)}
    {properties : Properties} (h : HaveShapes required fields properties) (name : Text)
    (rules : List Text) :
    generateProperties fields name required rules =
      .ok (partsOf name properties, rules ++ (propertyRulesOf name properties).map ruleText) := by
  cases h with
  | nil =>
      rw [generateProperties, propertyRulesOf, List.map_nil, List.append_nil]
      rfl
  | cons hshape hmore =>
      rw [generateProperties, generateRule_eq hshape]
      dsimp only [Except.bind]
      rw [generateProperties_eq hmore, propertyRulesOf, List.map_append, List.map_cons,
        List.append_assoc, List.append_assoc]
      rfl

end

/-- The grammar of a schema: the rule of the whole, that of white space, and those of its parts. -/
theorem jsonSchemaToGbnf_eq {schema : Value} {shape : Shape} (h : HasShape schema shape) :
    jsonSchemaToGbnf schema = .ok (['\n'].intercalate (ruleText ("root".toList, shape) ::
      "ws ::= [ \\t\\n\\r]*".toList :: (rulesOf "root".toList shape).map ruleText)) := by
  rw [jsonSchemaToGbnf, generateRule_eq h]
  rfl

end HiveBear.Inference
