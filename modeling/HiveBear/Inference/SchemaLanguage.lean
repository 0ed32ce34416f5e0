/-
# What the grammar of a schema derives

The grammar of a schema derives the texts of the trees that fit the schema, if an optional property
is the only one of its object. What it derives conforms to the schema unless it is loose, and it
derives what conforms and is laid out like the schema unless it is spelled in another way.
-/

import HiveBear.Inference.SchemaGrammar

namespace HiveBear.Inference

open Gbnf JsonText

/-! ## Arrays -/

section

variable {rules : Rules} {space : Expr} {s : Text}
  (hspace : ∀ s, Derives rules space s ↔ ∃ space : Space, s = space.text)

include hspace

/-- Items of some kind between brackets. -/
theorem derives_arrayExpr {item : Expr} {kind : Tree → Prop} (hitem : Describes rules item kind) :
    Derives rules (bracketExpr space '[' ']' (listExpr space item)) s ↔
      ∃ space items, s = (Tree.arr space items).text ∧ items.Spread kind := by
  rw [derives_bracketExpr hspace]
  constructor
  · rintro ⟨before, after, inner, rfl, hinner⟩
    rcases (derives_listExpr hspace).mp hinner with rfl | ⟨first, more, rfl, hfirst, hmore⟩
    · exact ⟨before.append after, .nil, by simp [Tree.text, Items.text, Space.append], Or.inl rfl⟩
    · obtain ⟨tree, htree, rfl⟩ := (hitem first).mp hfirst
      obtain ⟨trees, rfl⟩ := @exists_map_eq _ (Space × {tree : Tree // kind tree})
        (fun x => (x.1, x.2.1.text)) more fun x hx => by
          obtain ⟨tree, htree, htext⟩ := (hitem x.2).mp (hmore x hx)
          exact ⟨(x.1, ⟨tree, htree⟩), Prod.ext rfl htext⟩
      refine ⟨before, .laid .none tree (trees.map fun x => (x.1, x.2.1)) after, ?_, Or.inr
        ⟨_, _, _, _, rfl, htree, List.forall_mem_map.mpr fun x _ => x.2.2⟩⟩
      rw [Tree.text, Items.text_laid, List.flatMap_map, List.flatMap_map]
      simp [Space.none]
  · rintro ⟨outer, items, rfl, rfl | ⟨before, first, more, last, rfl, hfirst, hmore⟩⟩
    · exact ⟨outer, .none, [], by simp [Tree.text, Items.text, Space.none],
        (derives_listExpr hspace).mpr (Or.inl rfl)⟩
    · refine ⟨outer.append before, last, _, ?_, (derives_listExpr hspace).mpr (Or.inr
        ⟨first.text, more.map fun x => (x.1, x.2.text), rfl, (hitem _).mpr ⟨first, hfirst, rfl⟩,
          List.forall_mem_map.mpr fun x hx => (hitem _).mpr ⟨x.2, hmore x hx, rfl⟩⟩)⟩
      rw [Tree.text, Items.text_laid, List.flatMap_map]
      simp [Space.append]

end

/-! ## Objects -/

/-- The letters of a key that is written as it is. -/
def keyLetters (name : Text) : List Letter := if h : Plain name then plainLetters name h else []

theorem lettersText_keyLetters {name : Text} (h : Plain name) :
    lettersText (keyLetters name) = '"' :: (name ++ ['"']) := by
  rw [keyLetters, dif_pos h, lettersText_plainLetters]

theorem keyIs_iff {key : List Letter} {name : Text} (h : Plain name) :
    KeyIs key name ↔ key = keyLetters name := by
  rw [keyLetters, dif_pos h]
  constructor
  · exact fun hkey => hkey.eq_plainLetters h
  · rintro rfl
    exact flatMap_plainLetters h

/-- All properties are required. -/
def AllRequired : Properties → Prop
  | .nil => True
  | .cons _ required _ more => required = true ∧ AllRequired more

/-- The places of the properties of an object. -/
def slotsOf (name : Text) : Properties → List Slot
  | .nil => []
  | .cons propName _ shape more =>
      { key := keyLetters propName
        value := .rule (propertyRuleName name propName)
        trees := shape.Fits } :: slotsOf name more

theorem fits_iff_fills (name : Text) {properties : Properties} (hrequired : AllRequired properties)
    (h : WritableProperties properties) (entries : List (List Letter × Tree)) :
    properties.Fits entries ↔ List.Forall₂ Fills (slotsOf name properties) entries := by
  match properties, hrequired, h with
  | .nil, _, _ => exact List.forall₂_nil_left_iff.symm
  | .cons propName required shape more, hrequired, h =>
      have hmore := fits_iff_fills name hrequired.2 h.2.2
      rw [Properties.Fits, hrequired.1, slotsOf, List.forall₂_cons_left_iff]
      constructor
      · rintro (⟨⟨⟩, -⟩ | ⟨key, tree, rest, rfl, hkey, htree, hrest⟩)
        exact ⟨(key, tree), rest, ⟨(keyIs_iff h.1.plain).mp hkey, htree⟩, (hmore rest).mp hrest,
          rfl⟩
      · rintro ⟨⟨key, tree⟩, rest, ⟨hkey, htree⟩, hrest, rfl⟩
        exact Or.inr ⟨key, tree, rest, rfl, (keyIs_iff h.1.plain).mpr hkey, htree,
          (hmore rest).mpr hrest⟩

/-- The parts of an object whose properties are all required are the fields of a record. -/
theorem fieldsItems_slotsOf (name : Text) {properties : Properties} (hne : properties ≠ .nil)
    (hrequired : AllRequired properties) (h : WritableProperties properties) :
    wsRule :: (partsItems name properties ++ [wsRule]) =
      fieldsItems wsRule (slotsOf name properties) := by
  match properties, hne, hrequired, h with
  | .cons propName required shape .nil, _, hrequired, h =>
      rw [partsItems, partItems, if_pos hrequired.1, slotsOf, slotsOf, fieldsItems, fieldItems,
        lettersText_keyLetters h.1.plain]
      rfl
  | .cons propName required shape (.cons nextName nextRequired nextShape more), _, hrequired, h =>
      have hrest := fieldsItems_slotsOf name (by simp) hrequired.2 h.2.2
      have hslots : fieldsItems wsRule (slotsOf name (.cons propName required shape
          (.cons nextName nextRequired nextShape more))) =
          fieldItems wsRule (keyLetters propName) (.rule (propertyRuleName name propName)) ++
            .text [','] :: fieldsItems wsRule
              (slotsOf name (.cons nextName nextRequired nextShape more)) := rfl
      have hparts : partsItems name (.cons propName required shape
          (.cons nextName nextRequired nextShape more)) = partItems name propName required ++
            ([wsRule, .text [',']] ++
              (wsRule :: partsItems name (.cons nextName nextRequired nextShape more))) := rfl
      rw [hslots, ← hrest, hparts, partItems, if_pos hrequired.1, fieldItems,
        lettersText_keyLetters h.1.plain]
      simp [pairItems]

/-- White space in front of the fields belongs to the first one. -/
theorem exists_obj_none (space : Space) {fields : Fields} (hne : fields ≠ .nil) :
    ∃ others : Fields, (Tree.obj space fields).text = (Tree.obj .none others).text ∧
      others.entries = fields.entries := by
  cases fields with
  | nil => exact absurd rfl hne
  | cons before key beforeColon afterColon value after more =>
      refine ⟨.cons (space.append before) key beforeColon afterColon value after more, ?_, rfl⟩
      rw [Tree.text, Tree.text, Fields.text_cons, Fields.text_cons]
      simp [Space.append, Space.none]

section

variable {rules : Rules} {name : Text} {s : Text}
  (hspace : ∀ s, Derives rules wsRule s ↔ ∃ space : Space, s = space.text)

include hspace

/-- An object whose properties are all required. -/
theorem derives_required {properties : Properties} (hne : properties ≠ .nil)
    (hrequired : AllRequired properties) (h : WritableProperties properties)
    (hslots : ∀ slot ∈ slotsOf name properties, Describes rules slot.value slot.trees) :
    Derives rules (exprOf name (.object properties)) s ↔
      ∃ tree, (Shape.object properties).Fits tree ∧ s = tree.text := by
  have hexpr : exprOf name (.object properties) = recordExpr wsRule (slotsOf name properties) := by
    rw [recordExpr, ← fieldsItems_slotsOf name hne hrequired h]
    have hitems : [Expr.text ['\x7b'], wsRule] ++ (partsItems name properties ++
        [wsRule, .text ['\x7d']]) = .text ['\x7b'] ::
          (wsRule :: (partsItems name properties ++ [wsRule]) ++ [.text ['\x7d']]) := by
      simp
    exact congrArg seq hitems
  have hfits := fits_iff_fills name hrequired h
  rw [hexpr, derives_recordExpr hspace hslots]
  constructor
  · rintro ⟨written, rfl, hfills⟩
    exact ⟨_, ⟨.none, written, rfl, (hfits _).mpr hfills⟩, rfl⟩
  · rintro ⟨tree, ⟨space, written, rfl, hwritten⟩, rfl⟩
    have hwrittenNe : written ≠ .nil := by
      rintro rfl
      cases properties with
      | nil => exact hne rfl
      | cons propName required shape more =>
          rcases hwritten with ⟨hnot, -⟩ | ⟨key, tree, rest, hnil, -⟩
          · rw [hrequired.1] at hnot
            cases hnot
          · cases hnil
    obtain ⟨others, htext, hentries⟩ := exists_obj_none space hwrittenNe
    exact ⟨others, htext, (hfits _).mp (hentries ▸ hwritten)⟩

theorem derives_noProperties : Derives rules (exprOf name (.object .nil)) s ↔
    ∃ tree, (Shape.object .nil).Fits tree ∧ s = tree.text := by
  have hexpr : exprOf name (.object .nil) =
      seq [.text ['\x7b'], wsRule, wsRule, .text ['\x7d']] := rfl
  simp only [hexpr, derives_seq_cons, derives_seq_nil, derives_text_iff, hspace]
  constructor
  · rintro ⟨_, _, rfl, rfl, _, _, rfl, ⟨first, rfl⟩, _, _, rfl, ⟨second, rfl⟩, _, _, rfl, rfl, rfl⟩
    exact ⟨_, ⟨first.append second, .nil, rfl, rfl⟩,
      by simp [Tree.text, Fields.text, Space.append]⟩
  · rintro ⟨tree, ⟨space, written, rfl, hwritten⟩, rfl⟩
    cases written with
    | nil => exact ⟨['\x7b'], _, by simp [Tree.text, Fields.text], rfl, _, _, rfl, ⟨space, rfl⟩, [],
        _, rfl, ⟨.none, rfl⟩, ['\x7d'], [], rfl, rfl, rfl⟩
    | cons => cases hwritten

/-- A key and its value. -/
theorem derives_pairItems {propName ruleName : Text} (hprop : Plain propName) :
    Derives rules (seq (pairItems propName ruleName)) s ↔
      ∃ beforeColon afterColon : Space, ∃ text, Derives rules (.rule ruleName) text ∧
        s = lettersText (keyLetters propName) ++ (beforeColon.text ++ (':' ::
          (afterColon.text ++ text))) := by
  rw [lettersText_keyLetters hprop]
  simp only [pairItems, derives_seq_cons, derives_seq_nil, derives_text_iff, hspace]
  constructor
  · rintro ⟨_, _, rfl, rfl, _, _, rfl, ⟨beforeColon, rfl⟩, _, _, rfl, rfl, _, _, rfl,
      ⟨afterColon, rfl⟩, text, _, rfl, htext, rfl⟩
    exact ⟨beforeColon, afterColon, text, htext, by simp⟩
  · rintro ⟨beforeColon, afterColon, text, htext, rfl⟩
    exact ⟨_, _, rfl, rfl, _, _, rfl, ⟨beforeColon, rfl⟩, [':'], _, rfl, rfl, _, _, rfl,
      ⟨afterColon, rfl⟩, text, [], (List.append_nil _).symm, htext, rfl⟩

/-- An object with one property, which is optional. -/
theorem derives_optional {propName : Text} {shape : Shape} (hprop : Plain propName)
    (hvalue : Describes rules (.rule (propertyRuleName name propName)) shape.Fits) :
    Derives rules (exprOf name (.object (.cons propName false shape .nil))) s ↔
      ∃ tree, (Shape.object (.cons propName false shape .nil)).Fits tree ∧ s = tree.text := by
  have hexpr : exprOf name (.object (.cons propName false shape .nil)) =
      bracketExpr wsRule '\x7b' '\x7d'
        (.rep (seq (pairItems propName (propertyRuleName name propName))) 0 (some 1)) := rfl
  rw [hexpr, derives_bracketExpr hspace]
  constructor
  · rintro ⟨before, after, inner, rfl, hinner⟩
    rcases derives_opt_iff.mp hinner with rfl | hpair
    · exact ⟨_, ⟨before.append after, .nil, rfl, Or.inl ⟨rfl, rfl⟩⟩,
        by simp [Tree.text, Fields.text, Space.append]⟩
    · obtain ⟨beforeColon, afterColon, text, htext, rfl⟩ :=
        (derives_pairItems hspace hprop).mp hpair
      obtain ⟨tree, htree, rfl⟩ := (hvalue text).mp htext
      refine ⟨_, ⟨before, .cons .none (keyLetters propName) beforeColon afterColon tree after .nil,
        rfl, Or.inr ⟨_, tree, [], rfl, (keyIs_iff hprop).mpr rfl, htree, rfl⟩⟩, ?_⟩
      rw [Tree.text, Fields.text_cons]
      simp [Space.none, Fields.rest]
  · rintro ⟨tree, ⟨space, written, rfl, hwritten⟩, rfl⟩
    cases written with
    | nil => exact ⟨space, .none, [], by simp [Tree.text, Fields.text, Space.none],
        derives_opt_iff.mpr (Or.inl rfl)⟩
    | cons before key beforeColon afterColon value after more =>
        rcases hwritten with ⟨-, hnil⟩ | ⟨_, tree, rest, hsame, hkey, htree, hrest⟩
        · cases hnil
        · cases hsame
          have hmore : more = .nil := by
            cases more with
            | nil => rfl
            | cons => cases hrest
          subst hmore
          rw [keyIs_iff hprop] at hkey
          subst hkey
          refine ⟨space.append before, after, _, ?_, derives_opt_iff.mpr (Or.inr
            ((derives_pairItems hspace hprop).mpr ⟨beforeColon, afterColon, value.text,
              (hvalue _).mpr ⟨value, htree, rfl⟩, rfl⟩))⟩
          rw [Tree.text, Fields.text_cons]
          simp [Space.append, Fields.rest]

end

/-! ## Schemas -/

mutual

/-- An optional property is the only one of its object. -/
def Gapless : Shape → Prop
  | .string | .number | .integer | .boolean | .null | .oneOf _ => True
  | .array items => Gapless items
  | .object properties =>
      (AllRequired properties ∨ properties.names.length ≤ 1) ∧ GaplessProperties properties

def GaplessProperties : Properties → Prop
  | .nil => True
  | .cons _ _ shape more => Gapless shape ∧ GaplessProperties more

end

/-- The rules of some parts are there. -/
def HasRules (rules : Rules) (parts : List (Text × Shape)) : Prop :=
  ∀ part ∈ parts, rules.lookup part.1 = some (exprOf part.1 part.2)

section

variable {rules : Rules} {name : Text}

theorem hasRules_items {items : Shape} (h : HasRules rules (rulesOf name (.array items))) :
    HasRules rules (allRulesOf (itemRuleName name) items) := by
  rw [rulesOf] at h
  intro part hpart
  apply h
  rcases List.mem_cons.mp hpart with rfl | hpart
  · exact List.mem_append_right _ List.mem_cons_self
  · exact List.mem_append_left _ hpart

theorem hasRules_cons {propName : Text} {required : Bool} {shape : Shape} {more : Properties}
    (h : HasRules rules (propertyRulesOf name (.cons propName required shape more))) :
    HasRules rules (allRulesOf (propertyRuleName name propName) shape) ∧
      HasRules rules (propertyRulesOf name more) := by
  rw [propertyRulesOf] at h
  refine ⟨fun part hpart => h part ?_, fun part hpart => h part ?_⟩
  · rcases List.mem_cons.mp hpart with rfl | hpart
    · exact List.mem_append_right _ List.mem_cons_self
    · exact List.mem_append_left _ hpart
  · exact List.mem_append_right _ (List.mem_cons_of_mem _ hpart)

theorem describes_string : Describes rules (exprOf name .string) Shape.string.Fits := by
  intro s
  apply derives_stringExpr.trans
  constructor
  · rintro ⟨letters, rfl⟩
    exact ⟨.str letters, ⟨letters, rfl⟩, rfl⟩
  · rintro ⟨_, ⟨letters, rfl⟩, rfl⟩
    exact ⟨letters, rfl⟩

theorem describes_number : Describes rules (exprOf name .number) Shape.number.Fits := by
  intro s
  apply derives_numberExpr.trans
  constructor
  · rintro ⟨number, rfl⟩
    exact ⟨.num number, ⟨number, rfl⟩, rfl⟩
  · rintro ⟨_, ⟨number, rfl⟩, rfl⟩
    exact ⟨number, rfl⟩

theorem describes_integer : Describes rules (exprOf name .integer) Shape.integer.Fits := by
  intro s
  apply derives_integerExpr.trans
  constructor
  · rintro ⟨number, hplain, rfl⟩
    exact ⟨.num number, ⟨number, rfl, hplain⟩, rfl⟩
  · rintro ⟨_, ⟨number, rfl, hplain⟩, rfl⟩
    exact ⟨number, hplain, rfl⟩

theorem describes_boolean : Describes rules (exprOf name .boolean) Shape.boolean.Fits := by
  intro s
  have hexpr : exprOf name .boolean =
      .alt (seq [.text "true".toList]) (seq [.text "false".toList]) := rfl
  rw [hexpr, derives_alt_iff, derives_seq_singleton, derives_seq_singleton, derives_text_iff,
    derives_text_iff]
  constructor
  · rintro (rfl | rfl)
    · exact ⟨.bool true, ⟨true, rfl⟩, rfl⟩
    · exact ⟨.bool false, ⟨false, rfl⟩, rfl⟩
  · rintro ⟨_, ⟨_ | _, rfl⟩, rfl⟩
    · exact Or.inr rfl
    · exact Or.inl rfl

theorem describes_null : Describes rules (exprOf name .null) Shape.null.Fits := by
  intro s
  apply derives_seq_singleton.trans
  rw [derives_text_iff]
  constructor
  · rintro rfl
    exact ⟨.null, rfl, rfl⟩
  · rintro ⟨_, rfl, rfl⟩
    rfl

/-- The constants of a schema. -/
theorem describes_constants {constants : List Value} (h : Writable (.oneOf constants)) :
    Describes rules (exprOf name (.oneOf constants)) (Shape.oneOf constants).Fits := by
  intro s
  rw [exprOf, alternativesOf, List.map_map, derives_choice (by simpa using h.1)]
  constructor
  · rintro ⟨item, hitem, hs⟩
    obtain ⟨constant, hconstant, rfl⟩ := List.mem_map.mp hitem
    rw [Function.comp_apply, derives_seq_singleton, derives_text_iff] at hs
    subst hs
    obtain ⟨tree, htext, -⟩ := exists_tree constant (h.2 constant hconstant).2.1
    exact ⟨tree, ⟨constant, hconstant, htext⟩, htext.symm⟩
  · rintro ⟨tree, ⟨constant, hconstant, htext⟩, rfl⟩
    refine ⟨_, List.mem_map_of_mem hconstant, ?_⟩
    rw [Function.comp_apply, derives_seq_singleton, derives_text_iff, htext]

variable (hspace : ∀ s, Derives rules wsRule s ↔ ∃ space : Space, s = space.text)

include hspace

/-- The properties of an object without gaps. -/
theorem describes_object {properties : Properties}
    (hgapless : AllRequired properties ∨ properties.names.length ≤ 1)
    (h : WritableProperties properties)
    (hslots : ∀ slot ∈ slotsOf name properties, Describes rules slot.value slot.trees) :
    Describes rules (exprOf name (.object properties)) (Shape.object properties).Fits := by
  intro s
  cases properties with
  | nil => exact derives_noProperties hspace
  | cons propName required shape more =>
      rcases hgapless with hrequired | hone
      · exact derives_required hspace (by simp) hrequired h hslots
      · cases more with
        | nil =>
            cases required with
            | true => exact derives_required hspace (by simp) ⟨rfl, trivial⟩ h hslots
            | false => exact derives_optional hspace h.1.plain (hslots _ List.mem_cons_self)
        | cons => simp [Properties.names] at hone

end

mutual

/-- **The rule of a schema derives the trees that fit it.** -/
theorem describes_rule {rules : Rules}
    (hspace : ∀ s, Derives rules wsRule s ↔ ∃ space : Space, s = space.text) :
    (shape : Shape) → {name : Text} → Writable shape → Gapless shape →
      HasRules rules (allRulesOf name shape) → Describes rules (.rule name) shape.Fits
  | shape, name, h, hgapless, hrules => by
      intro s
      obtain ⟨hrule, hparts⟩ := List.forall_mem_cons.mp hrules
      rw [derives_rule hrule]
      match shape with
      | .string => exact describes_string s
      | .number => exact describes_number s
      | .integer => exact describes_integer s
      | .boolean => exact describes_boolean s
      | .null => exact describes_null s
      | .oneOf constants => exact describes_constants h s
      | .array items =>
          have hitem : Describes rules (.rule (itemRuleName name)) items.Fits :=
            describes_rule hspace items h hgapless (hasRules_items hparts)
          refine (derives_arrayExpr hspace hitem).trans ⟨?_, ?_⟩
          · rintro ⟨space, trees, rfl, htrees⟩
            exact ⟨_, ⟨space, trees, rfl, htrees⟩, rfl⟩
          · rintro ⟨_, ⟨space, trees, rfl, htrees⟩, rfl⟩
            exact ⟨space, trees, rfl, htrees⟩
      | .object properties =>
          exact describes_object hspace hgapless.1 h
            (describes_slots hspace properties h hgapless.2 hparts) s

theorem describes_slots {rules : Rules}
    (hspace : ∀ s, Derives rules wsRule s ↔ ∃ space : Space, s = space.text) :
    (properties : Properties) → {name : Text} → WritableProperties properties →
      GaplessProperties properties → HasRules rules (propertyRulesOf name properties) →
        ∀ slot ∈ slotsOf name properties, Describes rules slot.value slot.trees
  | .nil, _, _, _, _ => List.forall_mem_nil _
  | .cons propName required shape more, name, h, hgapless, hrules => by
      obtain ⟨hshape, hmore⟩ := hasRules_cons hrules
      exact List.forall_mem_cons.mpr ⟨describes_rule hspace shape h.2.1 hgapless.1 hshape,
        describes_slots hspace more h.2.2 hgapless.2 hmore⟩

end

mutual

/-- The values and the names of a schema that can be written are those of JSON. -/
theorem proper_of_writable : (shape : Shape) → {name : Text} → Writable shape →
    ((rulesOf name shape).map Prod.fst).Nodup → shape.Proper
  | .string, _, _, _ | .number, _, _, _ | .integer, _, _, _ | .boolean, _, _, _ | .null, _, _, _ =>
      trivial
  | .oneOf _, _, h, _ => fun constant hconstant => (h.2 constant hconstant).2.1
  | .array items, name, h, hnodup => by
      rw [rulesOf, List.map_append] at hnodup
      exact proper_of_writable items h (List.nodup_append.mp hnodup).1
  | .object properties, _, h, hnodup => by
      rw [rulesOf] at hnodup
      exact properProperties_of_writable properties h hnodup

theorem properProperties_of_writable : (properties : Properties) → {name : Text} →
    WritableProperties properties → ((propertyRulesOf name properties).map Prod.fst).Nodup →
      properties.Proper
  | .nil, _, _, _ => trivial
  | .cons propName _ shape more, name, h, hnodup => by
      rw [propertyRulesOf, List.map_append, List.map_cons] at hnodup
      obtain ⟨hshape, hrest, -⟩ := List.nodup_append.mp hnodup
      obtain ⟨hnew, hmore⟩ := List.nodup_cons.mp hrest
      refine ⟨⟨h.1.plain, h.1.printed⟩, fun hmem => hnew ?_, proper_of_writable shape h.2.1 hshape,
        properProperties_of_writable more h.2.2 hmore⟩
      exact propertyRuleName_mem name more _ (List.mem_map_of_mem hmem)

end

/-! ## What the grammar promises -/

/-- A schema whose names and constants can be written, and no two parts of which have one name. -/
structure Regular (shape : Shape) : Prop where
  writable : Writable shape
  distinct : Distinct shape

/-- A text that the grammar should derive: it is JSON that conforms to the schema, with the
properties in the order of the schema and white space where the grammar has it. -/
def Expected (shape : Shape) (text : Text) : Prop :=
  ∃ tree value, text = tree.text ∧ tree.value = some value ∧ shape.Conforms value ∧
    shape.Laid tree

/-- The rules of a grammar match a schema at a text. -/
structure Matches (rules : Rules) (shape : Shape) (text : Text) : Prop where
  sound : Derives rules (.rule rootName) text →
    ∃ value, fromStr text = some value ∧ shape.Conforms value
  complete : Expected shape text → Derives rules (.rule rootName) text

/-- A text is written as the schema says, but is not JSON: a string has a control character or an
escape that is none, or a number begins with a zero that does not belong there. -/
def Loose (shape : Shape) (text : Text) : Prop :=
  ∃ tree, shape.Fits tree ∧ text = tree.text ∧ tree.value = none

/-- A text is as it should be but for its spelling: a constant or a key is not written as in the
schema, or an integer is written with a point or an exponent. -/
def Respelled (shape : Shape) (text : Text) : Prop :=
  Expected shape text ∧ ∀ tree, text = tree.text → shape.Laid tree → ¬ shape.Spelled tree

section

variable {shape : Shape}

/-- White space is derived by its rule. -/
theorem derives_wsRule_iff (h : Distinct shape) (s : Text) :
    Derives (schemaRules shape) wsRule s ↔ ∃ space : Space, s = space.text :=
  (derives_rule (lookup_schemaRules h).1).trans derives_spaceExpr

/-- **The grammar of a schema without gaps derives the trees that fit it.** -/
theorem derives_root_iff (h : Regular shape) (hgapless : Gapless shape) (text : Text) :
    Derives (schemaRules shape) (.rule rootName) text ↔
      ∃ tree, shape.Fits tree ∧ text = tree.text :=
  describes_rule (derives_wsRule_iff h.distinct) shape h.writable hgapless
    (lookup_schemaRules h.distinct).2 text

theorem matches_iff (h : Regular shape) (hgapless : Gapless shape) (text : Text) :
    Matches (schemaRules shape) shape text ↔ ¬ Loose shape text ∧ ¬ Respelled shape text := by
  have hproper := proper_of_writable shape h.writable h.distinct
  have hderives := derives_root_iff h hgapless text
  constructor
  · intro hmatches
    constructor
    · rintro ⟨tree, hfits, rfl, hnone⟩
      obtain ⟨value, hvalue, -⟩ := hmatches.sound (hderives.mpr ⟨tree, hfits, rfl⟩)
      rw [tree.fromStr_text, hnone] at hvalue
      cases hvalue
    · rintro ⟨hexpected, hspelling⟩
      obtain ⟨tree, hfits, htext⟩ := hderives.mp (hmatches.complete hexpected)
      exact hspelling tree htext (hfits.laid hproper) (hfits.spelled hproper)
  · rintro ⟨hstrict, hspelled⟩
    constructor
    · intro hderived
      obtain ⟨tree, hfits, rfl⟩ := hderives.mp hderived
      cases hvalue : tree.value with
      | none => exact absurd ⟨tree, hfits, rfl, hvalue⟩ hstrict
      | some value =>
          exact ⟨value, tree.fromStr_text.trans hvalue, hfits.conforms hproper hvalue⟩
    · intro hexpected
      obtain ⟨tree, value, htext, hvalue, hconforms, hlaid⟩ := hexpected
      have hexists : ∃ tree, text = tree.text ∧ shape.Laid tree ∧ shape.Spelled tree := by
        by_contra hnone
        refine hspelled ⟨⟨tree, value, htext, hvalue, hconforms, hlaid⟩, ?_⟩
        exact fun other hother hlaid hspelled => hnone ⟨other, hother, hlaid, hspelled⟩
      obtain ⟨other, hother, hlaid, hspelled⟩ := hexists
      have hsame : other.value = some value := by
        rw [← other.fromStr_text, ← hother, htext, tree.fromStr_text, hvalue]
      exact hderives.mpr ⟨other, hconforms.fits hproper hsame hlaid hspelled, hother⟩

end

end HiveBear.Inference
