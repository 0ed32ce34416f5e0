/-
# The grammar of a schema

The text that is made of a schema is read as rules, one for each part of the schema, if the names
of the properties are made of letters, digits and dashes and no two parts have one name.
-/

import HiveBear.Inference.StructuredOutput
import HiveBear.Library.GbnfText

namespace HiveBear.Inference

open Gbnf JsonText

/-! ## Items -/

def pairItems (propName ruleName : Text) : List Expr :=
  [.text ('"' :: (propName ++ ['"'])), wsRule, .text [':'], wsRule, .rule ruleName]

def partItems (name propName : Text) (required : Bool) : List Expr :=
  let pair := pairItems propName (propertyRuleName name propName)
  if required then pair else [.rep (seq pair) 0 (some 1)]

def partsItems (name : Text) : Properties → List Expr
  | .nil => []
  | .cons propName required _ .nil => partItems name propName required
  | .cons propName required _ more =>
      partItems name propName required ++ ([wsRule, .text [','], wsRule] ++ partsItems name more)

/-- The alternatives of the rule of a schema, as they are written and as they are read. -/
def alternativesOf (name : Text) : Shape → List (Text × List Expr)
  | .string => [(stringRule, [.text ['"'], .rep letterExpr 0 none, .text ['"']])]
  | .number => [(numberRule, [signExpr, digitsExpr, fractionExpr, exponentExpr])]
  | .integer => [(integerRule, [signExpr, digitsExpr])]
  | .boolean =>
      [("\"true\"".toList, [.text "true".toList]), ("\"false\"".toList, [.text "false".toList])]
  | .null => [("\"null\"".toList, [.text "null".toList])]
  | .oneOf constants =>
      constants.map fun constant => (constantLiteral constant, [.text (write constant)])
  | .array _ => [(arrayRule (itemRuleName name), [.text ['['], wsRule,
      listExpr wsRule (.rule (itemRuleName name)), wsRule, .text [']']])]
  | .object properties => [(objectRule (partsOf name properties),
      [.text ['\x7b'], wsRule] ++ (partsItems name properties ++ [wsRule, .text ['\x7d']]))]

/-- What the rule of a schema is read as. -/
def exprOf (name : Text) (shape : Shape) : Expr :=
  choice ((alternativesOf name shape).map fun alternative => seq alternative.2)

/-- The body of a rule is made of its alternatives. -/
theorem bodyOf_eq (name : Text) (shape : Shape) :
    bodyOf name shape =
      [' ', '|', ' '].intercalate ((alternativesOf name shape).map Prod.fst) := by
  cases shape with
  | boolean =>
      have htext : "\"true\" | \"false\"".toList =
          [' ', '|', ' '].intercalate ["\"true\"".toList, "\"false\"".toList] := by decide +kernel
      exact htext
  | oneOf constants =>
      have hbar : " | ".toList = [' ', '|', ' '] := String.toList_ofList
      have hbody : bodyOf name (.oneOf constants) =
          " | ".toList.intercalate (constants.map constantLiteral) := rfl
      rw [hbody, hbar, alternativesOf, List.map_map]
      rfl
  | _ => exact List.intercalate_singleton.symm

/-! ## Schemas that can be written -/

/-- A text can be part of a name. -/
def Wordy (text : Text) : Prop := ∀ c ∈ text, isWord c = true

instance (text : Text) : Decidable (Wordy text) := List.decidableBAll _ text

theorem Wordy.plain {text : Text} (h : Wordy text) : Plain text := by
  intro c hc
  have hword := h c hc
  constructor
  · rintro rfl
    cases hword
  · rintro rfl
    cases hword

theorem Wordy.printed {text : Text} (h : Wordy text) : Printed text := by
  intro c hc
  have hword := h c hc
  by_contra hcontrol
  have hlt : c.toNat < 32 := Nat.not_le.mp hcontrol
  have hall : ∀ n < 32, isWord (Char.ofNat n) = false := by decide
  rw [← Char.ofNat_toNat c, hall _ hlt] at hword
  cases hword

/-- A constant is a scalar, and as a string it needs no escapes. -/
def Constant (value : Value) : Prop :=
  value.IsScalar ∧ value.Sound ∧ ∀ text, value = .str text → Plain text ∧ Printed text

mutual

/-- There are constants where a schema lists them. The names of properties can be parts of
names. -/
def Writable : Shape → Prop
  | .string | .number | .integer | .boolean | .null => True
  | .oneOf constants => constants ≠ [] ∧ ∀ constant ∈ constants, Constant constant
  | .array items => Writable items
  | .object properties => WritableProperties properties

def WritableProperties : Properties → Prop
  | .nil => True
  | .cons name _ shape more => Wordy name ∧ Writable shape ∧ WritableProperties more

end

/-! ## The texts of items -/

theorem isName_propertyRuleName {name propName : Text} (hname : IsName name)
    (hprop : Wordy propName) : IsName (propertyRuleName name propName) := by
  refine ⟨by simp [propertyRuleName], ?_⟩
  rw [propertyRuleName]
  exact List.forall_mem_append.mpr ⟨List.forall_mem_append.mpr
    ⟨hname.2, List.forall_mem_singleton.mpr rfl⟩, hprop⟩

theorem isName_itemRuleName {name : Text} (hname : IsName name) : IsName (itemRuleName name) := by
  have hitem : Wordy "-item".toList := by decide +kernel
  refine ⟨by simp [itemRuleName, hname.1], ?_⟩
  rw [itemRuleName]
  exact List.forall_mem_append.mpr ⟨hname.2, hitem⟩

theorem denotes_pair {propName ruleName : Text} (hprop : Wordy propName) (hrule : IsName ruleName) :
    Denotes (propertyPair propName ruleName) (pairItems propName ruleName) := by
  have hcolon : Completes " ws \":\" ws ".toList [wsRule, .text [':'], wsRule] :=
    completes_ofList fun _ _ _ _ _ => rfl
  have htext : propertyPair propName ruleName =
      (['"', '\\', '"'] ++ propName ++ ['\\', '"', '"']) ++
        (" ws \":\" ws ".toList ++ ruleName) := by
    have hopen : "\"\\\"".toList = ['"', '\\', '"'] := String.toList_ofList
    have hclose : "\\\"\" ws \":\" ws ".toList = ['\\', '"', '"'] ++ " ws \":\" ws ".toList := by
      decide +kernel
    rw [propertyPair, hopen, hclose]
    simp only [List.append_assoc]
  rw [htext]
  exact (completes_string hprop.plain).append (hcolon.append (denotes_name hrule))

theorem denotes_part {name propName : Text} (hname : IsName name) (hprop : Wordy propName)
    (required : Bool) :
    Denotes (propertyPart name propName required) (partItems name propName required) := by
  have hpair := denotes_pair hprop (isName_propertyRuleName hname hprop)
  cases required with
  | true => exact hpair
  | false =>
      have htext : propertyPart name propName false =
          '(' :: (propertyPair propName (propertyRuleName name propName) ++ [')', '?']) := by
        have hopen : "(".toList = ['('] := String.toList_ofList
        have hclose : ")?".toList = [')', '?'] := String.toList_ofList
        rw [propertyPart, if_neg Bool.false_ne_true, hopen, hclose]
        simp
      rw [htext]
      exact (hpair.group rfl).denotes

theorem denotes_parts {name : Text} (hname : IsName name) {properties : Properties}
    (h : WritableProperties properties) :
    Denotes (" ws \",\" ws ".toList.intercalate (partsOf name properties))
      (partsItems name properties) := by
  have hcomma : Completes " ws \",\" ws ".toList [wsRule, .text [','], wsRule] :=
    completes_ofList fun _ _ _ _ _ => rfl
  have hhead : " ws \",\" ws ".toList.head? = some ' ' := by decide +kernel
  match properties, h with
  | .nil, _ => exact Completes.denotes fun _ _ _ _ _ => rfl
  | .cons propName required shape .nil, h =>
      rw [partsOf, partsOf, List.intercalate_singleton]
      exact denotes_part hname h.1 required
  | .cons propName required shape (.cons nextName nextRequired nextShape more), h =>
      have hrest := denotes_parts hname h.2.2
      rw [partsOf] at hrest ⊢
      rw [partsOf, List.intercalate_cons_cons, List.append_assoc]
      refine (denotes_part hname h.1 required).append (hcomma.append hrest) ⟨' ', ?_, rfl⟩
      rw [List.head?_append, hhead, Option.some_or]

theorem denotes_objectRule {name : Text} (hname : IsName name) {properties : Properties}
    (h : WritableProperties properties) :
    Denotes (objectRule (partsOf name properties))
      ([.text ['\x7b'], wsRule] ++ (partsItems name properties ++ [wsRule, .text ['\x7d']])) := by
  have hopen : Completes "\"\x7b\" ws ".toList [.text ['\x7b'], wsRule] :=
    completes_ofList fun _ _ _ _ _ => rfl
  have hclose : Completes " ws \"\x7d\"".toList [wsRule, .text ['\x7d']] :=
    completes_ofList fun _ _ _ _ _ => rfl
  have hhead : " ws \"\x7d\"".toList.head? = some ' ' := by decide +kernel
  have hrule : objectRule (partsOf name properties) = "\"\x7b\" ws ".toList ++
      (" ws \",\" ws ".toList.intercalate (partsOf name properties) ++ " ws \"\x7d\"".toList) :=
    List.append_assoc _ _ _
  rw [hrule]
  exact hopen.append ((denotes_parts hname h).append hclose.denotes ⟨' ', hhead, rfl⟩)

theorem denotes_arrayRule {itemsRule : Text} (h : IsName itemsRule) :
    Denotes (arrayRule itemsRule)
      [.text ['['], wsRule, listExpr wsRule (.rule itemsRule), wsRule, .text [']']] := by
  have hopen : Completes "\"[\" ws ".toList [.text ['['], wsRule] :=
    completes_ofList fun _ _ _ _ _ => rfl
  have hcomma : Completes "\",\" ws ".toList [.text [','], wsRule] :=
    completes_ofList fun _ _ _ _ _ => rfl
  have hspace : Completes [' '] [] := fun _ _ _ _ _ => rfl
  have hclose : Completes " ws \"]\"".toList [wsRule, .text [']']] :=
    completes_ofList fun _ _ _ _ _ => rfl
  have htext : arrayRule itemsRule = "\"[\" ws ".toList ++
      (('(' :: ((itemsRule ++ ([' '] ++ ('(' :: (("\",\" ws ".toList ++ itemsRule) ++
        [')', '*'])))) ++ [')', '?'])) ++ " ws \"]\"".toList) := by
    have hfirst : "\"[\" ws (".toList = "\"[\" ws ".toList ++ ['('] := by decide +kernel
    have hsecond : " (\",\" ws ".toList = [' ', '('] ++ "\",\" ws ".toList := by decide +kernel
    have hlast : ")*)? ws \"]\"".toList = [')', '*', ')', '?'] ++ " ws \"]\"".toList := by
      decide +kernel
    have hrule : arrayRule itemsRule = "\"[\" ws (".toList ++ itemsRule ++
      " (\",\" ws ".toList ++ itemsRule ++ ")*)? ws \"]\"".toList := rfl
    rw [hrule, hfirst, hsecond, hlast]
    simp only [List.append_assoc, List.cons_append, List.nil_append]
  have hmore : Denotes ('(' :: (("\",\" ws ".toList ++ itemsRule) ++ [')', '*']))
      [.rep (seq [.text [','], wsRule, .rule itemsRule]) 0 none] :=
    ((hcomma.append (denotes_name h)).group rfl).denotes
  have hlist := (denotes_name h).append (hspace.append hmore) ⟨' ', rfl, rfl⟩
  rw [htext]
  exact hopen.append ((hlist.group rfl).denotes.append hclose.denotes ⟨' ', by decide +kernel, rfl⟩)

/-! ## The texts of rules -/

theorem plain_number (number : Number) : Plain number.text := by
  have hdigits (digits : Digits) : Plain digits.text := by
    intro c hc
    have hdigit := digits.isDigit c hc
    constructor
    · rintro rfl
      cases hdigit
    · rintro rfl
      cases hdigit
  have hexponent (exponent : Exponent) : Plain exponent.text := by
    rw [Exponent.text]
    refine List.forall_mem_cons.mpr ⟨?_, List.forall_mem_append.mpr ⟨?_, hdigits _⟩⟩
    · rcases exponent.isLetter with h | h <;> rw [h] <;> decide
    · change Plain exponent.sign
      rcases exponent.isSign with h | h | h <;> rw [h] <;> decide
  rw [Number.text]
  refine List.forall_mem_append.mpr ⟨List.forall_mem_append.mpr ⟨List.forall_mem_append.mpr
    ⟨?_, hdigits _⟩, ?_⟩, ?_⟩
  · change Plain (if number.negative then ['-'] else [])
    cases number.negative <;> decide
  · cases number.fraction with
    | none => exact List.forall_mem_nil _
    | some digits => exact List.forall_mem_cons.mpr ⟨by decide, hdigits digits⟩
  · cases number.exponent with
    | none => exact List.forall_mem_nil _
    | some exponent => exact hexponent exponent

/-- A string that needs no escapes is written as it is. -/
theorem write_str {text : Text} (hplain : Plain text) (hprinted : Printed text) :
    write (.str text) = '"' :: (text ++ ['"']) := by
  have hescape : text.flatMap escape = text := by
    induction text with
    | nil => rfl
    | cons c text ih =>
        obtain ⟨⟨hquote, hslash⟩, hmore⟩ := List.forall_mem_cons.mp hplain
        obtain ⟨hc, hprinted⟩ := List.forall_mem_cons.mp hprinted
        rw [List.flatMap_cons, ih hmore hprinted]
        have hone : escape c = [c] := by
          rw [escape, if_neg hquote, if_neg hslash, if_neg (by omega), if_neg (by omega),
            if_neg (by omega), if_neg (by omega), if_neg (by omega), if_neg (by omega)]
        rw [hone]
        rfl
  rw [write, writeString, hescape]
  rfl

theorem completes_constant {value : Value} (h : Constant value) :
    Completes (constantLiteral value) [.text (write value)] := by
  obtain ⟨hscalar, hsound, hstr⟩ := h
  have hquoted (letters : Text) (hplain : Plain letters) :
      Completes ("\"".toList ++ letters ++ "\"".toList) [.text letters] := by
    have hquote : "\"".toList = ['"'] := String.toList_ofList
    rw [hquote]
    exact completes_literal hplain
  cases value with
  | str text =>
      obtain ⟨hplain, hprinted⟩ := hstr text rfl
      have hopen : "\"\\\"".toList = ['"', '\\', '"'] := String.toList_ofList
      have hclose : "\\\"\"".toList = ['\\', '"', '"'] := String.toList_ofList
      rw [constantLiteral, hopen, hclose, write_str hplain hprinted]
      exact completes_string hplain
  | num literal =>
      obtain ⟨number, -, rfl⟩ := hsound
      exact hquoted _ (plain_number number)
  | null => exact hquoted _ (by decide)
  | bool b => cases b <;> exact hquoted _ (by decide)
  | arr | obj => exact hscalar.elim

theorem denotes_alternativesOf {name : Text} (hname : IsName name) {shape : Shape}
    (h : Writable shape) : ∀ alternative ∈ alternativesOf name shape,
      Denotes alternative.1 alternative.2 ∧ alternative.2 ≠ [] := by
  cases shape with
  | string | number | integer | null =>
      exact List.forall_mem_singleton.mpr
        ⟨(completes_ofList fun _ _ _ _ _ => rfl).denotes, List.cons_ne_nil _ _⟩
  | boolean =>
      exact List.forall_mem_cons.mpr
        ⟨⟨(completes_ofList fun _ _ _ _ _ => rfl).denotes, List.cons_ne_nil _ _⟩,
          List.forall_mem_singleton.mpr
            ⟨(completes_ofList fun _ _ _ _ _ => rfl).denotes, List.cons_ne_nil _ _⟩⟩
  | oneOf constants =>
      refine List.forall_mem_map.mpr fun constant hconstant => ?_
      exact ⟨(completes_constant (h.2 constant hconstant)).denotes, List.cons_ne_nil _ _⟩
  | array items =>
      exact List.forall_mem_singleton.mpr
        ⟨denotes_arrayRule (isName_itemRuleName hname), List.cons_ne_nil _ _⟩
  | object properties =>
      exact List.forall_mem_singleton.mpr ⟨denotes_objectRule hname h, List.cons_ne_nil _ _⟩

/-- **The rule of a schema is read as one.** -/
theorem isRule_ruleText {name : Text} (hname : IsName name) {shape : Shape} (h : Writable shape) :
    IsRule (ruleText (name, shape)) (name, exprOf name shape) := by
  have hne : alternativesOf name shape ≠ [] := by
    cases shape with
    | oneOf constants => simpa [alternativesOf] using h.1
    | _ => exact List.cons_ne_nil _ _
  have hdefines : " ::= ".toList = [' ', ':', ':', '=', ' '] := String.toList_ofList
  rw [ruleText, namedRule, hdefines, bodyOf_eq]
  exact isRule_of_alternatives hname hne (denotes_alternativesOf hname h)

/-! ## The rules of a grammar -/

/-- The names of the parts that the rule of a schema uses. -/
def partNames (name : Text) : Shape → List Text
  | .array _ => [itemRuleName name]
  | .object properties => properties.names.map (propertyRuleName name)
  | _ => []

theorem names_choice {items : List Expr} {name : Text} (h : name ∈ (choice items).names) :
    ∃ item ∈ items, name ∈ item.names := by
  induction items with
  | nil => cases h
  | cons first more ih =>
      cases more with
      | nil => exact ⟨first, List.mem_cons_self, h⟩
      | cons second more =>
          rcases List.mem_append.mp h with hfirst | hmore
          · exact ⟨first, List.mem_cons_self, hfirst⟩
          · obtain ⟨item, hitem, hname⟩ := ih hmore
            exact ⟨item, List.mem_cons_of_mem _ hitem, hname⟩

theorem names_seq {items : List Expr} {name : Text} (h : name ∈ (seq items).names) :
    ∃ item ∈ items, name ∈ item.names := by
  induction items with
  | nil => cases h
  | cons first more ih =>
      rcases List.mem_append.mp h with hfirst | hmore
      · exact ⟨first, List.mem_cons_self, hfirst⟩
      · obtain ⟨item, hitem, hname⟩ := ih hmore
        exact ⟨item, List.mem_cons_of_mem _ hitem, hname⟩

theorem names_partItems {name propName used : Text} {required : Bool} {item : Expr}
    (hitem : item ∈ partItems name propName required) (hused : used ∈ item.names) :
    used = "ws".toList ∨ used = propertyRuleName name propName := by
  have hpair {item : Expr} (hitem : item ∈ pairItems propName (propertyRuleName name propName))
      (hused : used ∈ item.names) : used = "ws".toList ∨ used = propertyRuleName name propName := by
    simp only [pairItems, List.mem_cons, List.not_mem_nil, or_false] at hitem
    rcases hitem with rfl | rfl | rfl | rfl | rfl
    · cases hused
    · exact Or.inl (List.mem_singleton.mp hused)
    · cases hused
    · exact Or.inl (List.mem_singleton.mp hused)
    · exact Or.inr (List.mem_singleton.mp hused)
  cases required with
  | true => exact hpair hitem hused
  | false =>
      cases List.mem_singleton.mp hitem
      obtain ⟨inner, hinner, hused⟩ := names_seq hused
      exact hpair hinner hused

theorem names_partsItems {name used : Text} {properties : Properties} {item : Expr}
    (hitem : item ∈ partsItems name properties) (hused : used ∈ item.names) :
    used = "ws".toList ∨ used ∈ properties.names.map (propertyRuleName name) := by
  match properties, hitem with
  | .cons propName required shape .nil, hitem =>
      exact (names_partItems hitem hused).imp_right fun h => List.mem_singleton.mpr h
  | .cons propName required shape (.cons nextName nextRequired nextShape more), hitem =>
      rcases List.mem_append.mp hitem with hfirst | hrest
      · exact (names_partItems hfirst hused).imp_right fun h => by
          rw [h]
          exact List.mem_cons_self
      · rcases List.mem_append.mp hrest with hcomma | hmore
        · simp only [List.mem_cons, List.not_mem_nil, or_false] at hcomma
          rcases hcomma with rfl | rfl | rfl
          · exact Or.inl (List.mem_singleton.mp hused)
          · cases hused
          · exact Or.inl (List.mem_singleton.mp hused)
        · exact (names_partsItems hmore hused).imp_right fun h => List.mem_cons_of_mem _ h

/-- A rule uses white space and its parts. -/
theorem names_exprOf {name used : Text} {shape : Shape} (h : used ∈ (exprOf name shape).names) :
    used = "ws".toList ∨ used ∈ partNames name shape := by
  cases shape with
  | string | number | integer | boolean | null => cases h
  | oneOf constants =>
      obtain ⟨_, hitem, hused⟩ := names_choice h
      rw [alternativesOf, List.map_map] at hitem
      obtain ⟨constant, -, rfl⟩ := List.mem_map.mp hitem
      cases hused
  | array items =>
      have hnames : used ∈ ["ws".toList, itemRuleName name, "ws".toList, itemRuleName name,
        "ws".toList] := h
      simp only [List.mem_cons, List.not_mem_nil, or_false] at hnames
      rw [partNames, List.mem_singleton]
      rcases hnames with hws | hitem | hws | hitem | hws
      · exact Or.inl hws
      · exact Or.inr hitem
      · exact Or.inl hws
      · exact Or.inr hitem
      · exact Or.inl hws
  | object properties =>
      obtain ⟨item, hitem, hused⟩ := names_seq h
      rcases List.mem_append.mp hitem with hopen | hrest
      · simp only [List.mem_cons, List.not_mem_nil, or_false] at hopen
        rcases hopen with rfl | rfl
        · cases hused
        · exact Or.inl (List.mem_singleton.mp hused)
      · rcases List.mem_append.mp hrest with hparts | hclose
        · exact names_partsItems hparts hused
        · simp only [List.mem_cons, List.not_mem_nil, or_false] at hclose
          rcases hclose with rfl | rfl
          · exact Or.inl (List.mem_singleton.mp hused)
          · cases hused

/-- The rules of a schema and of its parts. -/
def allRulesOf (name : Text) (shape : Shape) : List (Text × Shape) :=
  (name, shape) :: rulesOf name shape

mutual

/-- The parts of a schema can be written too. -/
theorem writable_rulesOf {name : Text} (hname : IsName name) : (shape : Shape) → Writable shape →
    ∀ rule ∈ rulesOf name shape, IsName rule.1 ∧ Writable rule.2
  | .string, _ | .number, _ | .integer, _ | .boolean, _ | .null, _ | .oneOf _, _ =>
      List.forall_mem_nil _
  | .array items, h => by
      have hitem := isName_itemRuleName hname
      rw [rulesOf]
      exact List.forall_mem_append.mpr
        ⟨writable_rulesOf hitem items h, List.forall_mem_singleton.mpr ⟨hitem, h⟩⟩
  | .object properties, h => by
      rw [rulesOf]
      exact writable_propertyRulesOf hname properties h

theorem writable_propertyRulesOf {name : Text} (hname : IsName name) : (properties : Properties) →
    WritableProperties properties →
      ∀ rule ∈ propertyRulesOf name properties, IsName rule.1 ∧ Writable rule.2
  | .nil, _ => List.forall_mem_nil _
  | .cons propName _ shape more, h => by
      have hprop := isName_propertyRuleName hname h.1
      rw [propertyRulesOf]
      exact List.forall_mem_append.mpr ⟨writable_rulesOf hprop shape h.2.1,
        List.forall_mem_cons.mpr ⟨⟨hprop, h.2.1⟩, writable_propertyRulesOf hname more h.2.2⟩⟩

end

/-- The rules of the properties of an object. -/
theorem propertyRuleName_mem (name : Text) (properties : Properties) :
    ∀ used ∈ properties.names.map (propertyRuleName name),
      used ∈ (propertyRulesOf name properties).map Prod.fst := by
  match properties with
  | .nil => exact List.forall_mem_nil _
  | .cons propName _ shape more =>
      have hmore := propertyRuleName_mem name more
      rw [Properties.names, List.map_cons, propertyRulesOf, List.map_append, List.map_cons]
      exact List.forall_mem_cons.mpr ⟨List.mem_append_right _ List.mem_cons_self,
        fun used hused => List.mem_append_right _ (List.mem_cons_of_mem _ (hmore used hused))⟩

mutual

/-- What a rule uses is there. -/
theorem partNames_mem (name : Text) : (shape : Shape) → ∀ rule ∈ allRulesOf name shape,
    ∀ used ∈ partNames rule.1 rule.2, used ∈ (rulesOf name shape).map Prod.fst
  | .string | .number | .integer | .boolean | .null | .oneOf _ =>
      List.forall_mem_singleton.mpr (List.forall_mem_nil _)
  | .array items => by
      have hitems := partNames_mem (itemRuleName name) items
      rw [allRulesOf, rulesOf, List.map_append]
      refine List.forall_mem_cons.mpr ⟨List.forall_mem_singleton.mpr
        (List.mem_append_right _ List.mem_cons_self), ?_⟩
      intro rule hrule used hused
      refine List.mem_append_left _ (hitems rule ?_ used hused)
      exact (List.mem_append.mp hrule).elim (List.mem_cons_of_mem _)
        fun h => List.mem_singleton.mp h ▸ List.mem_cons_self
  | .object properties => by
      rw [allRulesOf, rulesOf]
      exact List.forall_mem_cons.mpr
        ⟨propertyRuleName_mem name properties, partNames_mem_properties name properties⟩

theorem partNames_mem_properties (name : Text) : (properties : Properties) →
    ∀ rule ∈ propertyRulesOf name properties, ∀ used ∈ partNames rule.1 rule.2,
      used ∈ (propertyRulesOf name properties).map Prod.fst
  | .nil => List.forall_mem_nil _
  | .cons propName _ shape more => by
      have hshape := partNames_mem (propertyRuleName name propName) shape
      have hmore := partNames_mem_properties name more
      obtain ⟨hhere, hparts⟩ := List.forall_mem_cons.mp hshape
      rw [propertyRulesOf, List.map_append, List.map_cons]
      refine List.forall_mem_append.mpr ⟨?_, List.forall_mem_cons.mpr ⟨?_, ?_⟩⟩
      · intro rule hrule used hused
        exact List.mem_append_left _ (hparts rule hrule used hused)
      · intro used hused
        exact List.mem_append_left _ (hhere used hused)
      · intro rule hrule used hused
        exact List.mem_append_right _ (List.mem_cons_of_mem _ (hmore rule hrule used hused))

end

mutual

/-- The names of the parts of a schema are longer than its own. -/
theorem longer_rulesOf (name : Text) : (shape : Shape) →
    ∀ rule ∈ rulesOf name shape, ∃ more, rule.1 = name ++ '-' :: more
  | .string | .number | .integer | .boolean | .null | .oneOf _ => List.forall_mem_nil _
  | .array items => by
      have hitem : itemRuleName name = name ++ '-' :: "item".toList := by
        have hdash : "-item".toList = '-' :: "item".toList := by decide +kernel
        rw [itemRuleName, hdash]
      rw [rulesOf, hitem]
      refine List.forall_mem_append.mpr
        ⟨fun rule hrule => ?_, List.forall_mem_singleton.mpr ⟨_, rfl⟩⟩
      obtain ⟨more, hmore⟩ := longer_rulesOf _ items rule hrule
      exact ⟨_, by rw [hmore, List.append_assoc, List.cons_append]⟩
  | .object properties => longer_propertyRulesOf name properties

theorem longer_propertyRulesOf (name : Text) : (properties : Properties) →
    ∀ rule ∈ propertyRulesOf name properties, ∃ more, rule.1 = name ++ '-' :: more
  | .nil => List.forall_mem_nil _
  | .cons propName _ shape more => by
      have hprop : propertyRuleName name propName = name ++ '-' :: propName := by
        rw [propertyRuleName, List.append_assoc, List.singleton_append]
      rw [propertyRulesOf, hprop]
      refine List.forall_mem_append.mpr ⟨fun rule hrule => ?_,
        List.forall_mem_cons.mpr ⟨⟨_, rfl⟩, longer_propertyRulesOf name more⟩⟩
      obtain ⟨rest, hrest⟩ := longer_rulesOf _ shape rule hrule
      exact ⟨_, by rw [hrest, List.append_assoc, List.cons_append]⟩

end

def rootName : Text := "root".toList

/-- The lines of the grammar of a schema, and the rules that they are read as. -/
def schemaLines (shape : Shape) : List (Text × (Text × Expr)) :=
  (ruleText (rootName, shape), (rootName, exprOf rootName shape)) ::
    ("ws ::= [ \\t\\n\\r]*".toList, ("ws".toList, spaceExpr)) ::
      (rulesOf rootName shape).map fun rule => (ruleText rule, (rule.1, exprOf rule.1 rule.2))

def schemaRules (shape : Shape) : Rules := ((schemaLines shape).map Prod.snd).reverse

/-- The names of the rules, the first ones first. -/
theorem names_schemaLines (shape : Shape) : (schemaLines shape).map (fun line => line.2.1) =
    rootName :: "ws".toList :: (rulesOf rootName shape).map Prod.fst := by
  rw [schemaLines, List.map_cons, List.map_cons, List.map_map]
  rfl

theorem isRule_ws : IsRule "ws ::= [ \\t\\n\\r]*".toList ("ws".toList, spaceExpr) := by
  intro rules
  have hread : readFrom .plain ⟨[], .between⟩ ("ws ::= [ \\t\\n\\r]*".toList ++ ['\n']) =
      some (.plain, ⟨[("ws".toList, spaceExpr)], .between⟩) := by
    decide +kernel
  exact readFrom_under hread rules

/-- **The grammar of a schema is read as the rules of its parts.** -/
theorem read_jsonSchemaToGbnf {schema : Value} {shape : Shape} (hshape : HasShape schema shape)
    (h : Writable shape) : ∃ grammar, jsonSchemaToGbnf schema = .ok grammar ∧
      Gbnf.read grammar = some (schemaRules shape) := by
  have hroot : IsName rootName := by decide +kernel
  have htexts : (schemaLines shape).map Prod.fst = ruleText ("root".toList, shape) ::
      "ws ::= [ \\t\\n\\r]*".toList :: (rulesOf "root".toList shape).map ruleText := by
    rw [schemaLines, List.map_cons, List.map_cons, List.map_map]
    rfl
  refine ⟨_, jsonSchemaToGbnf_eq hshape, ?_⟩
  rw [← htexts]
  refine read_intercalate (List.cons_ne_nil _ _) ?_ ?_
  · refine List.forall_mem_cons.mpr ⟨isRule_ruleText hroot h, List.forall_mem_cons.mpr
      ⟨isRule_ws, List.forall_mem_map.mpr fun rule hrule => ?_⟩⟩
    obtain ⟨hname, hwritable⟩ := writable_rulesOf hroot shape h rule hrule
    exact isRule_ruleText hname hwritable
  · rw [names_schemaLines]
    have hused : ∀ rule ∈ allRulesOf rootName shape, ∀ used ∈ (exprOf rule.1 rule.2).names,
        used ∈ rootName :: "ws".toList :: (rulesOf rootName shape).map Prod.fst := by
      intro rule hrule used hused
      rcases names_exprOf hused with rfl | hpart
      · exact List.mem_cons_of_mem _ List.mem_cons_self
      · have hpart := partNames_mem rootName shape rule hrule used hpart
        exact List.mem_cons_of_mem _ (List.mem_cons_of_mem _ hpart)
    obtain ⟨hfirst, hrest⟩ := List.forall_mem_cons.mp hused
    exact List.forall_mem_cons.mpr ⟨hfirst, List.forall_mem_cons.mpr
      ⟨List.forall_mem_nil _, List.forall_mem_map.mpr hrest⟩⟩

/-- No two parts of a schema have one name. -/
def Distinct (shape : Shape) : Prop := ((rulesOf rootName shape).map Prod.fst).Nodup

theorem nodup_schemaRules {shape : Shape} (h : Distinct shape) :
    (((schemaLines shape).map Prod.snd).map Prod.fst).Nodup := by
  have hlonger := longer_rulesOf rootName shape
  rw [List.map_map]
  refine (congrArg List.Nodup (names_schemaLines shape)).mpr ?_
  refine List.nodup_cons.mpr ⟨?_, List.nodup_cons.mpr ⟨?_, h⟩⟩
  · rintro (_ | ⟨_, hmem⟩)
    obtain ⟨rule, hrule, hname⟩ := List.mem_map.mp hmem
    obtain ⟨more, hmore⟩ := hlonger rule hrule
    rw [hname] at hmore
    exact List.cons_ne_nil _ _ (List.self_eq_append_right.mp hmore)
  · intro hmem
    obtain ⟨rule, hrule, hname⟩ := List.mem_map.mp hmem
    obtain ⟨more, hmore⟩ := hlonger rule hrule
    rw [hname] at hmore
    cases hmore

theorem lookup_schemaRules {shape : Shape} (h : Distinct shape) :
    (schemaRules shape).lookup "ws".toList = some spaceExpr ∧
      ∀ rule ∈ allRulesOf rootName shape,
        (schemaRules shape).lookup rule.1 = some (exprOf rule.1 rule.2) := by
  have hnodup := nodup_schemaRules h
  refine ⟨lookup_reverse hnodup (List.mem_cons_of_mem _ List.mem_cons_self), ?_⟩
  intro rule hrule
  apply lookup_reverse hnodup
  rcases List.mem_cons.mp hrule with rfl | hmem
  · exact List.mem_cons_self
  · refine List.mem_cons_of_mem _ (List.mem_cons_of_mem _ ?_)
    rw [List.map_map]
    exact List.mem_map.mpr ⟨rule, hmem, rfl⟩

end HiveBear.Inference
