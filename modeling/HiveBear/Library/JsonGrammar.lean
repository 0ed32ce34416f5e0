/-
# What a grammar can say about JSON

The expressions with which a grammar usually describes the words of JSON, and what they derive:
white space, strings and numbers as they are in trees, loose ones included.
-/

import HiveBear.Library.Gbnf
import HiveBear.Library.JsonTree

namespace JsonText

open Gbnf

def digitExpr : Expr := .one ⟨false, [('0', '9')]⟩

def digitsExpr : Expr := .rep digitExpr 1 none

def spaceExpr : Expr :=
  seq [.rep (.one ⟨false, [('\r', '\r'), ('\n', '\n'), ('\t', '\t'), (' ', ' ')]⟩) 0 none]

def letterExpr : Expr :=
  choice [seq [.one ⟨true, [('\\', '\\'), ('"', '"')]⟩], seq [.text ['\\'], .any]]

def stringExpr : Expr := seq [.text ['"'], .rep letterExpr 0 none, .text ['"']]

def signExpr : Expr := .rep (.text ['-']) 0 (some 1)

def fractionExpr : Expr := .rep (seq [.text ['.'], digitsExpr]) 0 (some 1)

def exponentExpr : Expr :=
  .rep (seq [choice [seq [.text ['e']], seq [.text ['E']]],
    .rep (choice [seq [.text ['+']], seq [.text ['-']]]) 0 (some 1), digitsExpr]) 0 (some 1)

def integerExpr : Expr := seq [signExpr, digitsExpr]

def numberExpr : Expr := seq [signExpr, digitsExpr, fractionExpr, exponentExpr]

variable {rules : Rules} {s : List Char}

theorem derives_spaceExpr : Derives rules spaceExpr s ↔ ∃ space : Space, s = space.text := by
  have hletter (s : List Char) :
      Derives rules (.one ⟨false, [('\r', '\r'), ('\n', '\n'), ('\t', '\t'), (' ', ' ')]⟩) s ↔
        ∃ c : {c // isSpace c = true}, s = [c.1] := by
    have hhas (c : Char) : Letters.has ⟨false, [('\r', '\r'), ('\n', '\n'), ('\t', '\t'),
        (' ', ' ')]⟩ c = isSpace c := by
      refine (Letters.has_singles false ['\r', '\n', '\t', ' '] c).trans (Bool.eq_iff_iff.mpr ?_)
      simp only [isSpace, List.contains_iff_mem, Bool.bne_false, decide_eq_true_eq, List.mem_cons,
        List.not_mem_nil, or_false]
      constructor
      · rintro (h | h | h | h) <;> simp [h]
      · rintro (h | h | h | h) <;> simp [h]
    simp [hhas]
  rw [spaceExpr, derives_seq_singleton, derives_star_of hletter]
  constructor
  · rintro ⟨letters, rfl⟩
    refine ⟨⟨letters.flatMap fun c => [c.1], ?_⟩, rfl⟩
    intro c hc
    obtain ⟨letter, -, hletter⟩ := List.mem_flatMap.mp hc
    rw [List.mem_singleton.mp hletter]
    exact letter.2
  · rintro ⟨space, rfl⟩
    refine ⟨space.text.attach.map fun c => ⟨c.1, space.isSpace c.1 c.2⟩, ?_⟩
    simp [List.flatMap_map]

theorem derives_stringExpr :
    Derives rules stringExpr s ↔ ∃ letters : List Letter, s = lettersText letters := by
  have hletter (s : List Char) :
      Derives rules letterExpr s ↔ ∃ letter : Letter, s = letter.text := by
    have hhas (c : Char) : Letters.has ⟨true, [('\\', '\\'), ('"', '"')]⟩ c = true ↔
        c ≠ '"' ∧ c ≠ '\\' := by
      refine (Bool.eq_iff_iff.mp (Letters.has_singles true ['\\', '"'] c)).trans ?_
      simp [and_comm]
    rw [letterExpr, derives_choice (List.cons_ne_nil _ _)]
    simp only [List.exists_mem_cons_iff, List.not_mem_nil, false_and, exists_false, or_false,
      derives_seq_cons, derives_seq_nil, derives_one_iff, derives_text_iff, derives_any_iff, hhas]
    constructor
    · rintro (⟨_, _, rfl, ⟨c, hc, rfl⟩, rfl⟩ | ⟨_, _, rfl, rfl, _, _, rfl, ⟨c, rfl⟩, rfl⟩)
      · exact ⟨.plain c hc, rfl⟩
      · exact ⟨.escaped c, rfl⟩
    · rintro ⟨c | c, rfl⟩
      · rename_i hc
        exact Or.inl ⟨[c], [], rfl, ⟨c, hc, rfl⟩, rfl⟩
      · exact Or.inr ⟨['\\'], [c], rfl, rfl, [c], [], rfl, ⟨c, rfl⟩, rfl⟩
  simp only [stringExpr, derives_seq_cons, derives_seq_nil, derives_text_iff,
    derives_star_of hletter]
  constructor
  · rintro ⟨_, _, rfl, rfl, _, _, rfl, ⟨letters, rfl⟩, _, _, rfl, rfl, rfl⟩
    exact ⟨letters, by simp [lettersText]⟩
  · rintro ⟨letters, rfl⟩
    exact ⟨_, _, List.append_assoc _ _ _, rfl, _, _, rfl, ⟨letters, rfl⟩, _, [], rfl, rfl, rfl⟩

theorem derives_digitsExpr :
    Derives rules digitsExpr s ↔ ∃ digits : Digits, s = digits.text := by
  have hdigit (s : List Char) :
      Derives rules digitExpr s ↔ ∃ c : {c : Char // c.isDigit = true}, s = [c.1] := by
    have hhas (c : Char) : Letters.has ⟨false, [('0', '9')]⟩ c = c.isDigit := by
      simp [Letters.has, Char.isDigit, Char.le_def]
    simp [digitExpr, hhas]
  rw [digitsExpr, derives_plus_iff]
  simp only [derives_star_of hdigit, hdigit]
  constructor
  · rintro ⟨_, _, rfl, ⟨c, rfl⟩, ⟨more, rfl⟩⟩
    refine ⟨⟨[c.1] ++ more.flatMap fun c => [c.1], by simp, ?_⟩, rfl⟩
    intro d hd
    rcases List.mem_append.mp hd with hfirst | hmore
    · rw [List.mem_singleton.mp hfirst]
      exact c.2
    · obtain ⟨digit, -, hdigit⟩ := List.mem_flatMap.mp hmore
      rw [List.mem_singleton.mp hdigit]
      exact digit.2
  · rintro ⟨⟨text, hne, hdigits⟩, rfl⟩
    obtain ⟨c, more, rfl⟩ := List.exists_cons_of_ne_nil hne
    obtain ⟨hc, hmore⟩ := List.forall_mem_cons.mp hdigits
    refine ⟨[c], more, rfl, ⟨⟨c, hc⟩, rfl⟩, more.attach.map fun d => ⟨d.1, hmore d.1 d.2⟩, ?_⟩
    simp [List.flatMap_map]

theorem derives_signExpr : Derives rules signExpr s ↔
    ∃ negative : Bool, s = if negative then ['-'] else [] := by
  simp [signExpr, derives_opt_iff]

/-- A number that is written with digits only. -/
theorem derives_integerExpr : Derives rules integerExpr s ↔ ∃ number : Number,
    (number.fraction = none ∧ number.exponent = none) ∧ s = number.text := by
  simp only [integerExpr, derives_seq_cons, derives_seq_nil, derives_signExpr, derives_digitsExpr]
  constructor
  · rintro ⟨_, _, rfl, ⟨negative, rfl⟩, _, _, rfl, ⟨whole, rfl⟩, rfl⟩
    exact ⟨⟨negative, whole, none, none⟩, ⟨rfl, rfl⟩, by simp [Number.text]⟩
  · rintro ⟨⟨negative, whole, _, _⟩, ⟨rfl, rfl⟩, rfl⟩
    exact ⟨_, _, by simp [Number.text], ⟨negative, rfl⟩, _, [], (List.append_nil _).symm,
      ⟨whole, rfl⟩, rfl⟩

theorem derives_numberExpr :
    Derives rules numberExpr s ↔ ∃ number : Number, s = number.text := by
  have hfraction (s : List Char) : Derives rules fractionExpr s ↔
      ∃ fraction : Option Digits, s = fraction.elim [] fun digits => '.' :: digits.text := by
    simp only [fractionExpr, derives_opt_iff, derives_seq_cons, derives_seq_nil, derives_text_iff,
      derives_digitsExpr]
    constructor
    · rintro (rfl | ⟨_, _, rfl, rfl, _, _, rfl, ⟨digits, rfl⟩, rfl⟩)
      · exact ⟨none, rfl⟩
      · exact ⟨some digits, by simp⟩
    · rintro ⟨none | digits, rfl⟩
      · exact Or.inl rfl
      · exact Or.inr ⟨['.'], _, rfl, rfl, _, [], (List.append_nil _).symm, ⟨digits, rfl⟩, rfl⟩
  have hletter (s : List Char) : Derives rules (choice [seq [.text ['e']], seq [.text ['E']]]) s ↔
      ∃ c, s = [c] ∧ (c = 'e' ∨ c = 'E') := by
    simp only [choice, derives_alt_iff, derives_seq_singleton, derives_text_iff]
    constructor
    · rintro (rfl | rfl)
      · exact ⟨'e', rfl, Or.inl rfl⟩
      · exact ⟨'E', rfl, Or.inr rfl⟩
    · rintro ⟨c, rfl, rfl | rfl⟩
      · exact Or.inl rfl
      · exact Or.inr rfl
  have hsign (s : List Char) :
      Derives rules (.rep (choice [seq [.text ['+']], seq [.text ['-']]]) 0 (some 1)) s ↔
        s = [] ∨ s = ['+'] ∨ s = ['-'] := by
    simp [choice, derives_opt_iff]
  have hexponent (s : List Char) : Derives rules exponentExpr s ↔
      ∃ exponent : Option Exponent, s = exponent.elim [] Exponent.text := by
    simp only [exponentExpr, derives_opt_iff, derives_seq_cons, derives_seq_nil, hletter, hsign,
      derives_digitsExpr]
    constructor
    · rintro (rfl | ⟨_, _, rfl, ⟨c, rfl, hc⟩, sign, _, rfl, hsign, _, _, rfl, ⟨digits, rfl⟩, rfl⟩)
      · exact ⟨none, rfl⟩
      · exact ⟨some ⟨c, sign, digits, hc, hsign⟩, by simp [Exponent.text]⟩
    · rintro ⟨none | ⟨c, sign, digits, hc, hsign⟩, rfl⟩
      · exact Or.inl rfl
      · exact Or.inr ⟨[c], _, rfl, ⟨c, rfl, hc⟩, sign, _, rfl, hsign, _, [],
          (List.append_nil _).symm, ⟨digits, rfl⟩, rfl⟩
  simp only [numberExpr, derives_seq_cons, derives_seq_nil, derives_signExpr, derives_digitsExpr,
    hfraction, hexponent]
  constructor
  · rintro ⟨_, _, rfl, ⟨negative, rfl⟩, _, _, rfl, ⟨whole, rfl⟩, _, _, rfl, ⟨fraction, rfl⟩, _, _,
      rfl, ⟨exponent, rfl⟩, rfl⟩
    exact ⟨⟨negative, whole, fraction, exponent⟩, by simp [Number.text]⟩
  · rintro ⟨⟨negative, whole, fraction, exponent⟩, rfl⟩
    exact ⟨_, _, by rw [Number.text, List.append_assoc, List.append_assoc], ⟨negative, rfl⟩, _, _,
      rfl, ⟨whole, rfl⟩, _, _, rfl, ⟨fraction, rfl⟩, _, [], (List.append_nil _).symm,
      ⟨exponent, rfl⟩, rfl⟩

/-! ## Lists -/

/-- One thing or more, with commas between them and white space behind the commas, or nothing. -/
def listExpr (space item : Expr) : Expr :=
  .rep (seq [item, .rep (seq [.text [','], space, item]) 0 none]) 0 (some 1)

theorem derives_listExpr {space item : Expr}
    (hspace : ∀ s, Derives rules space s ↔ ∃ space : Space, s = space.text) :
    Derives rules (listExpr space item) s ↔ s = [] ∨ ∃ first, ∃ more : List (Space × List Char),
      s = first ++ (more.flatMap fun x => ',' :: (x.1.text ++ x.2)) ∧ Derives rules item first ∧
        ∀ x ∈ more, Derives rules item x.2 := by
  have hpiece (s : List Char) : Derives rules (seq [.text [','], space, item]) s ↔
      ∃ x : {x : Space × List Char // Derives rules item x.2}, s = ',' :: (x.1.1.text ++ x.1.2) := by
    simp only [derives_seq_cons, derives_seq_nil, derives_text_iff, hspace]
    constructor
    · rintro ⟨_, _, rfl, rfl, _, _, rfl, ⟨space, rfl⟩, text, _, rfl, hitem, rfl⟩
      exact ⟨⟨(space, text), hitem⟩, by simp⟩
    · rintro ⟨⟨⟨space, text⟩, hitem⟩, rfl⟩
      exact ⟨[','], _, rfl, rfl, _, _, rfl, ⟨space, rfl⟩, text, [], (List.append_nil _).symm, hitem,
        rfl⟩
  simp only [listExpr, derives_opt_iff, derives_seq_cons, derives_seq_nil, derives_star_of hpiece]
  refine or_congr Iff.rfl ?_
  constructor
  · rintro ⟨first, _, rfl, hfirst, _, _, rfl, ⟨more, rfl⟩, rfl⟩
    refine ⟨first, more.map Subtype.val, ?_, hfirst, List.forall_mem_map.mpr fun x _ => x.2⟩
    rw [List.append_nil, List.flatMap_map]
  · rintro ⟨first, more, rfl, hfirst, hmore⟩
    obtain ⟨derived, rfl⟩ := @exists_map_eq _
      {x : Space × List Char // Derives rules item x.2} Subtype.val more
      fun x hx => ⟨⟨x, hmore x hx⟩, rfl⟩
    exact ⟨first, _, rfl, hfirst, _, [], (List.append_nil _).symm,
      ⟨derived, List.flatMap_map _ _ _⟩, rfl⟩

/-- Something between brackets, with white space round it. -/
def bracketExpr (space : Expr) (first last : Char) (item : Expr) : Expr :=
  seq [.text [first], space, item, space, .text [last]]

theorem derives_bracketExpr {space item : Expr} {first last : Char}
    (hspace : ∀ s, Derives rules space s ↔ ∃ space : Space, s = space.text) :
    Derives rules (bracketExpr space first last item) s ↔ ∃ before after : Space, ∃ inner,
      s = first :: (before.text ++ (inner ++ (after.text ++ [last]))) ∧
        Derives rules item inner := by
  simp only [bracketExpr, derives_seq_cons, derives_seq_nil, derives_text_iff, hspace]
  constructor
  · rintro ⟨_, _, rfl, rfl, _, _, rfl, ⟨before, rfl⟩, inner, _, rfl, hinner, _, _, rfl, ⟨after, rfl⟩,
      _, _, rfl, rfl, rfl⟩
    exact ⟨before, after, inner, rfl, hinner⟩
  · rintro ⟨before, after, inner, rfl, hinner⟩
    exact ⟨[first], _, rfl, rfl, _, _, rfl, ⟨before, rfl⟩, inner, _, rfl, hinner, _, _, rfl,
      ⟨after, rfl⟩, [last], [], rfl, rfl, rfl⟩

/-! ## Trees -/

/-- A text is the text of a tree. -/
def IsTree (s : List Char) : Prop := ∃ tree : Tree, s = tree.text

/-- A text is the text of a field. -/
def IsField (s : List Char) : Prop := ∃ field : Field, s = field.text

/-- Texts of trees with commas between them are the text of items. -/
theorem exists_items {first : List Char} {more : List (Space × List Char)} (hfirst : IsTree first)
    (hmore : ∀ x ∈ more, IsTree x.2) (after : Space) :
    ∃ items : Items, items.text =
      first ++ ((more.flatMap fun x => ',' :: (x.1.text ++ x.2)) ++ after.text) := by
  obtain ⟨tree, rfl⟩ := hfirst
  obtain ⟨trees, rfl⟩ := @exists_map_eq _ (Space × Tree) (fun x => (x.1, x.2.text)) more
    fun x hx => by
      obtain ⟨tree, htree⟩ := hmore x hx
      exact ⟨(x.1, tree), Prod.ext rfl htree⟩
  refine ⟨Items.laid .none tree trees after, ?_⟩
  rw [Items.text_laid, List.flatMap_map]
  rfl

theorem exists_fields {first : List Char} {more : List (Space × List Char)} (hfirst : IsField first)
    (hmore : ∀ x ∈ more, IsField x.2) (after : Space) :
    ∃ fields : Fields, fields.text =
      first ++ ((more.flatMap fun x => ',' :: (x.1.text ++ x.2)) ++ after.text) := by
  obtain ⟨field, rfl⟩ := hfirst
  obtain ⟨fields, rfl⟩ := @exists_map_eq _ (Space × Field) (fun x => (x.1, x.2.text)) more
    fun x hx => by
      obtain ⟨field, hfield⟩ := hmore x hx
      exact ⟨(x.1, field), Prod.ext rfl hfield⟩
  refine ⟨Fields.laid .none field fields after, ?_⟩
  rw [Fields.text_laid, List.flatMap_map]
  rfl

section

variable {space item : Expr} {first last : Char}
  (hspace : ∀ s, Derives rules space s ↔ ∃ space : Space, s = space.text)

include hspace

/-- A list between brackets is empty, or has things that are shorter than it. -/
theorem exists_list (h : Derives rules (bracketExpr space first last (listExpr space item)) s) :
    (∃ before after : Space, s = first :: (before.text ++ (after.text ++ [last]))) ∨
      ∃ before after : Space, ∃ text, ∃ more : List (Space × List Char),
        s = first :: (before.text ++ ((text ++ more.flatMap fun x => ',' :: (x.1.text ++ x.2)) ++
          (after.text ++ [last]))) ∧
        (Derives rules item text ∧ text.length < s.length) ∧
          ∀ x ∈ more, Derives rules item x.2 ∧ x.2.length < s.length := by
  obtain ⟨before, after, inner, rfl, hinner⟩ := (derives_bracketExpr hspace).mp h
  rcases (derives_listExpr hspace).mp hinner with rfl | ⟨text, more, rfl, htext, hmore⟩
  · exact Or.inl ⟨before, after, rfl⟩
  · refine Or.inr ⟨before, after, text, more, rfl, ⟨htext, ?_⟩, fun x hx => ⟨hmore x hx, ?_⟩⟩
    · simp only [List.length_cons, List.length_append]
      omega
    · have hpart : ',' :: (x.1.text ++ x.2) ∈ more.map fun x => ',' :: (x.1.text ++ x.2) :=
        List.mem_map_of_mem hx
      have hle := (List.sublist_flatten_of_mem hpart).length_le
      rw [← List.flatMap_def] at hle
      simp only [List.length_cons, List.length_append] at hle ⊢
      omega

/-- What is derived for an array is one, if what is shorter and derived for an item is a tree. -/
theorem exists_arr (hitem : ∀ t, t.length < s.length → Derives rules item t → IsTree t)
    (h : Derives rules (bracketExpr space '[' ']' (listExpr space item)) s) :
    ∃ space items, s = (Tree.arr space items).text := by
  rcases exists_list hspace h with ⟨before, after, rfl⟩ |
    ⟨before, after, text, more, rfl, ⟨htext, hshort⟩, hmore⟩
  · exact ⟨before.append after, .nil, by simp [Tree.text, Items.text, Space.append]⟩
  · obtain ⟨items, hitems⟩ := exists_items (hitem text hshort htext)
      (fun x hx => hitem x.2 (hmore x hx).2 (hmore x hx).1) after
    exact ⟨before, items, by simp [Tree.text, hitems]⟩

/-- What is derived for an object is one, if what is shorter and derived for a pair is a field. -/
theorem exists_obj (hitem : ∀ t, t.length < s.length → Derives rules item t → IsField t)
    (h : Derives rules (bracketExpr space '\x7b' '\x7d' (listExpr space item)) s) :
    ∃ space fields, s = (Tree.obj space fields).text := by
  rcases exists_list hspace h with ⟨before, after, rfl⟩ |
    ⟨before, after, text, more, rfl, ⟨htext, hshort⟩, hmore⟩
  · exact ⟨before.append after, .nil, by simp [Tree.text, Fields.text, Space.append]⟩
  · obtain ⟨fields, hfields⟩ := exists_fields (hitem text hshort htext)
      (fun x hx => hitem x.2 (hmore x hx).2 (hmore x hx).1) after
    exact ⟨before, fields, by simp [Tree.text, hfields]⟩

end

/-! ## Records -/

/-- An expression derives the texts of some trees. -/
def Describes (rules : Rules) (e : Expr) (trees : Tree → Prop) : Prop :=
  ∀ s, Derives rules e s ↔ ∃ tree, trees tree ∧ s = tree.text

/-- The place of a field in a record: its key, the expression of its value, and the trees that may
stand there. -/
structure Slot where
  key : List Letter
  value : Expr
  trees : Tree → Prop

/-- A field of a given key, with white space round its parts. -/
def fieldItems (space : Expr) (key : List Letter) (value : Expr) : List Expr :=
  [space, .text (lettersText key), space, .text [':'], space, value, space]

def fieldsItems (space : Expr) : List Slot → List Expr
  | [] => []
  | [slot] => fieldItems space slot.key slot.value
  | slot :: more => fieldItems space slot.key slot.value ++ .text [','] :: fieldsItems space more

/-- The fields behind the first one, with the comma in front of them. -/
def restItems (space : Expr) (slots : List Slot) : List Expr :=
  match slots with
  | [] => []
  | _ :: _ => .text [','] :: fieldsItems space slots

theorem fieldsItems_cons (space : Expr) (slot : Slot) (more : List Slot) :
    fieldsItems space (slot :: more) =
      fieldItems space slot.key slot.value ++ restItems space more := by
  cases more with
  | nil => exact (List.append_nil _).symm
  | cons => rfl

/-- An object with fields of given keys, in their order. -/
def recordExpr (space : Expr) (slots : List Slot) : Expr :=
  seq (.text ['\x7b'] :: (fieldsItems space slots ++ [.text ['\x7d']]))

/-- A field stands in its place. -/
def Fills (slot : Slot) (entry : List Letter × Tree) : Prop :=
  entry.1 = slot.key ∧ slot.trees entry.2

section

variable {space : Expr} (hspace : ∀ s, Derives rules space s ↔ ∃ space : Space, s = space.text)

include hspace

theorem derives_fieldItems {key : List Letter} {value : Expr} :
    Derives rules (seq (fieldItems space key value)) s ↔
      ∃ before beforeColon afterColon after : Space, ∃ text, Derives rules value text ∧
        s = before.text ++ (lettersText key ++ (beforeColon.text ++ (':' ::
          (afterColon.text ++ (text ++ after.text))))) := by
  simp only [fieldItems, derives_seq_cons, derives_seq_nil, derives_text_iff, hspace]
  constructor
  · rintro ⟨_, _, rfl, ⟨before, rfl⟩, _, _, rfl, rfl, _, _, rfl, ⟨beforeColon, rfl⟩, _, _, rfl, rfl,
      _, _, rfl, ⟨afterColon, rfl⟩, text, _, rfl, htext, _, _, rfl, ⟨after, rfl⟩, rfl⟩
    exact ⟨before, beforeColon, afterColon, after, text, htext, by simp⟩
  · rintro ⟨before, beforeColon, afterColon, after, text, htext, rfl⟩
    exact ⟨_, _, rfl, ⟨before, rfl⟩, _, _, rfl, rfl, _, _, rfl, ⟨beforeColon, rfl⟩, [':'], _, rfl,
      rfl, _, _, rfl, ⟨afterColon, rfl⟩, text, _, rfl, htext, _, [], (List.append_nil _).symm,
      ⟨after, rfl⟩, rfl⟩

omit hspace in
/-- Behind a field the others stand behind a comma, if there are any. -/
theorem derives_restItems {slots : List Slot}
    (hfields : ∀ t, Derives rules (seq (fieldsItems space slots)) t ↔
      ∃ written : Fields, t = written.text ∧ List.Forall₂ Fills slots written.entries)
    (t : List Char) :
    Derives rules (seq (restItems space slots)) t ↔
      ∃ written : Fields, t = written.rest ∧ List.Forall₂ Fills slots written.entries := by
  cases slots with
  | nil =>
      rw [restItems, derives_seq_nil]
      constructor
      · rintro rfl
        exact ⟨.nil, rfl, .nil⟩
      · rintro ⟨_ | _, rfl, ⟨⟩⟩
        rfl
  | cons slot more =>
      rw [restItems, derives_seq_cons]
      constructor
      · rintro ⟨_, _, rfl, hcomma, hback⟩
        obtain ⟨written, rfl, hfits⟩ := (hfields _).mp hback
        rw [derives_text_iff] at hcomma
        cases written with
        | nil => cases hfits
        | cons => exact ⟨_, by rw [hcomma]; rfl, hfits⟩
      · rintro ⟨_ | _, rfl, hfits⟩
        · cases hfits
        · exact ⟨[','], _, rfl, derives_text_iff.mpr rfl, (hfields _).mpr ⟨_, rfl, hfits⟩⟩

theorem derives_fieldsItems {slots : List Slot}
    (hslots : ∀ slot ∈ slots, Describes rules slot.value slot.trees) :
    Derives rules (seq (fieldsItems space slots)) s ↔
      ∃ written : Fields, s = written.text ∧ List.Forall₂ Fills slots written.entries := by
  induction slots generalizing s with
  | nil =>
      rw [fieldsItems, derives_seq_nil]
      constructor
      · rintro rfl
        exact ⟨.nil, rfl, .nil⟩
      · rintro ⟨written, rfl, hfits⟩
        cases written with
        | nil => rfl
        | cons => cases hfits
  | cons slot more ih =>
      obtain ⟨hvalue, hmore⟩ := List.forall_mem_cons.mp hslots
      have hrest := derives_restItems fun t => @ih t hmore
      rw [fieldsItems_cons, derives_seq_append]
      constructor
      · rintro ⟨_, _, rfl, hfirst, hback⟩
        obtain ⟨before, beforeColon, afterColon, after, text, htext, rfl⟩ :=
          (derives_fieldItems hspace).mp hfirst
        obtain ⟨written, rfl, hfits⟩ := (hrest _).mp hback
        obtain ⟨tree, htree, rfl⟩ := (hvalue text).mp htext
        refine ⟨.cons before slot.key beforeColon afterColon tree after written, ?_, ?_⟩
        · rw [Fields.text_cons]
          simp
        · exact .cons ⟨rfl, htree⟩ hfits
      · rintro ⟨written, rfl, hfits⟩
        obtain _ | ⟨before, name, beforeColon, afterColon, tree, after, written⟩ := written
        · cases hfits
        · obtain ⟨⟨rfl, htree⟩, hothers⟩ := List.forall₂_cons.mp hfits
          refine ⟨_, _, ?_, (derives_fieldItems hspace).mpr
            ⟨before, beforeColon, afterColon, after, tree.text,
              (hvalue _).mpr ⟨tree, htree, rfl⟩, rfl⟩,
            (hrest _).mpr ⟨written, rfl, hothers⟩⟩
          rw [Fields.text_cons]
          simp

/-- **What is derived for a record is an object with its fields.** -/
theorem derives_recordExpr {slots : List Slot}
    (hslots : ∀ slot ∈ slots, Describes rules slot.value slot.trees) :
    Derives rules (recordExpr space slots) s ↔ ∃ written : Fields,
      s = (Tree.obj .none written).text ∧ List.Forall₂ Fills slots written.entries := by
  rw [recordExpr, derives_seq_cons]
  simp only [derives_seq_append, derives_seq_singleton, derives_text_iff,
    derives_fieldsItems hspace hslots]
  constructor
  · rintro ⟨_, _, rfl, rfl, _, _, rfl, ⟨written, rfl, hfits⟩, rfl⟩
    exact ⟨written, by simp [Tree.text, Space.none], hfits⟩
  · rintro ⟨written, rfl, hfits⟩
    exact ⟨['\x7b'], _, by simp [Tree.text, Space.none], rfl, _, _, rfl, ⟨written, rfl, hfits⟩, rfl⟩

end

end JsonText
