/-
# JSON as it is written

A value is what a reader of JSON finds, with every number as it is written; `write` is its text
without any white space. A tree is a JSON text with everything that a value leaves out: the white
space, the letters of a string with their escapes, the digits of a number. A tree may be loose: its
strings may hold any letters and any escapes, and its numbers may begin with zeros. It is strict, and
has a value, if it is JSON.

`fromStr` reads a text, and what it makes of the text of a tree is the value of the tree.
-/

import HiveBear.Library.Texts
import Mathlib.Data.List.Basic
import Mathlib.Tactic.SplitIfs

namespace JsonText

/-! ## Values -/

/-- A JSON value. The fields of an object stand in the order of its text. -/
inductive Value
  | null
  | bool (b : Bool)
  | num (literal : List Char)
  | str (text : List Char)
  | arr (items : List Value)
  | obj (fields : List (List Char × Value))

/-! ### Writing -/

/-- What stands for a character in a string. -/
def escape (c : Char) : List Char :=
  if c = '"' then ['\\', '"']
  else if c = '\\' then ['\\', '\\']
  else if c.toNat = 0x08 then ['\\', 'b']
  else if c.toNat = 0x09 then ['\\', 't']
  else if c.toNat = 0x0A then ['\\', 'n']
  else if c.toNat = 0x0C then ['\\', 'f']
  else if c.toNat = 0x0D then ['\\', 'r']
  else if c.toNat < 0x20 then
    ['\\', 'u', '0', '0', Nat.digitChar (c.toNat / 16), Nat.digitChar (c.toNat % 16)]
  else [c]

def writeString (text : List Char) : List Char := ['"'] ++ text.flatMap escape ++ ['"']

mutual

/-- The text of a value, without white space. -/
def write : Value → List Char
  | .null => "null".toList
  | .bool true => "true".toList
  | .bool false => "false".toList
  | .num literal => literal
  | .str text => writeString text
  | .arr items => ['['] ++ writeItems items ++ [']']
  | .obj fields => ['{'] ++ writeFields fields ++ ['}']

def writeItems : List Value → List Char
  | [] => []
  | [item] => write item
  | item :: items => write item ++ [','] ++ writeItems items

def writeFields : List (List Char × Value) → List Char
  | [] => []
  | [(key, value)] => writeString key ++ [':'] ++ write value
  | (key, value) :: fields => writeString key ++ [':'] ++ write value ++ [','] ++ writeFields fields

end

example : write (.obj [("a".toList, .arr [.null, .str "\"\t".toList])]) =
    "\x7b\"a\":[null,\"\\\"\\t\"]\x7d".toList := by decide

/-! ## Trees -/

def isSpace (c : Char) : Bool := [' ', '\t', '\n', '\r'].contains c

/-- White space. -/
structure Space where
  text : List Char
  isSpace : ∀ c ∈ text, isSpace c = true

/-- No white space. -/
def Space.none : Space := ⟨[], List.forall_mem_nil _⟩

def Space.append (first second : Space) : Space :=
  ⟨first.text ++ second.text, List.forall_mem_append.mpr ⟨first.isSpace, second.isSpace⟩⟩

/-- A letter of a string, as it is written. -/
inductive Letter
  | plain (c : Char) (h : c ≠ '"' ∧ c ≠ '\\')
  | escaped (c : Char)

def Letter.text : Letter → List Char
  | .plain c _ => [c]
  | .escaped c => ['\\', c]

def lettersText (letters : List Letter) : List Char :=
  ['"'] ++ letters.flatMap Letter.text ++ ['"']

/-- A text that may stand in a string as it is, up to control characters. -/
def Plain (text : List Char) : Prop := ∀ c ∈ text, c ≠ '"' ∧ c ≠ '\\'

instance (text : List Char) : Decidable (Plain text) := List.decidableBAll _ text

theorem Plain.of_cons {c : Char} {text : List Char} (h : Plain (c :: text)) : Plain text :=
  fun d hd => h d (List.mem_cons_of_mem c hd)

/-- The letters of a text that stands in a string as it is. -/
def plainLetters : (text : List Char) → Plain text → List Letter
  | [], _ => []
  | c :: text, h => .plain c (h c List.mem_cons_self) :: plainLetters text h.of_cons

theorem flatMap_plainLetters {text : List Char} (h : Plain text) :
    (plainLetters text h).flatMap Letter.text = text := by
  induction text with
  | nil => rfl
  | cons c text ih =>
      rw [plainLetters, List.flatMap_cons, ih]
      rfl

theorem lettersText_plainLetters {text : List Char} (h : Plain text) :
    lettersText (plainLetters text h) = '"' :: (text ++ ['"']) := by
  rw [lettersText, flatMap_plainLetters]
  rfl

/-- Digits, at least one. -/
structure Digits where
  text : List Char
  ne_nil : text ≠ []
  isDigit : ∀ c ∈ text, c.isDigit = true

/-- The exponent of a number: its letter, its sign if it has one, and its digits. -/
structure Exponent where
  letter : Char
  sign : List Char
  digits : Digits
  isLetter : letter = 'e' ∨ letter = 'E'
  isSign : sign = [] ∨ sign = ['+'] ∨ sign = ['-']

def Exponent.text (exponent : Exponent) : List Char :=
  exponent.letter :: (exponent.sign ++ exponent.digits.text)

structure Number where
  negative : Bool
  whole : Digits
  fraction : Option Digits
  exponent : Option Exponent

def Number.text (number : Number) : List Char :=
  (if number.negative then ['-'] else []) ++ number.whole.text ++
    (number.fraction.elim [] fun digits => '.' :: digits.text) ++
      number.exponent.elim [] Exponent.text

/-- There are no zeros in front of a number. -/
def Digits.Strict (digits : Digits) : Prop := digits.text = ['0'] ∨ digits.text.head? ≠ some '0'

instance (digits : Digits) : Decidable digits.Strict := inferInstanceAs (Decidable (_ ∨ _))

/-! ### Letters -/

def hexDigit (c : Char) : Option ℕ :=
  if c.isDigit then some (c.toNat - '0'.toNat)
  else if 'a' ≤ c ∧ c ≤ 'f' then some (c.toNat - 'a'.toNat + 10)
  else if 'A' ≤ c ∧ c ≤ 'F' then some (c.toNat - 'A'.toNat + 10)
  else none

/-- What an escape of one letter stands for. -/
def unescapeLetter (c : Char) : Option Char :=
  if c = '"' ∨ c = '\\' ∨ c = '/' then some c
  else if c = 'b' then some (Char.ofNat 0x08)
  else if c = 'f' then some (Char.ofNat 0x0C)
  else if c = 'n' then some '\n'
  else if c = 'r' then some '\r'
  else if c = 't' then some '\t'
  else none

/-- What has been read of a character that is written with digits: how many digits it lacks and
what they come to so far, and the first half of a pair. -/
inductive Pending
  | ready
  | digits (lacks value : ℕ) (half : Option ℕ)
  | half (value : ℕ)

/-- The character of four digits, or the half of a pair. -/
def complete (value : ℕ) (half : Option ℕ) : Option (List Char × Pending) :=
  match half with
  | none =>
      if 0xD800 ≤ value ∧ value ≤ 0xDBFF then some ([], .half value)
      else if 0xDC00 ≤ value ∧ value ≤ 0xDFFF then none
      else some ([Char.ofNat value], .ready)
  | some first =>
      if 0xDC00 ≤ value ∧ value ≤ 0xDFFF then
        some ([Char.ofNat (0x10000 + (first - 0xD800) * 0x400 + (value - 0xDC00))], .ready)
      else none

/-- Read a letter of a string. -/
def stepLetter (pending : Pending) (letter : Letter) : Option (List Char × Pending) :=
  match pending, letter with
  | .ready, .plain c _ => if c.toNat < 0x20 then none else some ([c], .ready)
  | .ready, .escaped c =>
      if c = 'u' then some ([], .digits 4 0 none)
      else (unescapeLetter c).map fun c => ([c], .ready)
  | .digits lacks value half, .plain c _ =>
      (hexDigit c).bind fun digit =>
        if lacks = 1 then complete (16 * value + digit) half
        else some ([], .digits (lacks - 1) (16 * value + digit) half)
  | .half first, .escaped c => if c = 'u' then some ([], .digits 4 0 (some first)) else none
  | _, _ => none

def unescapeFrom : Pending → List Letter → Option (List Char)
  | .ready, [] => some []
  | _, [] => none
  | pending, letter :: letters =>
      (stepLetter pending letter).bind fun next =>
        (unescapeFrom next.2 letters).map (next.1 ++ ·)

/-- What the letters of a string stand for, if they are those of JSON. -/
def unescape (letters : List Letter) : Option (List Char) := unescapeFrom .ready letters

/-- There are no control characters in a text. -/
def Printed (text : List Char) : Prop := ∀ c ∈ text, 0x20 ≤ c.toNat

instance (text : List Char) : Decidable (Printed text) := List.decidableBAll _ text

/-- Letters that stand as they are stand for themselves, control characters for nothing. -/
theorem unescape_plainLetters {text : List Char} (h : Plain text) :
    unescape (plainLetters text h) = if Printed text then some text else none := by
  rw [unescape]
  induction text with
  | nil => rfl
  | cons c text ih =>
      rw [plainLetters, unescapeFrom, stepLetter]
      by_cases hcontrol : c.toNat < 0x20
      · have hnot : ¬ Printed (c :: text) := fun hall =>
          absurd (hall c List.mem_cons_self) (by omega)
        rw [if_pos hcontrol, if_neg hnot]
        rfl
      · have hiff : Printed (c :: text) ↔ Printed text := by
          simp only [Printed, List.forall_mem_cons, and_iff_right_iff_imp]
          omega
        rw [if_neg hcontrol, Option.bind_some, ih h.of_cons, if_congr hiff rfl rfl]
        split_ifs <;> rfl

/-! ### Texts and values -/

mutual

/-- A JSON text. -/
inductive Tree
  | null
  | bool (b : Bool)
  | num (number : Number)
  | str (letters : List Letter)
  | arr (space : Space) (items : Items)
  | obj (space : Space) (fields : Fields)

/-- The items of an array, each between white space. -/
inductive Items
  | nil
  | cons (before : Space) (item : Tree) (after : Space) (more : Items)

/-- The fields of an object. -/
inductive Fields
  | nil
  | cons (before : Space) (key : List Letter) (beforeColon afterColon : Space) (value : Tree)
      (after : Space) (more : Fields)

end

mutual

def Tree.text : Tree → List Char
  | .null => "null".toList
  | .bool true => "true".toList
  | .bool false => "false".toList
  | .num number => number.text
  | .str letters => lettersText letters
  | .arr space items => ['['] ++ space.text ++ items.text ++ [']']
  | .obj space fields => ['\x7b'] ++ space.text ++ fields.text ++ ['\x7d']

def Items.text : Items → List Char
  | .nil => []
  | .cons before item after .nil => before.text ++ item.text ++ after.text
  | .cons before item after more => before.text ++ item.text ++ after.text ++ [','] ++ more.text

def Fields.text : Fields → List Char
  | .nil => []
  | .cons before key beforeColon afterColon value after .nil =>
      before.text ++ lettersText key ++ beforeColon.text ++ [':'] ++ afterColon.text ++
        value.text ++ after.text
  | .cons before key beforeColon afterColon value after more =>
      before.text ++ lettersText key ++ beforeColon.text ++ [':'] ++ afterColon.text ++
        value.text ++ after.text ++ [','] ++ more.text

end

/-- The items behind the first one, with the comma in front of them. -/
def Items.rest (items : Items) : List Char :=
  match items with
  | .nil => []
  | .cons _ _ _ _ => ',' :: items.text

def Fields.rest (fields : Fields) : List Char :=
  match fields with
  | .nil => []
  | .cons _ _ _ _ _ _ _ => ',' :: fields.text

/-- The fields, without the white space. -/
def Fields.entries : Fields → List (List Letter × Tree)
  | .nil => []
  | .cons _ key _ _ value _ more => (key, value) :: more.entries

theorem Items.text_cons (before : Space) (item : Tree) (after : Space) (more : Items) :
    (Items.cons before item after more).text =
      before.text ++ (item.text ++ (after.text ++ more.rest)) := by
  cases more <;> simp [Items.text, Items.rest]

theorem Fields.text_cons (before : Space) (key : List Letter) (beforeColon afterColon : Space)
    (value : Tree) (after : Space) (more : Fields) :
    (Fields.cons before key beforeColon afterColon value after more).text =
      before.text ++ (lettersText key ++ (beforeColon.text ++ (':' ::
        (afterColon.text ++ (value.text ++ (after.text ++ more.rest)))))) := by
  cases more <;> simp [Fields.text, Fields.rest]

/-- Items with white space in front of them and behind the last one. -/
def Items.laid (before : Space) (item : Tree) (more : List (Space × Tree)) (last : Space) : Items :=
  match more with
  | [] => .cons before item last .nil
  | (next, tree) :: more => .cons before item .none (Items.laid next tree more last)

theorem Items.text_laid (before : Space) (item : Tree) (more : List (Space × Tree)) (last : Space) :
    (Items.laid before item more last).text = before.text ++ (item.text ++
      ((more.flatMap fun x => ',' :: (x.1.text ++ x.2.text)) ++ last.text)) := by
  induction more generalizing before item with
  | nil => rw [Items.laid, Items.text_cons, Items.rest, List.append_nil, List.flatMap_nil,
      List.nil_append]
  | cons x more ih =>
      have hrest : (Items.laid x.1 x.2 more last).rest =
          ',' :: (Items.laid x.1 x.2 more last).text := by
        cases more <;> rfl
      rw [Items.laid, Items.text_cons, hrest, ih, List.flatMap_cons]
      simp [Space.none]

/-- A field of an object, without the white space round it. -/
structure Field where
  key : List Letter
  beforeColon : Space
  afterColon : Space
  value : Tree

def Field.text (field : Field) : List Char :=
  lettersText field.key ++ (field.beforeColon.text ++ (':' ::
    (field.afterColon.text ++ field.value.text)))

/-- Fields with white space in front of them and behind the last one. -/
def Fields.laid (before : Space) (field : Field) (more : List (Space × Field)) (last : Space) :
    Fields :=
  match more with
  | [] => .cons before field.key field.beforeColon field.afterColon field.value last .nil
  | (next, other) :: more =>
      .cons before field.key field.beforeColon field.afterColon field.value .none
        (Fields.laid next other more last)

theorem Fields.text_laid (before : Space) (field : Field) (more : List (Space × Field))
    (last : Space) :
    (Fields.laid before field more last).text = before.text ++ (field.text ++
      ((more.flatMap fun x => ',' :: (x.1.text ++ x.2.text)) ++ last.text)) := by
  induction more generalizing before field with
  | nil =>
      rw [Fields.laid, Fields.text_cons, Fields.rest, Field.text]
      simp
  | cons x more ih =>
      have hrest : (Fields.laid x.1 x.2 more last).rest =
          ',' :: (Fields.laid x.1 x.2 more last).text := by
        cases more <;> rfl
      rw [Fields.laid, Fields.text_cons, hrest, ih, List.flatMap_cons]
      simp [Space.none, Field.text]

mutual

/-- The value of a text, if it is JSON. -/
def Tree.value : Tree → Option Value
  | .null => some .null
  | .bool b => some (.bool b)
  | .num number => if number.whole.Strict then some (.num number.text) else none
  | .str letters => (unescape letters).map .str
  | .arr _ items => items.values.map .arr
  | .obj _ fields => fields.values.map .obj

def Items.values : Items → Option (List Value)
  | .nil => some []
  | .cons _ item _ more => item.value.bind fun value => more.values.map (value :: ·)

def Fields.values : Fields → Option (List (List Char × Value))
  | .nil => some []
  | .cons _ key _ _ value _ more =>
      (unescape key).bind fun key => value.value.bind fun value =>
        more.values.map ((key, value) :: ·)

end

/-- The values of fields are those of their entries. -/
theorem Fields.values_eq : (fields : Fields) → fields.values = fields.entries.mapM fun entry =>
    (unescape entry.1).bind fun key => entry.2.value.map fun value => (key, value)
  | .nil => rfl
  | .cons before key beforeColon afterColon value after more => by
      rw [Fields.values, Fields.entries, List.mapM_cons, ← more.values_eq]
      cases unescape key with
      | none => rfl
      | some name =>
          cases value.value with
          | none => rfl
          | some found => cases more.values <;> rfl

mutual

/-- A text is JSON: every string has the letters of JSON, and no number begins with zeros. -/
def Tree.Strict : Tree → Prop
  | .null | .bool _ => True
  | .num number => number.whole.Strict
  | .str letters => (unescape letters).isSome
  | .arr _ items => items.Strict
  | .obj _ fields => fields.Strict

def Items.Strict : Items → Prop
  | .nil => True
  | .cons _ item _ more => item.Strict ∧ more.Strict

def Fields.Strict : Fields → Prop
  | .nil => True
  | .cons _ key _ _ value _ more => (unescape key).isSome ∧ value.Strict ∧ more.Strict

end

mutual

theorem Tree.isSome_value (tree : Tree) : tree.value.isSome ↔ tree.Strict := by
  cases tree with
  | null | bool => simp [Tree.value, Tree.Strict]
  | num number =>
      rw [Tree.value, Tree.Strict]
      split_ifs with hstrict <;> simp [hstrict]
  | str letters => simp [Tree.value, Tree.Strict]
  | arr space items => simp [Tree.value, Tree.Strict, items.isSome_values]
  | obj space fields => simp [Tree.value, Tree.Strict, fields.isSome_values]

theorem Items.isSome_values (items : Items) : items.values.isSome ↔ items.Strict := by
  cases items with
  | nil => simp [Items.values, Items.Strict]
  | cons before item after more =>
      rw [Items.values, Items.Strict, ← item.isSome_value, ← more.isSome_values]
      cases item.value <;> simp

theorem Fields.isSome_values (fields : Fields) : fields.values.isSome ↔ fields.Strict := by
  cases fields with
  | nil => simp [Fields.values, Fields.Strict]
  | cons before key beforeColon afterColon value after more =>
      rw [Fields.values, Fields.Strict, ← value.isSome_value, ← more.isSome_values]
      cases unescape key <;> cases value.value <;> simp

end

end JsonText
