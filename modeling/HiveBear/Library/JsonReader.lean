/-
# Reading JSON

`fromStr` reads a text as the notation of JSON has it. On the text of a tree it gives the value of
the tree: nothing if the tree is loose, and what it stands for if it is strict. Nothing else is
read: a text that is read is the text of a tree between white space.
-/

import HiveBear.Library.JsonTree
import Mathlib.Data.List.DropRight
import Mathlib.Data.List.TakeWhile

namespace JsonText

/-! ## The reader -/

def skipSpace (text : List Char) : List Char := text.dropWhile isSpace

/-- The letters of a string up to its end, behind a backslash or not. -/
def scanString : Bool → List Char → Option (List Letter × List Char)
  | _, [] => none
  | true, c :: text =>
      (scanString false text).map fun scanned => (.escaped c :: scanned.1, scanned.2)
  | false, c :: text =>
      if hquote : c = '"' then some ([], text)
      else if hslash : c = '\\' then scanString true text
      else
        (scanString false text).map fun scanned => (.plain c ⟨hquote, hslash⟩ :: scanned.1, scanned.2)

/-- The text of a string, behind its first quotation mark. -/
def readString (text : List Char) : Option (List Char × List Char) :=
  (scanString false text).bind fun scanned =>
    (unescape scanned.1).map fun string => (string, scanned.2)

def readSign (signs text : List Char) : List Char × List Char :=
  match text with
  | [] => ([], [])
  | c :: rest => if c ∈ signs then ([c], rest) else ([], text)

/-- Digits that must be there. -/
def readDigits (text : List Char) : Option (List Char × List Char) :=
  if text.takeWhile Char.isDigit = [] then none
  else some (text.takeWhile Char.isDigit, text.dropWhile Char.isDigit)

def readFraction (text : List Char) : Option (List Char × List Char) :=
  match text with
  | '.' :: rest => (readDigits rest).map fun digits => ('.' :: digits.1, digits.2)
  | _ => some ([], text)

def readExponent (text : List Char) : Option (List Char × List Char) :=
  match text with
  | [] => some ([], [])
  | c :: rest =>
      if c = 'e' ∨ c = 'E' then
        let sign := readSign ['+', '-'] rest
        (readDigits sign.2).map fun digits => (c :: (sign.1 ++ digits.1), digits.2)
      else some ([], text)

/-- The text of a number. No zeros stand in front of it. -/
def readNumber (text : List Char) : Option (List Char × List Char) :=
  let sign := readSign ['-'] text
  (readDigits sign.2).bind fun whole =>
    if whole.1 = ['0'] ∨ whole.1.head? ≠ some '0' then
      (readFraction whole.2).bind fun fraction =>
        (readExponent fraction.2).map fun exponent =>
          (sign.1 ++ whole.1 ++ fraction.1 ++ exponent.1, exponent.2)
    else none

def readWord (text : List Char) : Option (Value × List Char) :=
  if "null".toList <+: text then some (.null, text.drop 4)
  else if "true".toList <+: text then some (.bool true, text.drop 4)
  else if "false".toList <+: text then some (.bool false, text.drop 5)
  else none

mutual

def readValue : ℕ → List Char → Option (Value × List Char)
  | 0, _ => none
  | fuel + 1, text =>
      match text with
      | [] => none
      | c :: rest =>
          if c = '"' then (readString rest).map fun string => (.str string.1, string.2)
          else if c = '[' then
            match skipSpace rest with
            | [] => none
            | d :: more =>
                if d = ']' then some (.arr [], more)
                else (readItems fuel (d :: more)).map fun items => (.arr items.1, items.2)
          else if c = '\x7b' then
            match skipSpace rest with
            | [] => none
            | d :: more =>
                if d = '\x7d' then some (.obj [], more)
                else (readFields fuel (d :: more)).map fun fields => (.obj fields.1, fields.2)
          else if c = '-' ∨ c.isDigit = true then
            (readNumber text).map fun number => (.num number.1, number.2)
          else readWord text

/-- The items of an array, up to its end. -/
def readItems : ℕ → List Char → Option (List Value × List Char)
  | 0, _ => none
  | fuel + 1, text =>
      (readValue fuel (skipSpace text)).bind fun item =>
        match skipSpace item.2 with
        | [] => none
        | c :: rest =>
            if c = ',' then (readItems fuel rest).map fun items => (item.1 :: items.1, items.2)
            else if c = ']' then some ([item.1], rest)
            else none

/-- The fields of an object, up to its end. -/
def readFields : ℕ → List Char → Option (List (List Char × Value) × List Char)
  | 0, _ => none
  | fuel + 1, text =>
      match skipSpace text with
      | [] => none
      | quote :: text =>
          if quote = '"' then
            (readString text).bind fun key =>
              match skipSpace key.2 with
              | [] => none
              | colon :: text =>
                  if colon = ':' then
                    (readValue fuel (skipSpace text)).bind fun value =>
                      match skipSpace value.2 with
                      | [] => none
                      | c :: rest =>
                          if c = ',' then
                            (readFields fuel rest).map fun fields =>
                              ((key.1, value.1) :: fields.1, fields.2)
                          else if c = '\x7d' then some ([(key.1, value.1)], rest)
                          else none
                  else none
          else none

end

/-- Read a text as JSON. -/
def fromStr (text : List Char) : Option Value :=
  (readValue (2 * text.length) (skipSpace text)).bind fun value =>
    if skipSpace value.2 = [] then some value.1 else none

/-! ## Strings and numbers -/

theorem scanString_letters (letters : List Letter) (rest : List Char) :
    scanString false (letters.flatMap Letter.text ++ '"' :: rest) = some (letters, rest) := by
  induction letters with
  | nil => rfl
  | cons letter letters ih =>
      rw [List.flatMap_cons, List.append_assoc]
      cases letter with
      | plain c h =>
          rw [Letter.text, List.singleton_append, scanString, dif_neg h.1, dif_neg h.2, ih]
          rfl
      | escaped c =>
          rw [Letter.text, List.cons_append, List.singleton_append, scanString,
            dif_neg (by decide), dif_pos rfl, scanString, ih]
          rfl

/-- A string is read for what its letters stand for. -/
theorem readString_letters (letters : List Letter) (rest : List Char) :
    readString (letters.flatMap Letter.text ++ '"' :: rest) =
      (unescape letters).map fun string => (string, rest) := by
  rw [readString, scanString_letters]
  rfl

/-- No digit follows. -/
def NoDigit (rest : List Char) : Prop := ∀ c ∈ rest.head?, c.isDigit = false

theorem readDigits_text (digits : Digits) {rest : List Char} (hrest : NoDigit rest) :
    readDigits (digits.text ++ rest) = some (digits.text, rest) := by
  have htake : rest.takeWhile Char.isDigit = [] ∧ rest.dropWhile Char.isDigit = rest := by
    cases rest with
    | nil => exact ⟨rfl, rfl⟩
    | cons c rest =>
        have hc := hrest c rfl
        rw [List.takeWhile_cons, List.dropWhile_cons, hc]
        exact ⟨rfl, rfl⟩
  rw [readDigits, List.takeWhile_append_of_pos digits.isDigit,
    List.dropWhile_append_of_pos digits.isDigit, htake.1, htake.2, List.append_nil,
    if_neg digits.ne_nil]

theorem readSign_of_digits {signs : List Char} (hsigns : ∀ c ∈ signs, c.isDigit = false)
    (digits : Digits) (rest : List Char) :
    readSign signs (digits.text ++ rest) = ([], digits.text ++ rest) := by
  obtain ⟨c, more, hmore⟩ := List.exists_cons_of_ne_nil digits.ne_nil
  have hc : c.isDigit = true := digits.isDigit c (hmore ▸ List.mem_cons_self)
  rw [hmore, List.cons_append, readSign, if_neg]
  intro hmem
  rw [hsigns c hmem] at hc
  cases hc

/-- A number ends here. -/
def Ends (rest : List Char) : Prop :=
  ∀ c ∈ rest.head?, c.isDigit = false ∧ c ≠ '.' ∧ c ≠ 'e' ∧ c ≠ 'E'

theorem readExponent_text (exponent : Option Exponent) {rest : List Char} (hrest : Ends rest) :
    readExponent (exponent.elim [] Exponent.text ++ rest) =
      some (exponent.elim [] Exponent.text, rest) := by
  cases exponent with
  | none =>
      cases rest with
      | nil => rfl
      | cons c rest =>
          obtain ⟨-, -, hlower, hupper⟩ := hrest c rfl
          show readExponent (c :: rest) = _
          rw [readExponent, if_neg (not_or.mpr ⟨hlower, hupper⟩)]
          rfl
  | some exponent =>
      have hdigits := readDigits_text exponent.digits (fun c hc => (hrest c hc).1)
      have hsign : readSign ['+', '-'] (exponent.sign ++ exponent.digits.text ++ rest) =
          (exponent.sign, exponent.digits.text ++ rest) := by
        rcases exponent.isSign with hsign | hsign | hsign
        · rw [hsign]
          exact readSign_of_digits (Texts.forall_mem_of_all rfl) exponent.digits rest
        · rw [hsign]
          rfl
        · rw [hsign]
          rfl
      show readExponent (exponent.letter :: (exponent.sign ++ exponent.digits.text ++ rest)) = _
      rw [readExponent, if_pos exponent.isLetter, hsign]
      dsimp only
      rw [hdigits]
      rfl

theorem readFraction_text (fraction : Option Digits) {rest : List Char} (hdigit : NoDigit rest)
    (hdot : rest.head? ≠ some '.') :
    readFraction ((fraction.elim [] fun digits => '.' :: digits.text) ++ rest) =
      some (fraction.elim [] fun digits => '.' :: digits.text, rest) := by
  cases fraction with
  | none =>
      show readFraction rest = some ([], rest)
      rw [readFraction.eq_def]
      split
      · exact absurd rfl hdot
      · rfl
  | some digits =>
      show readFraction ('.' :: (digits.text ++ rest)) = _
      rw [readFraction, readDigits_text digits hdigit]
      rfl

/-- A number is read if it is strict. -/
theorem readNumber_text (number : Number) {rest : List Char} (hrest : Ends rest) :
    readNumber (number.text ++ rest) =
      if number.whole.Strict then some (number.text, rest) else none := by
  have hexponent := readExponent_text number.exponent hrest
  have hback : NoDigit (number.exponent.elim [] Exponent.text ++ rest) ∧
      (number.exponent.elim [] Exponent.text ++ rest).head? ≠ some '.' := by
    cases hnone : number.exponent with
    | none => exact ⟨fun c hc => (hrest c hc).1, fun hdot => (hrest '.' hdot).2.1 rfl⟩
    | some exponent =>
        show (∀ c ∈ some exponent.letter, c.isDigit = false) ∧ some exponent.letter ≠ some '.'
        rcases exponent.isLetter with hletter | hletter
        · rw [hletter]
          refine ⟨?_, by decide⟩
          rintro c ⟨⟩
          rfl
        · rw [hletter]
          refine ⟨?_, by decide⟩
          rintro c ⟨⟩
          rfl
  have hfraction := readFraction_text number.fraction hback.1 hback.2
  have hwhole : NoDigit ((number.fraction.elim [] fun digits => '.' :: digits.text) ++
      (number.exponent.elim [] Exponent.text ++ rest)) := by
    cases number.fraction with
    | none => exact hback.1
    | some digits =>
        rintro c ⟨⟩
        rfl
  have hdigits := readDigits_text number.whole hwhole
  have hsign : readSign ['-'] (number.text ++ rest) =
      (if number.negative then ['-'] else [], number.whole.text ++
        ((number.fraction.elim [] fun digits => '.' :: digits.text) ++
          (number.exponent.elim [] Exponent.text ++ rest))) := by
    rw [Number.text, List.append_assoc, List.append_assoc, List.append_assoc]
    cases number.negative with
    | false => exact readSign_of_digits (Texts.forall_mem_of_all rfl) number.whole _
    | true => rfl
  rw [readNumber, hsign]
  dsimp only
  rw [hdigits, Option.bind_some]
  dsimp only
  rw [hfraction, Option.bind_some]
  dsimp only
  rw [hexponent, Option.map_some]
  exact if_congr Iff.rfl rfl rfl

/-! ## Values -/

theorem skipSpace_space (space : Space) (rest : List Char) :
    skipSpace (space.text ++ rest) = skipSpace rest :=
  List.dropWhile_append_of_pos space.isSpace

theorem skipSpace_cons {c : Char} (hc : isSpace c = false) (rest : List Char) :
    skipSpace (c :: rest) = c :: rest := by
  rw [skipSpace, List.dropWhile_cons, hc]
  rfl

theorem ends_cons {c : Char} (hc : isSpace c = true ∨ c ∈ [',', ']', '\x7d']) (rest : List Char) :
    Ends (c :: rest) := by
  have hall : ∀ c, isSpace c = true ∨ c ∈ [',', ']', '\x7d'] →
      c ∈ [' ', '\t', '\n', '\r', ',', ']', '\x7d'] := by
    intro c hc
    simpa [isSpace, or_assoc] using hc
  have hends : ∀ c ∈ [' ', '\t', '\n', '\r', ',', ']', '\x7d'],
      c.isDigit = false ∧ c ≠ '.' ∧ c ≠ 'e' ∧ c ≠ 'E' := Texts.forall_mem_of_all (by decide)
  rintro d ⟨⟩
  exact hends c (hall c hc)

/-- White space changes nothing about where a number ends. -/
theorem ends_space {rest : List Char} (hrest : Ends rest) (space : Space) :
    Ends (space.text ++ rest) := by
  cases hspace : space.text with
  | nil => exact hrest
  | cons c more =>
      have hc := space.isSpace c (hspace ▸ List.mem_cons_self)
      exact ends_cons (Or.inl hc) _

/-- How a number begins. -/
theorem Number.exists_head (number : Number) :
    ∃ c rest, number.text = c :: rest ∧ (c = '-' ∨ c.isDigit = true) ∧
      c ∉ ['"', '[', '\x7b', ']', ' ', '\t', '\n', '\r'] := by
  have hother : ∀ c ∈ ['"', '[', '\x7b', ']', ' ', '\t', '\n', '\r'],
      ¬ (c = '-' ∨ c.isDigit = true) := Texts.forall_mem_of_all (by decide)
  obtain ⟨c, more, hwhole⟩ := List.exists_cons_of_ne_nil number.whole.ne_nil
  cases hnegative : number.negative with
  | true =>
      rw [Number.text, hnegative]
      exact ⟨'-', _, rfl, Or.inl rfl, by decide⟩
  | false =>
      have hc : c.isDigit = true := number.whole.isDigit c (hwhole ▸ List.mem_cons_self)
      rw [Number.text, hnegative, hwhole]
      exact ⟨c, _, rfl, Or.inr hc, fun hmem => hother c hmem (Or.inr hc)⟩

/-- How a text of JSON begins. -/
theorem Tree.exists_head (tree : Tree) :
    ∃ c rest, tree.text = c :: rest ∧ isSpace c = false ∧ c ≠ ']' := by
  cases tree with
  | null => exact ⟨'n', "ull".toList, rfl, rfl, by decide⟩
  | bool b =>
      cases b with
      | true => exact ⟨'t', "rue".toList, rfl, rfl, by decide⟩
      | false => exact ⟨'f', "alse".toList, rfl, rfl, by decide⟩
  | num number =>
      obtain ⟨c, rest, htext, -, hc⟩ := number.exists_head
      refine ⟨c, rest, htext, ?_, fun h => hc (by rw [h]; decide)⟩
      simp only [List.mem_cons, List.not_mem_nil, or_false, not_or] at hc
      simp [isSpace, hc]
  | str letters => exact ⟨'"', _, rfl, rfl, by decide⟩
  | arr space items => exact ⟨'[', _, by rw [Tree.text]; rfl, rfl, by decide⟩
  | obj space fields => exact ⟨'\x7b', _, by rw [Tree.text]; rfl, rfl, by decide⟩

theorem Tree.skipSpace_text (tree : Tree) (rest : List Char) :
    skipSpace (tree.text ++ rest) = tree.text ++ rest := by
  obtain ⟨c, more, htext, hc, -⟩ := tree.exists_head
  rw [htext, List.cons_append, skipSpace_cons hc]

theorem skipSpace_skipSpace (text : List Char) : skipSpace (skipSpace text) = skipSpace text :=
  List.dropWhile_idempotent _ _

theorem readItems_skipSpace (fuel : ℕ) (text : List Char) :
    readItems fuel (skipSpace text) = readItems fuel text := by
  cases fuel with
  | zero => rfl
  | succ fuel => rw [readItems, readItems, skipSpace_skipSpace]

theorem readFields_skipSpace (fuel : ℕ) (text : List Char) :
    readFields fuel (skipSpace text) = readFields fuel text := by
  cases fuel with
  | zero => rfl
  | succ fuel => rw [readFields, readFields, skipSpace_skipSpace]

/-- Behind a space an item begins, which does not close the list. -/
theorem Items.skipSpace_text (before : Space) (item : Tree) (after : Space) (more : Items)
    (rest : List Char) :
    ∃ c first, skipSpace ((Items.cons before item after more).text ++ rest) = c :: first ∧
      c ≠ ']' := by
  obtain ⟨c, first, htext, hspace, hc⟩ := item.exists_head
  refine ⟨c, first ++ (after.text ++ more.rest) ++ rest, ?_, hc⟩
  rw [Items.text_cons, List.append_assoc, skipSpace_space, htext]
  exact skipSpace_cons hspace _

/-- Behind a space the key of a field begins. -/
theorem Fields.skipSpace_text (before : Space) (key : List Letter) (beforeColon afterColon : Space)
    (value : Tree) (after : Space) (more : Fields) (rest : List Char) :
    ∃ first, skipSpace ((Fields.cons before key beforeColon afterColon value after more).text ++
      rest) = '"' :: first := by
  refine ⟨key.flatMap Letter.text ++ ['"'] ++ (beforeColon.text ++ (':' :: (afterColon.text ++
    (value.text ++ (after.text ++ more.rest))))) ++ rest, ?_⟩
  rw [Fields.text_cons, List.append_assoc, skipSpace_space]
  exact skipSpace_cons rfl _

mutual

theorem Tree.readValue_text (tree : Tree) {rest : List Char} (hrest : Ends rest) {fuel : ℕ}
    (hfuel : 2 * (tree.text ++ rest).length ≤ fuel) :
    readValue fuel (tree.text ++ rest) = tree.value.map fun value => (value, rest) := by
  obtain ⟨c, more, htext, -, -⟩ := tree.exists_head
  obtain ⟨fuel, rfl⟩ : ∃ n, fuel = n + 1 := ⟨fuel - 1, by
    rw [htext, List.cons_append, List.length_cons] at hfuel
    omega⟩
  cases tree with
  | null => rfl
  | bool b => cases b <;> rfl
  | num number =>
      obtain ⟨c, more, htext, hnumber, hc⟩ := number.exists_head
      simp only [List.mem_cons, List.not_mem_nil, or_false, not_or] at hc
      have hread := readNumber_text number hrest
      show readValue (fuel + 1) (number.text ++ rest) = _
      rw [htext, List.cons_append] at hread ⊢
      rw [readValue, if_neg hc.1, if_neg hc.2.1, if_neg hc.2.2.1, if_pos hnumber, hread, Tree.value,
        htext]
      split_ifs <;> rfl
  | str letters =>
      show readValue (fuel + 1) ('"' :: (letters.flatMap Letter.text ++ ['"'] ++ rest)) = _
      rw [List.append_assoc, readValue, if_pos rfl, List.singleton_append, readString_letters, Tree.value]
      cases unescape letters <;> rfl
  | arr space items =>
      have hbracket : (Tree.arr space items).text ++ rest =
          '[' :: (space.text ++ (items.text ++ ']' :: rest)) := by
        rw [Tree.text]
        simp
      rw [hbracket] at hfuel ⊢
      rw [readValue, if_neg (by decide), if_pos rfl, skipSpace_space, Tree.value]
      cases items with
      | nil => rfl
      | cons before item after more =>
          have hitems := @(Items.cons before item after more).readItems_text (by simp) rest fuel (by
            simp only [List.length_append, List.length_cons] at hfuel ⊢
            omega)
          obtain ⟨c, first, hskip, hc⟩ := Items.skipSpace_text before item after more (']' :: rest)
          rw [← readItems_skipSpace, hskip] at hitems
          rw [hskip]
          dsimp only
          rw [if_neg hc, hitems]
          cases (Items.cons before item after more).values <;> rfl
  | obj space fields =>
      have hbrace : (Tree.obj space fields).text ++ rest =
          '\x7b' :: (space.text ++ (fields.text ++ '\x7d' :: rest)) := by
        rw [Tree.text]
        simp
      rw [hbrace] at hfuel ⊢
      rw [readValue, if_neg (by decide), if_neg (by decide), if_pos rfl, skipSpace_space, Tree.value]
      cases fields with
      | nil => rfl
      | cons before key beforeColon afterColon value after more =>
          have hfields := @(Fields.cons before key beforeColon afterColon value after
            more).readFields_text (by simp) rest fuel (by
              simp only [List.length_append, List.length_cons] at hfuel ⊢
              omega)
          obtain ⟨first, hskip⟩ := Fields.skipSpace_text before key beforeColon afterColon value
            after more ('\x7d' :: rest)
          rw [← readFields_skipSpace, hskip] at hfields
          rw [hskip]
          dsimp only
          rw [if_neg (by decide), hfields]
          cases (Fields.cons before key beforeColon afterColon value after more).values <;> rfl

theorem Items.readItems_text (items : Items) (hne : items ≠ .nil) {rest : List Char} {fuel : ℕ}
    (hfuel : 2 * (items.text ++ ']' :: rest).length + 1 ≤ fuel) :
    readItems fuel (items.text ++ ']' :: rest) = items.values.map fun values => (values, rest) := by
  obtain ⟨fuel, rfl⟩ : ∃ n, fuel = n + 1 := ⟨fuel - 1, by omega⟩
  obtain _ | ⟨before, item, after, more⟩ := items
  · exact absurd rfl hne
  have htext : (Items.cons before item after more).text ++ ']' :: rest =
      before.text ++ (item.text ++ (after.text ++ (more.rest ++ ']' :: rest))) := by
    rw [Items.text_cons]
    simp
  rw [htext] at hfuel ⊢
  have hends : Ends (after.text ++ (more.rest ++ ']' :: rest)) := by
    apply ends_space
    cases more with
    | nil => exact ends_cons (Or.inr (by decide)) _
    | cons => exact ends_cons (Or.inr (by decide)) _
  simp only [List.length_append, List.length_cons] at hfuel
  rw [readItems, skipSpace_space, item.skipSpace_text,
    item.readValue_text hends (by simp only [List.length_append, List.length_cons]; omega),
    Items.values]
  cases item.value with
  | none => rfl
  | some value =>
      rw [Option.map_some, Option.bind_some, Option.bind_some]
      dsimp only
      rw [skipSpace_space]
      cases more with
      | nil => rfl
      | cons before item after more =>
          have hcomma : (Items.cons before item after more).rest ++ ']' :: rest =
              ',' :: ((Items.cons before item after more).text ++ ']' :: rest) := rfl
          rw [hcomma, skipSpace_cons rfl]
          dsimp only
          rw [if_pos rfl, (Items.cons before item after more).readItems_text (by simp) (by
            simp only [List.length_append, List.length_cons, Items.rest] at hfuel ⊢
            omega)]
          cases (Items.cons before item after more).values <;> rfl

theorem Fields.readFields_text (fields : Fields) (hne : fields ≠ .nil) {rest : List Char} {fuel : ℕ}
    (hfuel : 2 * (fields.text ++ '\x7d' :: rest).length + 1 ≤ fuel) :
    readFields fuel (fields.text ++ '\x7d' :: rest) =
      fields.values.map fun values => (values, rest) := by
  obtain ⟨fuel, rfl⟩ : ∃ n, fuel = n + 1 := ⟨fuel - 1, by omega⟩
  obtain _ | ⟨before, key, beforeColon, afterColon, value, after, more⟩ := fields
  · exact absurd rfl hne
  have htext : (Fields.cons before key beforeColon afterColon value after more).text ++
      '\x7d' :: rest = before.text ++ ('"' :: (key.flatMap Letter.text ++ '"' ::
        (beforeColon.text ++ (':' :: (afterColon.text ++ (value.text ++ (after.text ++
          (more.rest ++ '\x7d' :: rest)))))))) := by
    rw [Fields.text_cons, lettersText]
    simp
  rw [htext] at hfuel ⊢
  have hends : Ends (after.text ++ (more.rest ++ '\x7d' :: rest)) := by
    apply ends_space
    cases more with
    | nil => exact ends_cons (Or.inr (by decide)) _
    | cons => exact ends_cons (Or.inr (by decide)) _
  simp only [List.length_append, List.length_cons] at hfuel
  rw [readFields, skipSpace_space, skipSpace_cons rfl]
  dsimp only
  rw [if_pos rfl, readString_letters, Fields.values]
  cases unescape key with
  | none => rfl
  | some name =>
      rw [Option.map_some, Option.bind_some, Option.bind_some]
      dsimp only
      rw [skipSpace_space, skipSpace_cons rfl]
      dsimp only
      rw [if_pos rfl, skipSpace_space, value.skipSpace_text,
        value.readValue_text hends (by simp only [List.length_append, List.length_cons]; omega)]
      cases value.value with
      | none => rfl
      | some found =>
          rw [Option.map_some, Option.bind_some, Option.bind_some]
          dsimp only
          rw [skipSpace_space]
          cases more with
          | nil => rfl
          | cons before key beforeColon afterColon value after more =>
              have hcomma : (Fields.cons before key beforeColon afterColon value after more).rest ++
                  '\x7d' :: rest = ',' :: ((Fields.cons before key beforeColon afterColon value after
                    more).text ++ '\x7d' :: rest) := rfl
              rw [hcomma, skipSpace_cons rfl]
              dsimp only
              rw [if_pos rfl, (Fields.cons before key beforeColon afterColon value after
                more).readFields_text (by simp) (by
                  simp only [List.length_append, List.length_cons, Fields.rest] at hfuel ⊢
                  omega)]
              cases (Fields.cons before key beforeColon afterColon value after more).values <;> rfl

end

/-- **What is read of the text of a tree is its value**: nothing if the tree is not JSON. -/
theorem fromStr_text (before : Space) (tree : Tree) (after : Space) :
    fromStr (before.text ++ (tree.text ++ after.text)) = tree.value := by
  have hnone : Ends [] := fun c hc => absurd hc (by simp)
  have hends : Ends (after.text ++ []) := ends_space hnone after
  rw [List.append_nil] at hends
  rw [fromStr, skipSpace_space, tree.skipSpace_text,
    tree.readValue_text hends (by simp only [List.length_append]; omega)]
  cases tree.value with
  | none => rfl
  | some value =>
      have hafter : skipSpace after.text = [] := by
        exact List.dropWhile_eq_nil_iff.mpr after.isSpace
      rw [Option.map_some, Option.bind_some, if_pos hafter]

/-! ## What is read is JSON -/

/-- The white space in front of a text. -/
def leadingSpace (text : List Char) : Space :=
  ⟨text.takeWhile isSpace, fun _ h => List.mem_takeWhile_imp h⟩

theorem leadingSpace_append (text : List Char) : (leadingSpace text).text ++ skipSpace text = text :=
  List.takeWhile_append_dropWhile

theorem scanString_eq_some {escaped : Bool} {text rest : List Char} {letters : List Letter}
    (h : scanString escaped text = some (letters, rest)) :
    (if escaped then ['\\'] else []) ++ text = letters.flatMap Letter.text ++ '"' :: rest := by
  induction text generalizing escaped letters with
  | nil => cases escaped <;> cases h
  | cons c text ih =>
      cases escaped with
      | true =>
          rw [scanString] at h
          obtain ⟨⟨more, left⟩, hscan, hletters⟩ := Option.map_eq_some_iff.mp h
          cases hletters
          have hmore := ih hscan
          rw [if_neg Bool.false_ne_true, List.nil_append] at hmore
          rw [hmore]
          rfl
      | false =>
          rw [scanString] at h
          split_ifs at h with hquote hslash
          · cases h
            rw [hquote]
            rfl
          · rw [hslash]
            exact ih h
          · obtain ⟨⟨more, left⟩, hscan, hletters⟩ := Option.map_eq_some_iff.mp h
            cases hletters
            have hmore := ih hscan
            rw [if_neg Bool.false_ne_true, List.nil_append] at hmore
            rw [hmore]
            rfl

theorem readString_eq_some {text rest string : List Char} (h : readString text = some (string, rest)) :
    ∃ letters, '"' :: text = lettersText letters ++ rest ∧ unescape letters = some string := by
  obtain ⟨⟨letters, left⟩, hscan, hread⟩ := Option.bind_eq_some_iff.mp h
  obtain ⟨found, hfound, hpair⟩ := Option.map_eq_some_iff.mp hread
  cases hpair
  refine ⟨letters, ?_, hfound⟩
  have htext := scanString_eq_some hscan
  rw [if_neg Bool.false_ne_true, List.nil_append] at htext
  rw [htext, lettersText]
  simp

theorem readDigits_eq_some {text found rest : List Char} (h : readDigits text = some (found, rest)) :
    ∃ digits : Digits, digits.text = found ∧ text = found ++ rest := by
  rw [readDigits] at h
  split_ifs at h with hnone
  cases h
  refine ⟨⟨text.takeWhile Char.isDigit, hnone, fun c hc => List.mem_takeWhile_imp hc⟩, rfl, ?_⟩
  exact List.takeWhile_append_dropWhile.symm

theorem readSign_append (signs text : List Char) :
    text = (readSign signs text).1 ++ (readSign signs text).2 ∧
      ((readSign signs text).1 = [] ∨ ∃ c ∈ signs, (readSign signs text).1 = [c]) := by
  cases text with
  | nil => exact ⟨rfl, Or.inl rfl⟩
  | cons c rest =>
      rw [readSign]
      split_ifs with hc
      · exact ⟨rfl, Or.inr ⟨c, hc, rfl⟩⟩
      · exact ⟨rfl, Or.inl rfl⟩

theorem readFraction_eq_some {text found rest : List Char}
    (h : readFraction text = some (found, rest)) :
    ∃ fraction : Option Digits, (fraction.elim [] fun digits => '.' :: digits.text) = found ∧
      text = found ++ rest := by
  unfold readFraction at h
  split at h
  · obtain ⟨⟨digits, left⟩, hdigits, hpair⟩ := Option.map_eq_some_iff.mp h
    cases hpair
    obtain ⟨digits, rfl, htext⟩ := readDigits_eq_some hdigits
    exact ⟨some digits, rfl, congrArg ('.' :: ·) htext⟩
  · cases h
    exact ⟨none, rfl, rfl⟩

theorem readExponent_eq_some {text found rest : List Char}
    (h : readExponent text = some (found, rest)) :
    ∃ exponent : Option Exponent, exponent.elim [] Exponent.text = found ∧ text = found ++ rest := by
  cases text with
  | nil =>
      cases h
      exact ⟨none, rfl, rfl⟩
  | cons c text =>
      rw [readExponent] at h
      split_ifs at h with hletter
      · obtain ⟨⟨digits, left⟩, hdigits, hpair⟩ := Option.map_eq_some_iff.mp h
        cases hpair
        obtain ⟨digits, rfl, htext⟩ := readDigits_eq_some hdigits
        obtain ⟨hsplit, hsign⟩ := readSign_append ['+', '-'] text
        refine ⟨some ⟨c, (readSign ['+', '-'] text).1, digits, hletter, ?_⟩, rfl, ?_⟩
        · rcases hsign with hnone | ⟨d, hd, hone⟩
          · exact Or.inl hnone
          · rw [hone]
            simpa using hd
        · rw [List.cons_append, List.append_assoc, ← htext, ← hsplit]
      · cases h
        exact ⟨none, rfl, rfl⟩

theorem readNumber_eq_some {text literal rest : List Char}
    (h : readNumber text = some (literal, rest)) :
    ∃ number : Number, number.whole.Strict ∧ number.text = literal ∧ text = literal ++ rest := by
  obtain ⟨⟨whole, behind⟩, hwhole, hnext⟩ := Option.bind_eq_some_iff.mp h
  dsimp only at hnext
  split_ifs at hnext with hstrict
  obtain ⟨⟨fraction, later⟩, hfraction, hlast⟩ := Option.bind_eq_some_iff.mp hnext
  obtain ⟨⟨exponent, left⟩, hexponent, hpair⟩ := Option.map_eq_some_iff.mp hlast
  cases hpair
  obtain ⟨hsplit, hsign⟩ := readSign_append ['-'] text
  obtain ⟨digits, rfl, hdigits⟩ := readDigits_eq_some hwhole
  obtain ⟨fraction, rfl, hbehind⟩ := readFraction_eq_some hfraction
  obtain ⟨exponent, rfl, hlater⟩ := readExponent_eq_some hexponent
  dsimp only at hbehind hlater
  refine ⟨⟨decide ((readSign ['-'] text).1 ≠ []), digits, fraction, exponent⟩, hstrict, ?_, ?_⟩
  · rcases hsign with hnone | ⟨c, hc, hone⟩
    · simp [Number.text, hnone]
    · obtain rfl := List.mem_singleton.mp hc
      simp [Number.text, hone]
  · refine hsplit.trans ?_
    rw [hdigits, hbehind, hlater]
    simp

theorem readWord_eq_some {text rest : List Char} {value : Value}
    (h : readWord text = some (value, rest)) :
    ∃ tree : Tree, text = tree.text ++ rest ∧ tree.value = some value := by
  have hword {word : List Char} (hword : word <+: text) : text = word ++ text.drop word.length := by
    obtain ⟨back, rfl⟩ := hword
    rw [List.drop_left]
  rw [readWord] at h
  split_ifs at h with hnull htrue hfalse <;> cases h
  · exact ⟨.null, hword hnull, rfl⟩
  · exact ⟨.bool true, hword htrue, rfl⟩
  · exact ⟨.bool false, hword hfalse, rfl⟩

/-- What the reader finds with this fuel is the text of a tree, or of items or fields up to their
end. -/
structure FindsTrees (fuel : ℕ) : Prop where
  value : ∀ {text value rest}, readValue fuel text = some (value, rest) →
    ∃ tree : Tree, text = tree.text ++ rest ∧ tree.value = some value
  items : ∀ {text items rest}, readItems fuel text = some (items, rest) →
    ∃ trees : Items, text = trees.text ++ ']' :: rest ∧ trees.values = some items ∧ trees ≠ .nil
  fields : ∀ {text fields rest}, readFields fuel text = some (fields, rest) →
    ∃ trees : Fields, text = trees.text ++ '\x7d' :: rest ∧ trees.values = some fields ∧
      trees ≠ .nil

theorem Items.rest_eq {items : Items} (h : items ≠ .nil) : items.rest = ',' :: items.text := by
  cases items with
  | nil => exact absurd rfl h
  | cons => rfl

theorem Fields.rest_eq {fields : Fields} (h : fields ≠ .nil) : fields.rest = ',' :: fields.text := by
  cases fields with
  | nil => exact absurd rfl h
  | cons => rfl

theorem FindsTrees.readValue_succ {fuel : ℕ} (h : FindsTrees fuel) {text rest : List Char}
    {value : Value} (hread : readValue (fuel + 1) text = some (value, rest)) :
    ∃ tree : Tree, text = tree.text ++ rest ∧ tree.value = some value := by
  cases text with
  | nil => cases hread
  | cons c more =>
      rw [readValue] at hread
      split_ifs at hread with hquote hbracket hbrace hnumber
      · obtain ⟨⟨string, left⟩, hstring, hpair⟩ := Option.map_eq_some_iff.mp hread
        cases hpair
        obtain ⟨letters, htext, hletters⟩ := readString_eq_some hstring
        refine ⟨.str letters, by rw [hquote]; exact htext, ?_⟩
        rw [Tree.value, hletters, Option.map_some]
      · have hspace := leadingSpace_append more
        cases hmore : skipSpace more with
        | nil =>
            rw [hmore] at hread
            cases hread
        | cons d later =>
            rw [hmore] at hread hspace
            dsimp only at hread
            split_ifs at hread with hclose
            · cases hread
              refine ⟨.arr (leadingSpace more) .nil, (congrArg (c :: ·) hspace.symm).trans ?_, rfl⟩
              rw [hbracket, hclose]
              simp [Tree.text, Items.text]
            · obtain ⟨⟨items, left⟩, hitems, hpair⟩ := Option.map_eq_some_iff.mp hread
              cases hpair
              obtain ⟨trees, htext, hvalues, -⟩ := h.items hitems
              refine ⟨.arr (leadingSpace more) trees, (congrArg (c :: ·) hspace.symm).trans ?_,
                by rw [Tree.value, hvalues]; rfl⟩
              rw [hbracket, htext]
              simp [Tree.text]
      · have hspace := leadingSpace_append more
        cases hmore : skipSpace more with
        | nil =>
            rw [hmore] at hread
            cases hread
        | cons d later =>
            rw [hmore] at hread hspace
            dsimp only at hread
            split_ifs at hread with hclose
            · cases hread
              refine ⟨.obj (leadingSpace more) .nil, (congrArg (c :: ·) hspace.symm).trans ?_, rfl⟩
              rw [hbrace, hclose]
              simp [Tree.text, Fields.text]
            · obtain ⟨⟨fields, left⟩, hfields, hpair⟩ := Option.map_eq_some_iff.mp hread
              cases hpair
              obtain ⟨trees, htext, hvalues, -⟩ := h.fields hfields
              refine ⟨.obj (leadingSpace more) trees, (congrArg (c :: ·) hspace.symm).trans ?_,
                by rw [Tree.value, hvalues]; rfl⟩
              rw [hbrace, htext]
              simp [Tree.text]
      · obtain ⟨⟨literal, left⟩, hnum, hpair⟩ := Option.map_eq_some_iff.mp hread
        cases hpair
        obtain ⟨number, hstrict, hliteral, htext⟩ := readNumber_eq_some hnum
        refine ⟨.num number, by rw [htext, ← hliteral]; rfl, ?_⟩
        rw [Tree.value, if_pos hstrict, hliteral]
      · exact readWord_eq_some hread

theorem FindsTrees.readItems_succ {fuel : ℕ} (h : FindsTrees fuel) {text rest : List Char}
    {items : List Value} (hread : readItems (fuel + 1) text = some (items, rest)) :
    ∃ trees : Items, text = trees.text ++ ']' :: rest ∧ trees.values = some items ∧
      trees ≠ .nil := by
  rw [readItems] at hread
  obtain ⟨⟨item, behind⟩, hitem, hnext⟩ := Option.bind_eq_some_iff.mp hread
  obtain ⟨tree, htext, hvalue⟩ := h.value hitem
  have hbefore := leadingSpace_append text
  have hafter := leadingSpace_append behind
  dsimp only at hnext
  cases hbehind : skipSpace behind with
  | nil =>
      rw [hbehind] at hnext
      cases hnext
  | cons c later =>
      rw [hbehind] at hnext hafter
      dsimp only at hnext
      have hfront : text = (leadingSpace text).text ++ (tree.text ++
          ((leadingSpace behind).text ++ c :: later)) := by
        rw [hafter, ← htext, hbefore]
      split_ifs at hnext with hcomma hclose
      · obtain ⟨⟨others, left⟩, hothers, hpair⟩ := Option.map_eq_some_iff.mp hnext
        cases hpair
        obtain ⟨trees, hmore, hvalues, hne⟩ := h.items hothers
        refine ⟨.cons (leadingSpace text) tree (leadingSpace behind) trees, ?_, ?_, by simp⟩
        · refine hfront.trans ?_
          rw [Items.text_cons, Items.rest_eq hne, hcomma, hmore]
          simp
        · rw [Items.values, hvalue, hvalues]
          rfl
      · cases hnext
        refine ⟨.cons (leadingSpace text) tree (leadingSpace behind) .nil, ?_, ?_, by simp⟩
        · refine hfront.trans ?_
          rw [Items.text_cons, hclose]
          simp [Items.rest]
        · rw [Items.values, hvalue]
          rfl

theorem FindsTrees.readFields_succ {fuel : ℕ} (h : FindsTrees fuel) {text rest : List Char}
    {fields : List (List Char × Value)}
    (hread : readFields (fuel + 1) text = some (fields, rest)) :
    ∃ trees : Fields, text = trees.text ++ '\x7d' :: rest ∧ trees.values = some fields ∧
      trees ≠ .nil := by
  rw [readFields] at hread
  have hbefore := leadingSpace_append text
  cases hstart : skipSpace text with
  | nil =>
      rw [hstart] at hread
      cases hread
  | cons quote more =>
      rw [hstart] at hread hbefore
      dsimp only at hread
      split_ifs at hread with hquote
      obtain ⟨⟨key, afterKey⟩, hkey, hnext⟩ := Option.bind_eq_some_iff.mp hread
      obtain ⟨letters, hletters, hreads⟩ := readString_eq_some hkey
      have hcolonSpace := leadingSpace_append afterKey
      dsimp only at hnext
      cases hcolon : skipSpace afterKey with
      | nil =>
          rw [hcolon] at hnext
          cases hnext
      | cons colon text' =>
          rw [hcolon] at hnext hcolonSpace
          dsimp only at hnext
          split_ifs at hnext with hsep
          obtain ⟨⟨value, behind⟩, hvalue, hlast⟩ := Option.bind_eq_some_iff.mp hnext
          obtain ⟨tree, htree, htreeValue⟩ := h.value hvalue
          have hvalueSpace := leadingSpace_append text'
          have hafter := leadingSpace_append behind
          dsimp only at hlast
          cases hbehind : skipSpace behind with
          | nil =>
              rw [hbehind] at hlast
              cases hlast
          | cons c later =>
              rw [hbehind] at hlast hafter
              dsimp only at hlast
              have hfront : text = (leadingSpace text).text ++ (lettersText letters ++
                  ((leadingSpace afterKey).text ++ (':' :: ((leadingSpace text').text ++
                    (tree.text ++ ((leadingSpace behind).text ++ c :: later)))))) := by
                rw [hafter, ← htree, hvalueSpace, ← hsep, hcolonSpace, ← hletters, ← hquote,
                  hbefore]
              split_ifs at hlast with hcomma hclose
              · obtain ⟨⟨others, left⟩, hothers, hpair⟩ := Option.map_eq_some_iff.mp hlast
                cases hpair
                obtain ⟨trees, hmore, hvalues, hne⟩ := h.fields hothers
                refine ⟨.cons (leadingSpace text) letters (leadingSpace afterKey)
                  (leadingSpace text') tree (leadingSpace behind) trees, ?_, ?_, by simp⟩
                · refine hfront.trans ?_
                  rw [Fields.text_cons, Fields.rest_eq hne, hcomma, hmore]
                  simp
                · rw [Fields.values, hreads, htreeValue, hvalues]
                  rfl
              · cases hlast
                refine ⟨.cons (leadingSpace text) letters (leadingSpace afterKey)
                  (leadingSpace text') tree (leadingSpace behind) .nil, ?_, ?_, by simp⟩
                · refine hfront.trans ?_
                  rw [Fields.text_cons, hclose]
                  simp [Fields.rest]
                · rw [Fields.values, hreads, htreeValue]
                  rfl

theorem findsTrees (fuel : ℕ) : FindsTrees fuel := by
  induction fuel with
  | zero =>
      constructor
      · intro text value rest h
        cases h
      · intro text items rest h
        cases h
      · intro text fields rest h
        cases h
  | succ fuel ih => exact ⟨ih.readValue_succ, ih.readItems_succ, ih.readFields_succ⟩

/-- **What is read is JSON**: a text that is read is that of a tree with the value that is read,
between white space. -/
theorem exists_tree_of_fromStr {text : List Char} {value : Value} (h : fromStr text = some value) :
    ∃ (before : Space) (tree : Tree) (after : Space),
      text = before.text ++ (tree.text ++ after.text) ∧ tree.value = some value := by
  obtain ⟨⟨found, rest⟩, hread, hlast⟩ := Option.bind_eq_some_iff.mp h
  dsimp only at hlast
  split_ifs at hlast with hrest
  cases hlast
  obtain ⟨tree, htext, hvalue⟩ := (findsTrees _).value hread
  have hspace := leadingSpace_append rest
  rw [hrest, List.append_nil] at hspace
  refine ⟨leadingSpace text, tree, leadingSpace rest, ?_, hvalue⟩
  rw [hspace, ← htext, leadingSpace_append]

end JsonText
