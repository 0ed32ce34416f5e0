/-
# What is written is read

A value that is written as JSON is read as the same value, whatever its strings hold. Its numbers
must be numbers: a value keeps them as they are written.

A value is written on one line. However a JSON text is laid out on lines, only a few characters
stand outside of its strings, and every string stands on one line with its quotation marks.
-/

import HiveBear.Library.JsonReader

namespace JsonText

/-! ## Strings -/

theorem hexDigit_digitChar {n : ℕ} (h : n < 16) : hexDigit (Nat.digitChar n) = some n := by
  have hall : ∀ n : Fin 16, hexDigit (Nat.digitChar n) = some n.val := by decide +kernel
  exact hall ⟨n, h⟩

theorem digitChar_plain {n : ℕ} (h : n < 16) : Nat.digitChar n ≠ '"' ∧ Nat.digitChar n ≠ '\\' := by
  have hall : ∀ n : Fin 16, Nat.digitChar n ≠ '"' ∧ Nat.digitChar n ≠ '\\' := by decide +kernel
  exact hall ⟨n, h⟩

theorem unescapeFrom_cons (pending : Pending) (letter : Letter) (letters : List Letter) :
    unescapeFrom pending (letter :: letters) =
      (stepLetter pending letter).bind fun next =>
        (unescapeFrom next.2 letters).map (next.1 ++ ·) := by
  cases pending <;> rfl

/-- A letter that completes nothing. -/
theorem unescapeFrom_of_nil {pending next : Pending} {letter : Letter}
    (hstep : stepLetter pending letter = some ([], next)) (letters : List Letter) :
    unescapeFrom pending (letter :: letters) = unescapeFrom next letters := by
  rw [unescapeFrom_cons, hstep, Option.bind_some]
  exact Option.map_id'

/-- A letter that completes a character. -/
theorem unescapeFrom_of_singleton {pending : Pending} {letter : Letter} {c : Char}
    (hstep : stepLetter pending letter = some ([c], .ready)) (letters : List Letter) :
    unescapeFrom pending (letter :: letters) = (unescapeFrom .ready letters).map (c :: ·) := by
  rw [unescapeFrom_cons, hstep]
  rfl

/-- The letters of a character stand for it. -/
def Spells (letters : List Letter) (c : Char) : Prop :=
  letters.flatMap Letter.text = escape c ∧
    ∀ rest, unescapeFrom .ready (letters ++ rest) = (unescapeFrom .ready rest).map (c :: ·)

/-- A character that is escaped with a letter of its own. -/
theorem spells_escaped {c mark : Char} (hescape : escape c = ['\\', mark])
    (hmark : mark ≠ 'u') (hunescape : unescapeLetter mark = some c) :
    Spells [.escaped mark] c := by
  have hstep : stepLetter .ready (.escaped mark) = some ([c], .ready) := by
    rw [stepLetter, if_neg hmark, hunescape]
    rfl
  exact ⟨hescape.symm, unescapeFrom_of_singleton hstep⟩

/-- A digit of a character that is written with digits. -/
theorem stepLetter_digit {lacks value n : ℕ} (hlacks : lacks ≠ 1) (hn : n < 16) :
    stepLetter (.digits lacks value none) (.plain (Nat.digitChar n) (digitChar_plain hn)) =
      some ([], .digits (lacks - 1) (16 * value + n) none) := by
  rw [stepLetter, hexDigit_digitChar hn, Option.bind_some, if_neg hlacks]

/-- A control character is escaped with its number. -/
theorem exists_spells_control {c : Char} (hcontrol : c.toNat < 0x20)
    (hescape : escape c = ['\\', 'u', '0', '0', Nat.digitChar (c.toNat / 16),
      Nat.digitChar (c.toNat % 16)]) : ∃ letters, Spells letters c := by
  have hhigh : c.toNat / 16 < 16 := by omega
  have hlow : c.toNat % 16 < 16 := by omega
  have hzero : 0 < 16 := by omega
  let digit (n : ℕ) (hn : n < 16) : Letter := .plain (Nat.digitChar n) (digitChar_plain hn)
  refine ⟨[.escaped 'u', digit 0 hzero, digit 0 hzero, digit (c.toNat / 16) hhigh,
    digit (c.toNat % 16) hlow], hescape.symm, fun rest => ?_⟩
  have hlast : stepLetter (.digits 1 (16 * (16 * (16 * 0 + 0) + 0) + c.toNat / 16) none)
      (digit (c.toNat % 16) hlow) = some ([c], .ready) := by
    have hvalue : 16 * (16 * (16 * (16 * 0 + 0) + 0) + c.toNat / 16) + c.toNat % 16 = c.toNat := by
      omega
    rw [stepLetter, hexDigit_digitChar hlow, Option.bind_some, if_pos rfl, hvalue, complete,
      if_neg (by omega), if_neg (by omega), Char.ofNat_toNat]
  have hstart : stepLetter .ready (.escaped 'u') = some ([], .digits 4 0 none) := rfl
  change unescapeFrom .ready (.escaped 'u' :: digit 0 hzero :: digit 0 hzero ::
    digit (c.toNat / 16) hhigh :: digit (c.toNat % 16) hlow :: rest) = _
  rw [unescapeFrom_of_nil hstart, unescapeFrom_of_nil (stepLetter_digit (by decide) hzero),
    unescapeFrom_of_nil (stepLetter_digit (by decide) hzero),
    unescapeFrom_of_nil (stepLetter_digit (by decide) hhigh), unescapeFrom_of_singleton hlast]

/-- Every character is written with letters that stand for it. -/
theorem exists_spells (c : Char) : ∃ letters, Spells letters c := by
  have hchar {n : ℕ} (h : c.toNat = n) : Char.ofNat n = c := by rw [← h, Char.ofNat_toNat]
  by_cases hquote : c = '"'
  · subst hquote
    exact ⟨_, spells_escaped rfl (by decide) rfl⟩
  by_cases hslash : c = '\\'
  · subst hslash
    exact ⟨_, spells_escaped rfl (by decide) rfl⟩
  have hescape : escape c = _ := (if_neg hquote).trans (if_neg hslash)
  by_cases hback : c.toNat = 0x08
  · rw [if_pos hback] at hescape
    exact ⟨_, spells_escaped hescape (by decide) (congrArg some (hchar hback))⟩
  rw [if_neg hback] at hescape
  by_cases htab : c.toNat = 0x09
  · rw [if_pos htab] at hescape
    exact ⟨_, spells_escaped hescape (by decide) (congrArg some (hchar htab))⟩
  rw [if_neg htab] at hescape
  by_cases hline : c.toNat = 0x0A
  · rw [if_pos hline] at hescape
    exact ⟨_, spells_escaped hescape (by decide) (congrArg some (hchar hline))⟩
  rw [if_neg hline] at hescape
  by_cases hform : c.toNat = 0x0C
  · rw [if_pos hform] at hescape
    exact ⟨_, spells_escaped hescape (by decide) (congrArg some (hchar hform))⟩
  rw [if_neg hform] at hescape
  by_cases hreturn : c.toNat = 0x0D
  · rw [if_pos hreturn] at hescape
    exact ⟨_, spells_escaped hescape (by decide) (congrArg some (hchar hreturn))⟩
  rw [if_neg hreturn] at hescape
  by_cases hcontrol : c.toNat < 0x20
  · rw [if_pos hcontrol] at hescape
    exact exists_spells_control hcontrol hescape
  · rw [if_neg hcontrol] at hescape
    have hstep : stepLetter .ready (.plain c ⟨hquote, hslash⟩) = some ([c], .ready) := by
      rw [stepLetter, if_neg hcontrol]
    exact ⟨[.plain c ⟨hquote, hslash⟩], hescape.symm, unescapeFrom_of_singleton hstep⟩

/-- Every text is written as a string with letters that stand for it. -/
theorem exists_letters (text : List Char) :
    ∃ letters, lettersText letters = writeString text ∧ unescape letters = some text := by
  have hletters : ∃ letters : List Letter, letters.flatMap Letter.text = text.flatMap escape ∧
      unescapeFrom .ready letters = some text := by
    induction text with
    | nil => exact ⟨[], rfl, rfl⟩
    | cons c text ih =>
        obtain ⟨first, hfirst, hreads⟩ := exists_spells c
        obtain ⟨letters, htext, hrest⟩ := ih
        refine ⟨first ++ letters, ?_, ?_⟩
        · rw [List.flatMap_append, hfirst, htext, List.flatMap_cons]
        · rw [hreads, hrest, Option.map_some]
  obtain ⟨letters, htext, hreads⟩ := hletters
  exact ⟨letters, by rw [lettersText, htext, writeString], hreads⟩

/-! ## Values -/

mutual

/-- The numbers of the value are numbers. -/
def Value.Sound : Value → Prop
  | .null | .bool _ | .str _ => True
  | .num literal => ∃ number : Number, number.whole.Strict ∧ number.text = literal
  | .arr items => SoundItems items
  | .obj fields => SoundFields fields

def SoundItems : List Value → Prop
  | [] => True
  | item :: items => item.Sound ∧ SoundItems items

def SoundFields : List (List Char × Value) → Prop
  | [] => True
  | (_, value) :: fields => value.Sound ∧ SoundFields fields

end

mutual

/-- Every value is written as the text of a tree that has it as its value. -/
theorem exists_tree : (value : Value) → value.Sound →
    ∃ tree : Tree, tree.text = write value ∧ tree.value = some value
  | .null, _ => ⟨.null, rfl, rfl⟩
  | .bool b, _ => ⟨.bool b, by cases b <;> rfl, rfl⟩
  | .num literal, h => by
      obtain ⟨number, hstrict, rfl⟩ := h
      exact ⟨.num number, rfl, if_pos hstrict⟩
  | .str text, _ => by
      obtain ⟨letters, htext, hreads⟩ := exists_letters text
      exact ⟨.str letters, htext, by rw [Tree.value, hreads, Option.map_some]⟩
  | .arr items, h => by
      obtain ⟨trees, htext, hvalues⟩ := exists_trees items h
      refine ⟨.arr .none trees, ?_, by rw [Tree.value, hvalues, Option.map_some]⟩
      rw [Tree.text, write, htext]
      rfl
  | .obj fields, h => by
      obtain ⟨trees, htext, hvalues⟩ := exists_members fields h
      refine ⟨.obj .none trees, ?_, by rw [Tree.value, hvalues, Option.map_some]⟩
      rw [Tree.text, write, htext]
      rfl

theorem exists_trees : (items : List Value) → SoundItems items →
    ∃ trees : Items, trees.text = writeItems items ∧ trees.values = some items
  | [], _ => ⟨.nil, rfl, rfl⟩
  | [item], h => by
      obtain ⟨tree, htext, hvalue⟩ := exists_tree item h.1
      refine ⟨.cons .none tree .none .nil, ?_, by rw [Items.values, hvalue]; rfl⟩
      rw [Items.text_cons, htext, Items.rest, writeItems]
      simp [Space.none]
  | item :: next :: items, h => by
      obtain ⟨tree, htext, hvalue⟩ := exists_tree item h.1
      obtain ⟨trees, htexts, hvalues⟩ := exists_trees (next :: items) h.2
      refine ⟨.cons .none tree .none trees, ?_, by rw [Items.values, hvalue, hvalues]; rfl⟩
      have hrest : trees.rest = ',' :: writeItems (next :: items) := by
        cases trees with
        | nil => cases hvalues
        | cons => exact congrArg (',' :: ·) htexts
      have hwrite : writeItems (item :: next :: items) =
          write item ++ [','] ++ writeItems (next :: items) := rfl
      rw [Items.text_cons, htext, hrest, hwrite]
      simp [Space.none]

theorem exists_members : (fields : List (List Char × Value)) → SoundFields fields →
    ∃ trees : Fields, trees.text = writeFields fields ∧ trees.values = some fields
  | [], _ => ⟨.nil, rfl, rfl⟩
  | [(key, value)], h => by
      obtain ⟨letters, hkey, hreads⟩ := exists_letters key
      obtain ⟨tree, htext, hvalue⟩ := exists_tree value h.1
      refine ⟨.cons .none letters .none .none tree .none .nil, ?_, by
        rw [Fields.values, hreads, hvalue]; rfl⟩
      rw [Fields.text_cons, hkey, htext, Fields.rest, writeFields]
      simp [Space.none]
  | (key, value) :: next :: fields, h => by
      obtain ⟨letters, hkey, hreads⟩ := exists_letters key
      obtain ⟨tree, htext, hvalue⟩ := exists_tree value h.1
      obtain ⟨trees, htexts, hvalues⟩ := exists_members (next :: fields) h.2
      refine ⟨.cons .none letters .none .none tree .none trees, ?_, by
        rw [Fields.values, hreads, hvalue, hvalues]; rfl⟩
      have hrest : trees.rest = ',' :: writeFields (next :: fields) := by
        cases trees with
        | nil => cases hvalues
        | cons => exact congrArg (',' :: ·) htexts
      have hwrite : writeFields ((key, value) :: next :: fields) =
          writeString key ++ [':'] ++ write value ++ [','] ++ writeFields (next :: fields) := rfl
      rw [Fields.text_cons, hkey, htext, hrest, hwrite]
      simp [Space.none]

end

/-- **What is written of a value is read as the value.** -/
theorem fromStr_write {value : Value} (h : value.Sound) : fromStr (write value) = some value := by
  obtain ⟨tree, htext, hvalue⟩ := exists_tree value h
  have hread := fromStr_text .none tree .none
  rw [hvalue, htext] at hread
  change fromStr ([] ++ (write value ++ [])) = _ at hread
  rwa [List.nil_append, List.append_nil] at hread

/-! ## Lines -/

theorem lineFeed_notMem_escape (c : Char) : '\n' ∉ escape c := by
  have hdigit : ∀ n < 16, '\n' ≠ Nat.digitChar n := by decide
  rw [escape]
  split_ifs with hquote hslash hback htab hline hform hreturn hcontrol
  · decide
  · decide
  · decide
  · decide
  · decide
  · decide
  · decide
  · simp [hdigit (c.toNat / 16) (by omega), hdigit (c.toNat % 16) (by omega)]
  · rw [List.mem_singleton]
    rintro rfl
    exact hline rfl

theorem lineFeed_notMem_writeString (text : List Char) : '\n' ∉ writeString text := by
  simp [writeString, lineFeed_notMem_escape]

theorem isDigit_of_mem_text {number : Number} {c : Char} (h : c ∈ number.text) :
    c.isDigit = true ∨ c ∈ "+-.eE".toList := by
  obtain ⟨negative, whole, fraction, exponent⟩ := number
  simp only [Number.text, List.mem_append] at h
  rcases h with ((hsign | hwhole) | hfraction) | hexponent
  · split_ifs at hsign
    · rw [List.mem_singleton.mp hsign]
      exact Or.inr (by decide)
    · cases hsign
  · exact Or.inl (whole.isDigit c hwhole)
  · cases fraction with
    | none => cases hfraction
    | some digits =>
        rcases List.mem_cons.mp hfraction with rfl | hdigit
        · exact Or.inr (by decide)
        · exact Or.inl (digits.isDigit c hdigit)
  · cases exponent with
    | none => cases hexponent
    | some exponent =>
        rcases List.mem_cons.mp hexponent with rfl | hrest
        · rcases exponent.isLetter with hletter | hletter
          · rw [hletter]
            exact Or.inr (by decide)
          · rw [hletter]
            exact Or.inr (by decide)
        · rcases List.mem_append.mp hrest with hsign | hdigit
          · rcases exponent.isSign with hnone | hplus | hminus
            · rw [hnone] at hsign
              cases hsign
            · rw [hplus, List.mem_singleton] at hsign
              rw [hsign]
              exact Or.inr (by decide)
            · rw [hminus, List.mem_singleton] at hsign
              rw [hsign]
              exact Or.inr (by decide)
          · exact Or.inl (exponent.digits.isDigit c hdigit)

mutual

/-- A value is written on one line. -/
theorem lineFeed_notMem_write : (value : Value) → value.Sound → '\n' ∉ write value
  | .null, _ => by decide
  | .bool true, _ | .bool false, _ => by decide
  | .num literal, h => by
      obtain ⟨number, -, rfl⟩ := h
      intro hmem
      have hchar := isDigit_of_mem_text hmem
      exact absurd hchar (by decide)
  | .str text, _ => lineFeed_notMem_writeString text
  | .arr items, h => by
      have hitems := lineFeed_notMem_writeItems items h
      simp [write, hitems]
  | .obj fields, h => by
      have hfields := lineFeed_notMem_writeFields fields h
      simp [write, hfields]

theorem lineFeed_notMem_writeItems : (items : List Value) → SoundItems items →
    '\n' ∉ writeItems items
  | [], _ => List.not_mem_nil
  | [item], h => lineFeed_notMem_write item h.1
  | item :: next :: items, h => by
      have hitem := lineFeed_notMem_write item h.1
      have hrest := lineFeed_notMem_writeItems (next :: items) h.2
      simp [writeItems, hitem, hrest]

theorem lineFeed_notMem_writeFields : (fields : List (List Char × Value)) → SoundFields fields →
    '\n' ∉ writeFields fields
  | [], _ => List.not_mem_nil
  | [(key, value)], h => by
      have hkey := lineFeed_notMem_writeString key
      have hvalue := lineFeed_notMem_write value h.1
      simp [writeFields, hkey, hvalue]
  | (key, value) :: next :: fields, h => by
      have hkey := lineFeed_notMem_writeString key
      have hvalue := lineFeed_notMem_write value h.1
      have hrest := lineFeed_notMem_writeFields (next :: fields) h.2
      simp [writeFields, hkey, hvalue, hrest]

end

/-- Where a character stands in a text, there is a quotation mark in front of it in its line. -/
def Quoted (c : Char) (text : List Char) : Prop :=
  ∀ front back, text = front ++ c :: back →
    ∃ before after, front = before ++ '"' :: after ∧ '\n' ∉ after

variable {c : Char}

theorem quoted_of_notMem {text : List Char} (h : c ∉ text) : Quoted c text := by
  rintro front back rfl
  exact absurd (List.mem_append_right front List.mem_cons_self) h

theorem Quoted.append {text other : List Char} (h : Quoted c text) (h' : Quoted c other) :
    Quoted c (text ++ other) := by
  intro front back hsplit
  rcases List.append_eq_append_iff.mp hsplit with ⟨mid, rfl, hother⟩ | ⟨mid, htext, hback⟩
  · obtain ⟨before, after, rfl, hline⟩ := h' mid back hother
    exact ⟨text ++ before, after, by simp, hline⟩
  · cases mid with
    | nil =>
        rw [List.append_nil] at htext
        subst htext
        obtain ⟨before, after, hnone, hline⟩ := h' [] back hback.symm
        exact absurd hnone (by simp)
    | cons d mid =>
        obtain ⟨rfl, -⟩ := List.cons.inj hback
        exact h front mid htext

/-- Each line of a text has quotation marks in front of the character. -/
theorem mem_quote_of_mem_splitOn {text line front back : List Char} (h : Quoted c text)
    (hline : line ∈ text.splitOn '\n') (hsplit : line = front ++ c :: back) : '"' ∈ front := by
  generalize hlength : text.length = n
  induction n using Nat.strong_induction_on generalizing text with
  | _ n ih =>
      rcases Texts.splitOnce_singleton '\n' text with ⟨-, hnone⟩ | ⟨first, rest, -, rfl, hfirst⟩
      · rw [List.splitOn_eq_singleton hnone, List.mem_singleton] at hline
        subst hline
        obtain ⟨before, after, rfl, -⟩ := h front back hsplit
        simp
      · rw [List.splitOn_append_cons_self_of_not_mem hfirst] at hline
        rcases List.mem_cons.mp hline with rfl | hlater
        · obtain ⟨before, after, rfl, -⟩ := h front (back ++ '\n' :: rest) (by simp [hsplit])
          simp
        · have hrest : Quoted c rest := by
            rintro before after rfl
            obtain ⟨ahead, between, hahead, hbetween⟩ :=
              h (first ++ '\n' :: before) after (by simp)
            -- the line feed stands in front of the quotation mark
            rcases List.append_eq_append_iff.mp hahead with ⟨mid, rfl, hmid⟩ | ⟨mid, rfl, hmid⟩
            · cases mid with
              | nil => cases hmid
              | cons d mid =>
                  obtain ⟨-, hbefore⟩ := List.cons.inj hmid
                  exact ⟨mid, between, hbefore, hbetween⟩
            · cases mid with
              | nil => cases hmid
              | cons d mid =>
                  obtain ⟨-, hafter⟩ := List.cons.inj hmid
                  exact absurd (by rw [hafter]; simp) hbetween
          refine ih rest.length ?_ hrest hlater rfl
          rw [← hlength, List.length_append, List.length_cons]
          omega

/-- The characters that a JSON text may have outside of its strings. -/
def bareChars : List Char := "nulltruefalse0123456789+-.eE[]\x7b\x7d:, \t\n\r\"".toList

theorem mem_bareChars_of_isDigit (h : c.isDigit = true) : c ∈ bareChars := by
  have hall : ∀ n < 10, Char.ofNat (48 + n) ∈ bareChars := by decide
  have hrange : 48 ≤ c.toNat ∧ c.toNat ≤ 57 := by
    simpa [Char.isDigit, UInt32.le_iff_toNat_le] using h
  have hdigit := hall (c.toNat - 48) (by omega)
  rwa [Nat.add_sub_of_le hrange.1, Char.ofNat_toNat] at hdigit

theorem mem_bareChars_of_all {text : List Char} (h : text.all bareChars.contains = true) :
    ∀ d ∈ text, d ∈ bareChars :=
  fun d hd => List.contains_iff_mem.mp (List.all_eq_true.mp h d hd)

theorem quoted_space (hc : c ∉ bareChars) (space : Space) : Quoted c space.text := by
  refine quoted_of_notMem fun hmem => hc ?_
  have hspace := space.isSpace c hmem
  simp only [isSpace, List.contains_iff_mem] at hspace
  exact mem_bareChars_of_all (by decide) c hspace

theorem quoted_bare {text : List Char} (hc : c ∉ bareChars) (h : ∀ d ∈ text, d ∈ bareChars) :
    Quoted c text := quoted_of_notMem fun hmem => hc (h c hmem)

/-- The letters of a string stand on one line. -/
theorem lineFeed_notMem_letters {letters : List Letter} {pending : Pending}
    (h : (unescapeFrom pending letters).isSome) : '\n' ∉ letters.flatMap Letter.text := by
  induction letters generalizing pending with
  | nil => exact List.not_mem_nil
  | cons letter letters ih =>
      have hsplit : unescapeFrom pending (letter :: letters) =
          (stepLetter pending letter).bind fun next =>
            (unescapeFrom next.2 letters).map (next.1 ++ ·) := by
        cases pending <;> rfl
      rw [hsplit] at h
      obtain ⟨text, htext⟩ := Option.isSome_iff_exists.mp h
      obtain ⟨next, hstep, hrest⟩ := Option.bind_eq_some_iff.mp htext
      obtain ⟨rest, hread, -⟩ := Option.map_eq_some_iff.mp hrest
      rw [List.flatMap_cons, List.mem_append, not_or]
      refine ⟨?_, ih (Option.isSome_of_eq_some hread)⟩
      intro hmem
      cases letter with
      | plain d hd =>
          obtain rfl : '\n' = d := List.mem_singleton.mp hmem
          cases pending with
          | ready => cases hstep
          | digits lacks value half => cases hstep
          | half first => cases hstep
      | escaped d =>
          obtain rfl : '\n' = d := by simpa [Letter.text] using hmem
          cases pending with
          | ready => cases hstep
          | digits lacks value half => cases hstep
          | half first => cases hstep

theorem quoted_lettersText (hc : c ∉ bareChars) {letters : List Letter}
    (h : (unescape letters).isSome) : Quoted c (lettersText letters) := by
  intro front back hsplit
  have hline := lineFeed_notMem_letters h
  rw [lettersText, List.append_assoc] at hsplit
  cases front with
  | nil =>
      obtain ⟨rfl, -⟩ := List.cons.inj hsplit
      exact absurd (by decide : '"' ∈ bareChars) hc
  | cons d front =>
      obtain ⟨rfl, hrest⟩ := List.cons.inj hsplit
      refine ⟨[], front, rfl, fun hmem => hline ?_⟩
      -- the last quotation mark is not in front of the character
      have hpart : front <+: letters.flatMap Letter.text := by
        have hwhole : front <+: letters.flatMap Letter.text ++ ['"'] :=
          ⟨c :: back, hrest.symm⟩
        refine (List.prefix_concat_iff.mp hwhole).resolve_left ?_
        rintro rfl
        exact absurd (congrArg List.length hrest) (by simp)
      exact hpart.subset hmem

mutual

/-- Outside of its strings a JSON text has only a few characters, and its strings stand on one
line each. -/
theorem Tree.quoted (hc : c ∉ bareChars) : (tree : Tree) → tree.Strict → Quoted c tree.text
  | .null, _ => quoted_bare hc (mem_bareChars_of_all (by decide))
  | .bool true, _ | .bool false, _ => quoted_bare hc (mem_bareChars_of_all (by decide))
  | .num number, _ => by
      refine quoted_bare hc fun d hd => ?_
      rcases isDigit_of_mem_text hd with hdigit | hother
      · exact mem_bareChars_of_isDigit hdigit
      · exact mem_bareChars_of_all (by decide) d hother
  | .str letters, h => quoted_lettersText hc h
  | .arr space items, h => by
      have hopen : Quoted c ['['] := quoted_bare hc (mem_bareChars_of_all (by decide))
      have hclose : Quoted c [']'] := quoted_bare hc (mem_bareChars_of_all (by decide))
      exact ((hopen.append (quoted_space hc space)).append (items.quoted hc h)).append hclose
  | .obj space fields, h => by
      have hopen : Quoted c ['\x7b'] := quoted_bare hc (mem_bareChars_of_all (by decide))
      have hclose : Quoted c ['\x7d'] := quoted_bare hc (mem_bareChars_of_all (by decide))
      exact ((hopen.append (quoted_space hc space)).append (fields.quoted hc h)).append hclose

theorem Items.quoted (hc : c ∉ bareChars) : (items : Items) → items.Strict → Quoted c items.text
  | .nil, _ => quoted_of_notMem List.not_mem_nil
  | .cons before item after more, h => by
      have hcomma : Quoted c [','] := quoted_bare hc (mem_bareChars_of_all (by decide))
      have hmore : Quoted c more.rest := by
        cases more with
        | nil => exact quoted_of_notMem List.not_mem_nil
        | cons => exact hcomma.append (Items.quoted hc _ h.2)
      rw [Items.text_cons]
      exact (quoted_space hc before).append ((item.quoted hc h.1).append
        ((quoted_space hc after).append hmore))

theorem Fields.quoted (hc : c ∉ bareChars) : (fields : Fields) → fields.Strict →
    Quoted c fields.text
  | .nil, _ => quoted_of_notMem List.not_mem_nil
  | .cons before key beforeColon afterColon value after more, h => by
      obtain ⟨hkey, hvalue, hrest⟩ := h
      have hcolon : Quoted c [':'] := quoted_bare hc (mem_bareChars_of_all (by decide))
      have hcomma : Quoted c [','] := quoted_bare hc (mem_bareChars_of_all (by decide))
      have hmore : Quoted c more.rest := by
        cases more with
        | nil => exact quoted_of_notMem List.not_mem_nil
        | cons => exact hcomma.append (Fields.quoted hc _ hrest)
      rw [Fields.text_cons]
      exact (quoted_space hc before).append ((quoted_lettersText hc hkey).append
        ((quoted_space hc beforeColon).append (hcolon.append
          ((quoted_space hc afterColon).append ((value.quoted hc hvalue).append
            ((quoted_space hc after).append hmore))))))

end

end JsonText
