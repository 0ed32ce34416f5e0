/-
# Parameter counts in model names

The number of parameters of a model is read from its name, or else from its tags: a table of sizes
is tried in a fixed order against the first place at which each stands, and only the character in
front of that place is looked at.

A size token of a text is a whole decimal number, directly followed by the letter b. The table
finds other things too: the end of a fraction, the beginning of a word, or nothing if the first
place is no token and a later one is.
-/

import HiveBear.Library.Texts
import HiveBear.Registry.Scan
import Mathlib.Algebra.Order.Field.Rat
import Mathlib.Tactic.NormNum

namespace HiveBear.Registry

open Paths Texts

/-! ## Size tokens -/

/-- The letters: of the first 128 characters those of ASCII. -/
structure Alphabet where
  isLetter : Char → Bool
  ascii : ∀ c : Char, c.toNat < 128 → isLetter c = c.isAlpha

/-- A decimal number. -/
structure Decimal where
  whole : Text
  fraction : Text
  whole_ne : whole ≠ []
  digits : ∀ c ∈ whole ++ fraction, c.isDigit = true

namespace Decimal

variable (decimal : Decimal)

def text : Text :=
  decimal.whole ++ if decimal.fraction = [] then [] else '.' :: decimal.fraction

def value : ℚ := parseNumber (decimal.whole ++ decimal.fraction) / 10 ^ decimal.fraction.length

end Decimal

section Tokens

variable (alphabet : Alphabet)

/-- A letter or a digit. -/
def Alphabet.isWord (c : Char) : Bool := alphabet.isLetter c || c.isDigit

/-- A text ends with a digit and a point. -/
def EndsInPoint (before : Text) : Prop := ∃ front c, before = front ++ [c, '.'] ∧ c.isDigit = true

/-- A number that is followed by the letter b and is part of no longer word or number. -/
def SizeToken (text : Text) (decimal : Decimal) : Prop :=
  ∃ before after, text = before ++ decimal.text ++ 'b' :: after ∧
    (∀ c ∈ before.getLast?, alphabet.isWord c = false) ∧ ¬ EndsInPoint before ∧
    ∀ c ∈ after.head?, alphabet.isWord c = false

/-- The value of a size token of a text. -/
def SizeValue (text : Text) (size : ℚ) : Prop :=
  ∃ decimal : Decimal, SizeToken alphabet text decimal ∧ decimal.value = size

end Tokens

/-! ## The code -/

/-- Decimal patterns come before their integer suffixes, but not all of them. -/
def paramPatterns : List (Text × ℚ) :=
  [("405b".toList, 405), ("236b".toList, 236), ("180b".toList, 180), ("72b".toList, 72),
    ("70b".toList, 70), ("65b".toList, 65), ("46.7b".toList, 46.7), ("34b".toList, 34),
    ("33b".toList, 33), ("32b".toList, 32), ("27b".toList, 27), ("22b".toList, 22),
    ("14b".toList, 14), ("13b".toList, 13), ("12b".toList, 12), ("11b".toList, 11),
    ("3.8b".toList, 3.8), ("9b".toList, 9), ("8b".toList, 8), ("7b".toList, 7),
    ("2.7b".toList, 2.7), ("3b".toList, 3), ("1.5b".toList, 1.5), ("2b".toList, 2),
    ("0.5b".toList, 0.5), ("1b".toList, 1)]

/-- What is in front of a match is nothing, or ends with a separator. -/
def isBoundary (before : Text) : Bool :=
  before.getLast?.all fun prev => ['-', '_', '.', ' ', '/'].contains prev

/-- Match a parameter pattern ensuring it's at a word boundary. -/
def matchParamPattern (text : Text) : List (Text × ℚ) → Option ℚ
  | [] => none
  | (pattern, size) :: rest =>
      match splitOnce pattern text with
      | some (before, _) => if isBoundary before then some size else matchParamPattern text rest
      | none => matchParamPattern text rest

section Extract

variable (lowercase : Text → Text)

/-- The first tag with a size decides. -/
def matchTags : List Text → Option ℚ
  | [] => none
  | tag :: rest =>
      match matchParamPattern (lowercase tag) paramPatterns with
      | some size => some size
      | none => matchTags rest

/-- Extract parameter count (in billions) from model name or tags. -/
def extractParamCount (name : Text) (tags : List Text) : ℚ :=
  match matchParamPattern (lowercase name) paramPatterns with
  | some size => size
  | none => (matchTags lowercase tags).getD 0

example : extractParamCount id "llama-3.1-8b-instruct".toList [] = 8 := by decide

/-! ## What is claimed -/

variable (alphabet : Alphabet)

/-- A text has a size token that the table knows. -/
def TableToken (text : Text) : Prop :=
  ∃ decimal : Decimal, SizeToken alphabet text decimal ∧
    ∃ row ∈ paramPatterns, row.1 = decimal.text ++ ['b']

/-- **The count is read whole**: it is the value of a size token, and of one of the name if the
name has one that the table knows. -/
structure ReadWhole (name : Text) (tags : List Text) : Prop where
  token : extractParamCount lowercase name tags ≠ 0 →
    SizeValue alphabet (lowercase name) (extractParamCount lowercase name tags) ∨
      ∃ tag ∈ tags, SizeValue alphabet (lowercase tag) (extractParamCount lowercase name tags)
  own : TableToken alphabet (lowercase name) →
    SizeValue alphabet (lowercase name) (extractParamCount lowercase name tags)

/-! ## The condition -/

/-- The first place at which a pattern stands is behind a separator, or at the start. -/
def standsFree (text : Text) (row : Text × ℚ) : Bool :=
  (splitOnce row.1 text).any fun cut => isBoundary cut.1

/-- No pattern stands free at its first place. -/
def Undecided (text : Text) : Prop := ∀ row ∈ paramPatterns, standsFree text row = false

/-- The first pattern of the table that stands free at its first place. -/
def Decides (text : Text) (row : Text × ℚ) : Prop :=
  ∃ earlier later, paramPatterns = earlier ++ row :: later ∧ standsFree text row = true ∧
    ∀ other ∈ earlier, standsFree text other = false

/-- The first place at which a pattern stands is no token, since a digit and a point are in front of
it or a letter or a digit behind it, and no size token of the text has the value either. -/
def Misread (text : Text) (row : Text × ℚ) : Prop :=
  ∃ before after, splitOnce row.1 text = some (before, after) ∧
    (EndsInPoint before ∨ ∃ c ∈ after.head?, alphabet.isWord c = true) ∧
    ∀ decimal : Decimal, SizeToken alphabet text decimal → decimal.value ≠ row.2

/-- The first tag with a pattern that stands free at its first place. -/
def FirstTag (tags : List Text) (tag : Text) (row : Text × ℚ) : Prop :=
  ∃ earlier later, tags = earlier ++ tag :: later ∧ Decides (lowercase tag) row ∧
    ∀ other ∈ earlier, Undecided (lowercase other)

/-- **The condition.** What decides is not misread, or the value is found elsewhere where it may be
found; and where the name does not decide, it has no token that the table knows, or one with the
value that the tags give. -/
structure Legible (name : Text) (tags : List Text) : Prop where
  byName : ∀ row, Decides (lowercase name) row → ¬ Misread alphabet (lowercase name) row ∨
    ¬ TableToken alphabet (lowercase name) ∧ ∃ tag ∈ tags, SizeValue alphabet (lowercase tag) row.2
  byTag : Undecided (lowercase name) → ∀ tag row, FirstTag lowercase tags tag row →
    (¬ Misread alphabet (lowercase tag) row ∨ SizeValue alphabet (lowercase name) row.2 ∨
      ∃ other ∈ tags, SizeValue alphabet (lowercase other) row.2) ∧
    (TableToken alphabet (lowercase name) → SizeValue alphabet (lowercase name) row.2)
  byNeither : Undecided (lowercase name) → (∀ tag ∈ tags, Undecided (lowercase tag)) →
    TableToken alphabet (lowercase name) → SizeValue alphabet (lowercase name) 0

/-! ## The table -/

/-- The digits of a pattern in front of the point and behind it. -/
def patternDigits (pattern : Text) : Text × Text :=
  (splitOnce ['.'] pattern.dropLast).getD (pattern.dropLast, [])

/-- The rows of the table are size tokens with their values. -/
theorem exists_decimal_of_mem {row : Text × ℚ} (h : row ∈ paramPatterns) :
    ∃ decimal : Decimal, row.1 = decimal.text ++ ['b'] ∧ decimal.value = row.2 := by
  have hrows : ∀ row ∈ paramPatterns,
      (patternDigits row.1).1 ≠ [] ∧
      ((patternDigits row.1).1 ++ (patternDigits row.1).2).all Char.isDigit = true ∧
      row.1 = (patternDigits row.1).1 ++
        (if (patternDigits row.1).2 = [] then [] else '.' :: (patternDigits row.1).2) ++ ['b'] ∧
      (parseNumber ((patternDigits row.1).1 ++ (patternDigits row.1).2) : ℚ) /
        10 ^ (patternDigits row.1).2.length = row.2 := by
    decide +kernel
  obtain ⟨hne, hdigits, htext, hvalue⟩ := hrows row h
  exact ⟨⟨_, _, hne, fun c hc => List.all_eq_true.mp hdigits c hc⟩, htext, hvalue⟩

theorem size_ne_zero {row : Text × ℚ} (h : row ∈ paramPatterns) : row.2 ≠ 0 := by
  have hrows : ∀ row ∈ paramPatterns, row.2 ≠ 0 := by decide +kernel
  exact hrows row h

/-! ## What the table finds -/

variable {lowercase alphabet}

/-- A text is cut at a place where the pattern stands. -/
theorem eq_of_splitOnce {pattern text before after : Text}
    (h : splitOnce pattern text = some (before, after)) : text = before ++ pattern ++ after := by
  induction text generalizing before with
  | nil =>
      rw [splitOnce] at h
      split_ifs at h with hpattern
      cases h
      rw [hpattern]
      rfl
  | cons c text ih =>
      rw [splitOnce] at h
      split_ifs at h with hpattern
      · cases h
        exact (List.prefix_iff_eq_append.mp hpattern).symm
      · obtain ⟨⟨front, back⟩, hcut, hpair⟩ := Option.map_eq_some_iff.mp h
        cases hpair
        rw [ih hcut]
        rfl

/-- In front of a match is no letter and no digit. -/
theorem isWord_of_isBoundary {before : Text} (h : isBoundary before = true) :
    ∀ c ∈ before.getLast?, alphabet.isWord c = false := by
  intro c hc
  rw [Option.mem_def] at hc
  rw [isBoundary, hc, Option.all_some] at h
  have hseparators : (['-', '_', '.', ' ', '/'].all fun c =>
      decide (c.toNat < 128) && (!c.isAlpha && !c.isDigit)) = true := by decide
  have hseparator := List.all_eq_true.mp hseparators c (List.contains_iff_mem.mp h)
  simp only [Bool.and_eq_true, decide_eq_true_eq, Bool.not_eq_true'] at hseparator
  obtain ⟨hsmall, hletter, hdigit⟩ := hseparator
  rw [Alphabet.isWord, alphabet.ascii c hsmall, hletter, hdigit]
  rfl

/-- A pattern that stands free is a size token, or is misread unless its value is found elsewhere. -/
theorem sizeValue_iff {text : Text} {row : Text × ℚ} (hrow : row ∈ paramPatterns)
    (hfree : standsFree text row = true) :
    SizeValue alphabet text row.2 ↔ ¬ Misread alphabet text row := by
  constructor
  · rintro ⟨decimal, htoken, hvalue⟩ ⟨_, _, -, -, hnowhere⟩
    exact hnowhere decimal htoken hvalue
  · intro hread
    obtain ⟨⟨before, after⟩, hcut, hboundary⟩ := (Option.any_eq_true _ _).mp hfree
    obtain ⟨decimal, hpattern, hvalue⟩ := exists_decimal_of_mem hrow
    by_contra hnone
    have hnowhere : ∀ other : Decimal, SizeToken alphabet text other → other.value ≠ row.2 :=
      fun other htoken hother => hnone ⟨other, htoken, hother⟩
    by_cases hpart : EndsInPoint before ∨ ∃ c ∈ after.head?, alphabet.isWord c = true
    · exact hread ⟨before, after, hcut, hpart, hnowhere⟩
    · obtain ⟨hpoint, hafter⟩ := not_or.mp hpart
      refine hnowhere decimal ⟨before, after, ?_, isWord_of_isBoundary hboundary, hpoint, ?_⟩ hvalue
      · rw [eq_of_splitOnce hcut, hpattern]
        simp
      · intro c hc
        exact Bool.eq_false_iff.mpr fun hword => hafter ⟨c, hc, hword⟩

theorem matchParamPattern_eq (text : Text) (table : List (Text × ℚ)) :
    matchParamPattern text table = (table.find? (standsFree text)).map Prod.snd := by
  induction table with
  | nil => rfl
  | cons row rest ih =>
      obtain ⟨pattern, size⟩ := row
      rw [matchParamPattern, List.find?_cons, standsFree]
      cases splitOnce pattern text with
      | none => exact ih
      | some cut =>
          dsimp only
          rw [Option.any_some]
          cases isBoundary cut.1 with
          | true => rfl
          | false => exact ih

theorem decides_iff {text : Text} {row : Text × ℚ} :
    Decides text row ↔ paramPatterns.find? (standsFree text) = some row := by
  rw [List.find?_eq_some_iff_append, Decides]
  constructor
  · rintro ⟨earlier, later, htable, hfree, hearlier⟩
    exact ⟨hfree, earlier, later, htable, fun other hother => by simp [hearlier other hother]⟩
  · rintro ⟨hfree, earlier, later, htable, hearlier⟩
    exact ⟨earlier, later, htable, hfree, fun other hother => by simpa using hearlier other hother⟩

theorem undecided_iff {text : Text} :
    Undecided text ↔ paramPatterns.find? (standsFree text) = none := by
  rw [List.find?_eq_none, Undecided]
  exact forall₂_congr fun row _ => Bool.eq_false_iff

/-- A pattern that decides is in the table, and stands free. -/
theorem Decides.sizeValue_iff {text : Text} {row : Text × ℚ} (h : Decides text row) :
    SizeValue alphabet text row.2 ↔ ¬ Misread alphabet text row := by
  have hfound := decides_iff.mp h
  exact HiveBear.Registry.sizeValue_iff (List.mem_of_find?_eq_some hfound)
    (List.find?_some hfound)

/-- What the tags say: the value that the first deciding tag gives. -/
theorem matchTags_cases (tags : List Text) :
    (∃ tag row, FirstTag lowercase tags tag row ∧ matchTags lowercase tags = some row.2) ∨
      (∀ tag ∈ tags, Undecided (lowercase tag)) ∧ matchTags lowercase tags = none := by
  induction tags with
  | nil => exact Or.inr ⟨List.forall_mem_nil _, rfl⟩
  | cons tag rest ih =>
      rw [matchTags, matchParamPattern_eq]
      cases hfound : paramPatterns.find? (standsFree (lowercase tag)) with
      | some row =>
          exact Or.inl ⟨tag, row, ⟨[], rest, rfl, decides_iff.mpr hfound, List.forall_mem_nil _⟩, rfl⟩
      | none =>
          have hundecided := undecided_iff.mpr hfound
          rcases ih with ⟨other, row, ⟨earlier, later, rfl, hdecides, hearlier⟩, hmatch⟩ | ⟨hall, hmatch⟩
          · refine Or.inl ⟨other, row, ⟨tag :: earlier, later, rfl, hdecides, ?_⟩, hmatch⟩
            exact List.forall_mem_cons.mpr ⟨hundecided, hearlier⟩
          · exact Or.inr ⟨List.forall_mem_cons.mpr ⟨hundecided, hall⟩, hmatch⟩

theorem matchTags_of_firstTag {tags : List Text} {tag : Text} {row : Text × ℚ}
    (h : FirstTag lowercase tags tag row) : matchTags lowercase tags = some row.2 := by
  obtain ⟨earlier, later, rfl, hdecides, hearlier⟩ := h
  induction earlier with
  | nil =>
      rw [List.nil_append, matchTags, matchParamPattern_eq, decides_iff.mp hdecides]
      rfl
  | cons first earlier ih =>
      obtain ⟨hfirst, hrest⟩ := List.forall_mem_cons.mp hearlier
      rw [List.cons_append, matchTags, matchParamPattern_eq, undecided_iff.mp hfirst]
      exact ih hrest

/-! ## The count -/

variable {name : Text} {tags : List Text}

theorem Decides.eq {text : Text} {row other : Text × ℚ} (h : Decides text row)
    (hother : Decides text other) : other = row :=
  Option.some_inj.mp ((decides_iff.mp hother).symm.trans (decides_iff.mp h))

theorem Undecided.not_decides {text : Text} {row : Text × ℚ} (h : Undecided text) :
    ¬ Decides text row := by
  rw [decides_iff, undecided_iff.mp h]
  exact Option.some_ne_none row ∘ Eq.symm

theorem Decides.size_ne_zero {text : Text} {row : Text × ℚ} (h : Decides text row) : row.2 ≠ 0 :=
  HiveBear.Registry.size_ne_zero (List.mem_of_find?_eq_some (decides_iff.mp h))

theorem extractParamCount_of_decides {row : Text × ℚ} (h : Decides (lowercase name) row) :
    extractParamCount lowercase name tags = row.2 := by
  rw [extractParamCount, matchParamPattern_eq, decides_iff.mp h]
  rfl

theorem extractParamCount_of_undecided (h : Undecided (lowercase name)) :
    extractParamCount lowercase name tags = (matchTags lowercase tags).getD 0 := by
  rw [extractParamCount, matchParamPattern_eq, undecided_iff.mp h]
  rfl

/-- The name decides. -/
theorem readWhole_iff_of_decides {row : Text × ℚ} (h : Decides (lowercase name) row) :
    ReadWhole lowercase alphabet name tags ↔ Legible lowercase alphabet name tags := by
  have hvalue := @extractParamCount_of_decides lowercase name tags row h
  have hread : SizeValue alphabet (lowercase name) row.2 ↔
      ¬ Misread alphabet (lowercase name) row := h.sizeValue_iff
  constructor
  · rintro ⟨htoken, hown⟩
    rw [hvalue] at htoken hown
    refine ⟨?_, fun hundecided => absurd h hundecided.not_decides,
      fun hundecided => absurd h hundecided.not_decides⟩
    intro other hother
    rw [h.eq hother, ← hread]
    by_cases htable : TableToken alphabet (lowercase name)
    · exact Or.inl (hown htable)
    · exact (htoken h.size_ne_zero).imp_right fun htag => ⟨htable, htag⟩
  · rintro ⟨hname, -, -⟩
    have hcases := hname row h
    rw [← hread] at hcases
    constructor
    · rw [hvalue]
      exact fun _ => hcases.imp_right And.right
    · rw [hvalue]
      exact fun htable => hcases.resolve_right fun hother => hother.1 htable

/-- A tag decides. -/
theorem readWhole_iff_of_firstTag (hundecided : Undecided (lowercase name)) {tag : Text}
    {row : Text × ℚ} (hfirst : FirstTag lowercase tags tag row) :
    ReadWhole lowercase alphabet name tags ↔ Legible lowercase alphabet name tags := by
  have hvalue : extractParamCount lowercase name tags = row.2 := by
    rw [extractParamCount_of_undecided hundecided, matchTags_of_firstTag hfirst]
    rfl
  obtain ⟨earlier, later, htags, hdecides, -⟩ := id hfirst
  have htag : tag ∈ tags := htags ▸ List.mem_append_right _ List.mem_cons_self
  constructor
  · rintro ⟨htoken, hown⟩
    rw [hvalue] at htoken hown
    refine ⟨fun _ hname => absurd hname hundecided.not_decides, ?_, ?_⟩
    · intro _ other otherRow hother
      have hsame := (matchTags_of_firstTag hfirst).symm.trans (matchTags_of_firstTag hother)
      rw [← Option.some_inj.mp hsame]
      exact ⟨Or.inr (htoken hdecides.size_ne_zero), hown⟩
    · exact fun _ hall => absurd hdecides (hall tag htag).not_decides
  · rintro ⟨-, hbyTag, -⟩
    obtain ⟨hcases, hown⟩ := hbyTag hundecided tag row hfirst
    rw [← hdecides.sizeValue_iff] at hcases
    constructor
    · rw [hvalue]
      intro _
      rcases hcases with hhere | hname | hother
      · exact Or.inr ⟨tag, htag, hhere⟩
      · exact Or.inl hname
      · exact Or.inr hother
    · rw [hvalue]
      exact hown

/-- Neither the name nor a tag decides. -/
theorem readWhole_iff_of_undecided (hundecided : Undecided (lowercase name))
    (hall : ∀ tag ∈ tags, Undecided (lowercase tag)) (hmatch : matchTags lowercase tags = none) :
    ReadWhole lowercase alphabet name tags ↔ Legible lowercase alphabet name tags := by
  have hvalue : extractParamCount lowercase name tags = 0 := by
    rw [extractParamCount_of_undecided hundecided, hmatch]
    rfl
  constructor
  · rintro ⟨-, hown⟩
    rw [hvalue] at hown
    refine ⟨fun _ hname => absurd hname hundecided.not_decides, ?_, fun _ _ => hown⟩
    rintro _ tag row ⟨_, _, rfl, hdecides, _⟩
    exact absurd hdecides (hall tag (List.mem_append_right _ List.mem_cons_self)).not_decides
  · rintro ⟨-, -, hneither⟩
    constructor
    · exact fun hne => absurd hvalue hne
    · rw [hvalue]
      exact hneither hundecided hall

end Extract

/-- The letters of ASCII. -/
def asciiLetters : Alphabet := ⟨Char.isAlpha, fun _ _ => rfl⟩

end HiveBear.Registry
