/-
# Texts that are no JSON

With more fuel the reader of JSON fails less often, and reads nothing else. So it reads the text of
a tree up to its end or not at all, whatever its fuel is, and where it gets stuck in a part of a
text it gets stuck in the whole.
-/

import HiveBear.Library.JsonReader

namespace JsonText

/-! ## More fuel -/

/-- One result is the other one, if it is there at all. -/
def Extends {α : Type} (first second : Option α) : Prop := ∀ a, first = some a → second = some a

section

variable {α β : Type} {first second : Option α}

theorem Extends.refl (result : Option α) : Extends result result := fun _ h => h

theorem Extends.map (h : Extends first second) (f : α → β) :
    Extends (first.map f) (second.map f) := by
  intro b hb
  obtain ⟨a, ha, rfl⟩ := Option.map_eq_some_iff.mp hb
  rw [h a ha, Option.map_some]

theorem Extends.bind (h : Extends first second) {f g : α → Option β}
    (hfg : ∀ a, Extends (f a) (g a)) : Extends (first.bind f) (second.bind g) := by
  intro b hb
  obtain ⟨a, ha, hb⟩ := Option.bind_eq_some_iff.mp hb
  rw [h a ha, Option.bind_some, hfg a b hb]

end

section

variable {fuel : ℕ}

theorem extends_readValue_succ
    (hitems : ∀ text, Extends (readItems fuel text) (readItems (fuel + 1) text))
    (hfields : ∀ text, Extends (readFields fuel text) (readFields (fuel + 1) text))
    (text : List Char) : Extends (readValue (fuel + 1) text) (readValue (fuel + 2) text) := by
  cases text with
  | nil => exact .refl _
  | cons c rest =>
      rw [readValue, readValue]
      split_ifs
      · exact .refl _
      · cases skipSpace rest with
        | nil => exact .refl _
        | cons d more =>
            dsimp only
            split_ifs
            · exact .refl _
            · exact (hitems _).map _
      · cases skipSpace rest with
        | nil => exact .refl _
        | cons d more =>
            dsimp only
            split_ifs
            · exact .refl _
            · exact (hfields _).map _
      · exact .refl _
      · exact .refl _

theorem extends_readItems_succ
    (hvalue : ∀ text, Extends (readValue fuel text) (readValue (fuel + 1) text))
    (hitems : ∀ text, Extends (readItems fuel text) (readItems (fuel + 1) text))
    (text : List Char) : Extends (readItems (fuel + 1) text) (readItems (fuel + 2) text) := by
  rw [readItems, readItems]
  apply (hvalue _).bind
  intro item
  cases skipSpace item.2 with
  | nil => exact .refl _
  | cons c rest =>
      dsimp only
      split_ifs
      · exact (hitems _).map _
      · exact .refl _
      · exact .refl _

theorem extends_readFields_succ
    (hvalue : ∀ text, Extends (readValue fuel text) (readValue (fuel + 1) text))
    (hfields : ∀ text, Extends (readFields fuel text) (readFields (fuel + 1) text))
    (text : List Char) : Extends (readFields (fuel + 1) text) (readFields (fuel + 2) text) := by
  rw [readFields, readFields]
  cases skipSpace text with
  | nil => exact .refl _
  | cons quote text =>
      dsimp only
      split_ifs
      · apply (Extends.refl _).bind
        intro key
        cases skipSpace key.2 with
        | nil => exact .refl _
        | cons colon text =>
            dsimp only
            split_ifs
            · apply (hvalue _).bind
              intro value
              cases skipSpace value.2 with
              | nil => exact .refl _
              | cons c rest =>
                  dsimp only
                  split_ifs
                  · exact (hfields _).map _
                  · exact .refl _
                  · exact .refl _
            · exact .refl _
      · exact .refl _

end

theorem extends_read_succ (fuel : ℕ) :
    (∀ text, Extends (readValue fuel text) (readValue (fuel + 1) text)) ∧
      (∀ text, Extends (readItems fuel text) (readItems (fuel + 1) text)) ∧
        ∀ text, Extends (readFields fuel text) (readFields (fuel + 1) text) := by
  induction fuel with
  | zero =>
      have hnone {α : Type} {result : Option α} : Extends none result := fun _ h => by cases h
      exact ⟨fun _ => hnone, fun _ => hnone, fun _ => hnone⟩
  | succ fuel ih =>
      obtain ⟨hvalue, hitems, hfields⟩ := ih
      exact ⟨extends_readValue_succ hitems hfields, extends_readItems_succ hvalue hitems,
        extends_readFields_succ hvalue hfields⟩

theorem extends_readValue (text : List Char) {fuel more : ℕ} (hle : fuel ≤ more) :
    Extends (readValue fuel text) (readValue more text) := by
  induction hle with
  | refl => exact .refl _
  | step _ ih => exact fun result h => (extends_read_succ _).1 text result (ih result h)

/-- What is read of the text of a tree is all of it. -/
theorem Tree.rest_of_readValue (tree : Tree) {rest : List Char} (hrest : Ends rest) {fuel : ℕ}
    {result : Value × List Char} (h : readValue fuel (tree.text ++ rest) = some result) :
    result.2 = rest := by
  have henough := extends_readValue _ (Nat.le_max_left fuel (2 * (tree.text ++ rest).length)) _ h
  rw [tree.readValue_text hrest (Nat.le_max_right _ _)] at henough
  obtain ⟨value, -, rfl⟩ := Option.map_eq_some_iff.mp henough
  rfl

/-! ## Getting stuck -/

/-- A text begins with a bracket, and what begins with it is not read. -/
structure Stuck (text : List Char) : Prop where
  head : ∃ c more, text = c :: more ∧ (c = '[' ∨ c = '\x7b')
  fails : ∀ fuel rest, readValue fuel (text ++ rest) = none

/-- What begins with a text is not read as the fields of an object. -/
def StuckFields (text : List Char) : Prop := ∀ fuel rest, readFields fuel (text ++ rest) = none

section

variable {text more : List Char}

theorem Stuck.skipSpace (h : Stuck text) (rest : List Char) :
    skipSpace (text ++ rest) = text ++ rest := by
  obtain ⟨c, more, rfl, hc⟩ := h.head
  rcases hc with rfl | rfl <;> exact skipSpace_cons rfl _

theorem fromStr_of_stuck (h : Stuck text) : fromStr text = none := by
  have hskip := h.skipSpace []
  have hfails := h.fails (2 * text.length) []
  rw [List.append_nil] at hskip hfails
  rw [fromStr, hskip, hfails, Option.bind_none]

/-- An array whose first item is stuck. -/
theorem stuck_arr (h : Stuck text) : Stuck ('[' :: (text ++ [']'])) := by
  refine ⟨⟨'[', _, rfl, Or.inl rfl⟩, fun fuel rest => ?_⟩
  rw [List.cons_append, List.append_assoc]
  cases fuel with
  | zero => rfl
  | succ fuel =>
      have hitems : readItems fuel (text ++ ([']'] ++ rest)) = none := by
        cases fuel with
        | zero => rfl
        | succ fuel => rw [readItems, h.skipSpace, h.fails, Option.bind_none]
      obtain ⟨c, more, htext, hc⟩ := h.head
      have hclose : c ≠ ']' := by rcases hc with rfl | rfl <;> decide
      rw [readValue, if_neg (by decide), if_pos rfl, h.skipSpace]
      rw [htext, List.cons_append] at hitems ⊢
      dsimp only
      rw [if_neg hclose, hitems, Option.map_none]

/-- An object whose fields are stuck. -/
theorem stuck_obj (h : StuckFields text)
    (hhead : ∃ c more, text = c :: more ∧ (c = ',' ∨ c = '"')) : Stuck ('\x7b' :: text) := by
  refine ⟨⟨'\x7b', _, rfl, Or.inr rfl⟩, fun fuel rest => ?_⟩
  cases fuel with
  | zero => rfl
  | succ fuel =>
      have hfields := h fuel rest
      obtain ⟨c, more, rfl, hc⟩ := hhead
      have hskip : skipSpace (c :: more ++ rest) = c :: (more ++ rest) := by
        rcases hc with rfl | rfl <;> exact skipSpace_cons rfl _
      have hclose : c ≠ '\x7d' := by rcases hc with rfl | rfl <;> decide
      rw [List.cons_append, readValue, if_neg (by decide), if_neg (by decide), if_pos rfl, hskip]
      dsimp only
      rw [if_neg hclose]
      exact congrArg (Option.map _) hfields

/-- Where a field should be there is a comma or the end. -/
theorem stuckFields_of_head {c : Char} (hc : c = ',' ∨ c = '\x7d') : StuckFields (c :: text) := by
  intro fuel rest
  cases fuel with
  | zero => rfl
  | succ fuel =>
      have hskip : skipSpace (c :: text ++ rest) = c :: (text ++ rest) := by
        rcases hc with rfl | rfl <;> exact skipSpace_cons rfl _
      have hquote : c ≠ '"' := by rcases hc with rfl | rfl <;> decide
      rw [readFields, hskip]
      exact if_neg hquote

/-- A field that is read up to its value. -/
theorem readFields_field (key : List Letter) (text : List Char) (fuel : ℕ) :
    readFields (fuel + 1) (lettersText key ++ ':' :: text) =
      (unescape key).bind fun name => (readValue fuel (skipSpace text)).bind fun value =>
        match skipSpace value.2 with
        | [] => none
        | c :: rest =>
            if c = ',' then
              (readFields fuel rest).map fun fields => ((name, value.1) :: fields.1, fields.2)
            else if c = '\x7d' then some ([(name, value.1)], rest)
            else none := by
  have hkey : lettersText key ++ ':' :: text =
      '"' :: (key.flatMap Letter.text ++ '"' :: ':' :: text) := by
    simp [lettersText]
  rw [hkey, readFields, skipSpace_cons rfl]
  dsimp only
  rw [if_pos rfl, readString_letters]
  cases unescape key with
  | none => rfl
  | some name =>
      rw [Option.map_some, Option.bind_some, Option.bind_some]
      dsimp only
      rw [skipSpace_cons rfl]
      exact if_pos rfl

theorem stuckFields_value (key : List Letter) (h : Stuck text) (more : List Char) :
    StuckFields (lettersText key ++ ':' :: (text ++ more)) := by
  intro fuel rest
  cases fuel with
  | zero => rfl
  | succ fuel =>
      rw [List.append_assoc, List.cons_append, List.append_assoc, readFields_field, h.skipSpace,
        h.fails]
      cases unescape key <;> rfl

/-- A field before others that are stuck. -/
theorem stuckFields_more (key : List Letter) (tree : Tree) (h : StuckFields more) :
    StuckFields (lettersText key ++ ':' :: (tree.text ++ ',' :: more)) := by
  intro fuel rest
  cases fuel with
  | zero => rfl
  | succ fuel =>
      rw [List.append_assoc, List.cons_append, List.append_assoc, List.cons_append,
        readFields_field, tree.skipSpace_text]
      cases unescape key with
      | none => rfl
      | some name =>
          rw [Option.bind_some]
          cases hvalue : readValue fuel (tree.text ++ ',' :: (more ++ rest)) with
          | none => rfl
          | some value =>
              have hrest := tree.rest_of_readValue
                (ends_cons (Or.inr List.mem_cons_self) _) hvalue
              rw [Option.bind_some, hrest, skipSpace_cons rfl]
              dsimp only
              rw [if_pos rfl, h fuel rest, Option.map_none]

end

end JsonText
