/-
# Reading JSON within limits

A reader of JSON does not follow values that are nested too deep, and it holds numbers in its
own form: what it has read of a number may be written with other digits, and some numbers it
does not take at all. A value survives being written and read just if it is within the depth
and every number in it is one that the reader keeps.
-/

import HiveBear.Library.JsonWriter
import Mathlib.Data.List.Forall2

namespace JsonText

/-! ## Depth -/

mutual

/-- How deep arrays and objects are nested. -/
def Value.depth : Value → ℕ
  | .null | .bool _ | .num _ | .str _ => 0
  | .arr items => depthItems items + 1
  | .obj fields => depthFields fields + 1

def depthItems : List Value → ℕ
  | [] => 0
  | item :: items => max item.depth (depthItems items)

def depthFields : List (List Char × Value) → ℕ
  | [] => 0
  | (_, value) :: fields => max value.depth (depthFields fields)

end

/-! ## Numbers -/

section

variable (readNumber : List Char → Option (List Char))

mutual

/-- The value with its numbers as the reader holds them. -/
def Value.renumber : Value → Option Value
  | .null => some .null
  | .bool b => some (.bool b)
  | .num literal => (readNumber literal).map .num
  | .str text => some (.str text)
  | .arr items => (renumberItems items).map .arr
  | .obj fields => (renumberFields fields).map .obj

def renumberItems : List Value → Option (List Value)
  | [] => some []
  | item :: items =>
      item.renumber.bind fun item => (renumberItems items).map fun items => item :: items

def renumberFields : List (List Char × Value) → Option (List (List Char × Value))
  | [] => some []
  | (key, value) :: fields =>
      value.renumber.bind fun value =>
        (renumberFields fields).map fun fields => (key, value) :: fields

end

mutual

/-- The reader keeps every number of the value. -/
def Value.NumbersKept : Value → Prop
  | .null | .bool _ | .str _ => True
  | .num literal => readNumber literal = some literal
  | .arr items => KeptItems items
  | .obj fields => KeptFields fields

def KeptItems : List Value → Prop
  | [] => True
  | item :: items => item.NumbersKept ∧ KeptItems items

def KeptFields : List (List Char × Value) → Prop
  | [] => True
  | (_, value) :: fields => value.NumbersKept ∧ KeptFields fields

end

mutual

/-- Renumbering leaves a value as it is just if the reader keeps its numbers. -/
theorem Value.renumber_eq_self_iff : (value : Value) →
    (value.renumber readNumber = some value ↔ value.NumbersKept readNumber)
  | .null | .bool _ | .str _ => iff_of_true rfl trivial
  | .num literal => by
      rw [Value.renumber, Value.NumbersKept, Option.map_eq_some_iff]
      simp
  | .arr items => by
      rw [Value.renumber, Value.NumbersKept, ← renumberItems_eq_self_iff items]
      simp
  | .obj fields => by
      rw [Value.renumber, Value.NumbersKept, ← renumberFields_eq_self_iff fields]
      simp

theorem renumberItems_eq_self_iff : (items : List Value) →
    (renumberItems readNumber items = some items ↔ KeptItems readNumber items)
  | [] => iff_of_true rfl trivial
  | item :: items => by
      rw [renumberItems, KeptItems, ← item.renumber_eq_self_iff,
        ← renumberItems_eq_self_iff items]
      simp [Option.bind_eq_some_iff]

theorem renumberFields_eq_self_iff : (fields : List (List Char × Value)) →
    (renumberFields readNumber fields = some fields ↔ KeptFields readNumber fields)
  | [] => iff_of_true rfl trivial
  | (key, value) :: fields => by
      rw [renumberFields, KeptFields, ← value.renumber_eq_self_iff,
        ← renumberFields_eq_self_iff fields]
      simp [Option.bind_eq_some_iff]

end

/-! ## The reader -/

/-- How deep `serde_json` lets arrays and objects be nested. -/
def recursionLimit : ℕ := 127

/-- Read a text as JSON, with nothing in it nested deeper than the limit. -/
def fromStrWithin (limit : ℕ) (text : List Char) : Option Value :=
  (fromStr text).bind fun value =>
    if value.depth ≤ limit then value.renumber readNumber else none

/-- A value is within what the reader keeps. -/
def Value.Within (limit : ℕ) (value : Value) : Prop :=
  value.depth ≤ limit ∧ value.NumbersKept readNumber

/-- **What is written of a value is read as the value just if it is within the limits.** -/
theorem fromStrWithin_write_iff (limit : ℕ) {value : Value} (h : value.Sound) :
    fromStrWithin readNumber limit (write value) = some value ↔
      value.Within readNumber limit := by
  rw [fromStrWithin, fromStr_write h, Option.bind_some, Value.Within,
    ← value.renumber_eq_self_iff readNumber]
  by_cases hdepth : value.depth ≤ limit
  · rw [if_pos hdepth, and_iff_right hdepth]
  · rw [if_neg hdepth]
    exact iff_of_false (Option.some_ne_none value).symm fun hwithin => hdepth hwithin.1

/-- What is read of what is written of a value. -/
theorem fromStrWithin_write (limit : ℕ) {value : Value} (h : value.Sound) :
    fromStrWithin readNumber limit (write value) =
      if value.depth ≤ limit then value.renumber readNumber else none := by
  rw [fromStrWithin, fromStr_write h, Option.bind_some]

/-- A value, and how the reader holds it. -/
def Held (value held : Value) : Prop := value.renumber readNumber = some held

variable {readNumber}

theorem forall₂_renumberItems {items held : List Value}
    (h : renumberItems readNumber items = some held) :
    List.Forall₂ (Held readNumber) items held := by
  induction items generalizing held with
  | nil =>
      obtain rfl : [] = held := Option.some.inj h
      exact .nil
  | cons item items ih =>
      obtain ⟨first, hfirst, hrest⟩ := Option.bind_eq_some_iff.mp h
      obtain ⟨rest, hitems, rfl⟩ := Option.map_eq_some_iff.mp hrest
      exact .cons hfirst (ih hitems)

theorem forall₂_renumberFields {fields held : List (List Char × Value)}
    (h : renumberFields readNumber fields = some held) :
    List.Forall₂ (fun field kept => kept.1 = field.1 ∧ Held readNumber field.2 kept.2)
      fields held := by
  induction fields generalizing held with
  | nil =>
      obtain rfl : [] = held := Option.some.inj h
      exact .nil
  | cons field fields ih =>
      obtain ⟨value, hvalue, hrest⟩ := Option.bind_eq_some_iff.mp h
      obtain ⟨rest, hfields, rfl⟩ := Option.map_eq_some_iff.mp hrest
      exact .cons ⟨rfl, hvalue⟩ (ih hfields)

/-- The items of an array are held one by one. -/
theorem rel_getElem?_renumberItems {items held : List Value}
    (h : renumberItems readNumber items = some held) (i : ℕ) :
    Option.Rel (Held readNumber) items[i]? held[i]? := by
  have hheld := forall₂_renumberItems h
  clear h
  induction hheld generalizing i with
  | nil => exact .none
  | cons hitem _ ih =>
      cases i with
      | zero => exact .some hitem
      | succ i => exact ih i

/-- The fields of an object are held under their keys, of which the last one counts. -/
theorem rel_lookup_renumberFields {fields held : List (List Char × Value)}
    (h : renumberFields readNumber fields = some held) (key : List Char) :
    Option.Rel (Held readNumber) (fields.reverse.lookup key) (held.reverse.lookup key) := by
  have hreverse := List.forall₂_reverse_iff.mpr (forall₂_renumberFields h)
  generalize fields.reverse = before at hreverse
  generalize held.reverse = kept at hreverse
  induction hreverse with
  | nil => exact .none
  | @cons field other before kept hfield _ ih =>
      obtain ⟨name, value⟩ := other
      obtain ⟨rfl, hvalue⟩ := hfield
      rw [List.lookup_cons, List.lookup_cons]
      cases key == field.1 with
      | true => exact .some hvalue
      | false => exact ih

end

end JsonText
