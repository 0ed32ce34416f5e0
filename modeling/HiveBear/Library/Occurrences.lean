/-
# Texts that occur in a text

A text occurs in another one if the other one is it with something before and behind it. Several
texts occur in order if each occurs behind the one before.

What is put together from pieces that hold a text each, holds the texts in order.
-/

import Mathlib.Data.List.Infix
import Mathlib.Data.String.Basic

/-! ## Strings -/

/-- The characters of the text stand in the other one, one behind the other. -/
def String.Occurs (text whole : String) : Prop := text.toList <:+: whole.toList

namespace String

instance (text whole : String) : Decidable (text.Occurs whole) :=
  inferInstanceAs (Decidable (_ <:+: _))

theorem occurs_refl (text : String) : text.Occurs text := List.infix_refl _

variable {text whole : String}

theorem Occurs.trans {outer : String} (h : text.Occurs whole) (houter : whole.Occurs outer) :
    text.Occurs outer :=
  List.IsInfix.trans h houter

theorem Occurs.append_left (h : text.Occurs whole) (first : String) :
    text.Occurs (first ++ whole) := by
  rw [Occurs, toList_append]
  exact List.infix_append_of_infix_right h

theorem Occurs.append_right (h : text.Occurs whole) (last : String) :
    text.Occurs (whole ++ last) := by
  rw [Occurs, toList_append]
  exact List.infix_append_of_infix_left h

/-- A text occurs between two others. -/
theorem occurs_between (first text last : String) : text.Occurs (first ++ text ++ last) :=
  ((occurs_refl text).append_left first).append_right last

/-- Of a joined list every text occurs. -/
theorem occurs_intercalate {texts : List String} (h : text ∈ texts) (separator : String) :
    text.Occurs (separator.intercalate texts) := by
  induction texts with
  | nil => cases h
  | cons first rest ih =>
      by_cases hrest : rest = []
      · subst hrest
        rw [List.mem_singleton.mp h, intercalate_singleton]
        exact occurs_refl first
      · rw [intercalate_cons_of_ne_nil hrest]
        rcases List.mem_cons.mp h with rfl | hmem
        · rw [append_assoc]
          exact (occurs_refl text).append_right _
        · exact (ih hmem).append_left _

/-- What occurs in two texts put together, one of which ends or begins where they meet with a
character that the text does not hold, occurs in one of them. -/
theorem occurs_append_iff {first last : String} (sep : Char) (hsep : sep ∉ text.toList)
    (hmeet : first.toList.getLast? = some sep ∨ last.toList.head? = some sep) :
    text.Occurs (first ++ last) ↔ text.Occurs first ∨ text.Occurs last := by
  constructor
  · intro h
    rw [Occurs, toList_append, List.infix_append_iff] at h
    rcases h with hfirst | hlast | ⟨front, back, htext, hfront, hback⟩
    · exact Or.inl hfirst
    · exact Or.inr hlast
    rw [htext, List.mem_append, not_or] at hsep
    rcases hmeet with hend | hbegin
    · rcases List.eq_nil_or_concat front with rfl | ⟨start, c, rfl⟩
      · rw [Occurs, Occurs, htext]
        exact Or.inr hback.isInfix
      · obtain ⟨more, hmore⟩ := hfront
        rw [← hmore, List.concat_eq_append, ← List.append_assoc, List.getLast?_concat] at hend
        cases hend
        exact absurd (by simp) hsep.1
    · cases back with
      | nil =>
          rw [Occurs, Occurs, htext, List.append_nil]
          exact Or.inl hfront.isInfix
      | cons c rest =>
          obtain ⟨more, hmore⟩ := hback
          rw [← hmore] at hbegin
          cases hbegin
          exact absurd List.mem_cons_self hsep.2
  · rintro (hfirst | hlast)
    · exact hfirst.append_right last
    · exact hlast.append_left first

/-- What occurs around a text that begins and ends with a character that it does not hold occurs
before or behind it. -/
theorem occurs_around_iff {gap : String} (sep : Char) (hsep : sep ∉ text.toList)
    (hfirst : gap.toList.head? = some sep) (hlast : gap.toList.getLast? = some sep)
    (hgap : ¬ text.Occurs gap) (first last : String) :
    text.Occurs (first ++ gap ++ last) ↔ text.Occurs first ∨ text.Occurs last := by
  have hmeet : (first ++ gap).toList.getLast? = some sep := by
    rw [toList_append, List.getLast?_append, hlast]
    rfl
  rw [occurs_append_iff sep hsep (Or.inl hmeet), occurs_append_iff sep hsep (Or.inr hfirst),
    or_iff_left hgap]

/-- A text does not occur where one of its characters does not. -/
theorem not_occurs_of_notMem {c : Char} (hc : c ∈ text.toList) (h : c ∉ whole.toList) :
    ¬ text.Occurs whole :=
  fun hoccurs => h (List.IsInfix.subset hoccurs hc)

/-- No text holds all texts. -/
theorem exists_not_occurs (whole : String) : ∃ text : String, ¬ text.Occurs whole := by
  refine ⟨ofList (List.replicate (whole.toList.length + 1) 'a'), fun h => ?_⟩
  have hlength := List.IsInfix.length_le h
  rw [toList_ofList, List.length_replicate] at hlength
  omega

end String

/-! ## Texts in order -/

/-- Each of the texts occurs behind the one before. -/
def InOrder {α : Type*} : List (List α) → List α → Prop
  | [], _ => True
  | text :: texts, whole => ∃ before after, whole = before ++ text ++ after ∧ InOrder texts after

namespace InOrder

variable {α β : Type*} {texts texts' : List (List α)} {whole whole' : List α}

theorem append_left (h : InOrder texts whole) (first : List α) : InOrder texts (first ++ whole) := by
  cases texts with
  | nil => trivial
  | cons text texts =>
      obtain ⟨before, after, rfl, hrest⟩ := h
      refine ⟨first ++ before, after, ?_, hrest⟩
      simp only [List.append_assoc]

/-- What stands in order stands in order with more behind it. -/
theorem append (h : InOrder texts whole) (h' : InOrder texts' whole') :
    InOrder (texts ++ texts') (whole ++ whole') := by
  induction texts generalizing whole with
  | nil => exact h'.append_left whole
  | cons text texts ih =>
      obtain ⟨before, after, rfl, hrest⟩ := h
      refine ⟨before, after ++ whole', ?_, ih hrest⟩
      rw [List.append_assoc]

theorem singleton {text : List α} (h : text <:+: whole) : InOrder [text] whole := by
  obtain ⟨before, after, rfl⟩ := h
  exact ⟨before, after, rfl, trivial⟩

/-- Pieces that hold a text each hold the texts in order. -/
theorem flatMap {text piece : β → List α} {items : List β}
    (h : ∀ item ∈ items, text item <:+: piece item) :
    InOrder (items.map text) (items.flatMap piece) := by
  induction items with
  | nil => trivial
  | cons item items ih =>
      obtain ⟨hitem, hitems⟩ := List.forall_mem_cons.mp h
      exact (singleton hitem).append (ih hitems)

/-- Some of the texts are in order as well. -/
theorem sublist (h : InOrder texts whole) (hsub : texts'.Sublist texts) : InOrder texts' whole := by
  induction hsub generalizing whole with
  | slnil => trivial
  | cons text _ ih =>
      obtain ⟨before, after, rfl, hrest⟩ := h
      exact (ih hrest).append_left _
  | cons_cons text _ ih =>
      obtain ⟨before, after, hwhole, hrest⟩ := h
      exact ⟨before, after, hwhole, ih hrest⟩

theorem infix_of_mem {text : List α} (h : InOrder texts whole) (hmem : text ∈ texts) :
    text <:+: whole := by
  have hone := h.sublist (List.singleton_sublist.mpr hmem)
  obtain ⟨before, after, rfl, -⟩ := hone
  exact List.infix_append before text after

end InOrder
