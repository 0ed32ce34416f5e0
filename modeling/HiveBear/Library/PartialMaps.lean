/-
# Functions that may fail, over a list

A function that may fail is applied to each element of a list, and the result is there if none
fails. Place by place it is what the function gives, so that it can be described element by element.
-/

import Mathlib.Data.List.Forall2

namespace PartialMaps

variable {α β γ : Type*} {f : α → Option β} {items : List α} {results : List β}

/-- The results are those of the elements, place by place. -/
theorem mapM_eq_some_iff :
    items.mapM f = some results ↔ List.Forall₂ (fun a b => f a = some b) items results := by
  induction items generalizing results with
  | nil =>
      rw [List.forall₂_nil_left_iff, List.mapM_nil]
      exact Option.some_inj.trans eq_comm
  | cons a items ih =>
      rw [List.mapM_cons, List.forall₂_cons_left_iff]
      constructor
      · intro h
        obtain ⟨b, hb, h⟩ := Option.bind_eq_some_iff.mp h
        obtain ⟨others, hothers, h⟩ := Option.bind_eq_some_iff.mp h
        cases h
        exact ⟨b, others, hb, ih.mp hothers, rfl⟩
      · rintro ⟨b, others, hb, hothers, rfl⟩
        rw [hb, ih.mpr hothers]
        rfl

/-- A function that does not fail on the list is a map. -/
theorem mapM_eq_map {g : α → β} (h : ∀ a ∈ items, f a = some (g a)) :
    items.mapM f = some (items.map g) := by
  rw [mapM_eq_some_iff, List.forall₂_map_right_iff, List.forall₂_same]
  exact h

/-- What is written for each element is read back. -/
theorem mapM_map_eq_some {write : β → α} {elements : List β}
    (h : ∀ b ∈ elements, f (write b) = some b) : (elements.map write).mapM f = some elements := by
  rw [mapM_eq_some_iff, List.forall₂_map_left_iff, List.forall₂_same]
  exact h

theorem exists_mapM (h : ∀ a ∈ items, ∃ b, f a = some b) :
    ∃ results, items.mapM f = some results := by
  induction items with
  | nil => exact ⟨[], rfl⟩
  | cons a items ih =>
      obtain ⟨⟨b, hb⟩, hmore⟩ := List.forall_mem_cons.mp h
      obtain ⟨others, hothers⟩ := ih hmore
      rw [List.mapM_cons, hb, hothers]
      exact ⟨_, rfl⟩

/-- What the results have in common with the elements. -/
theorem map_of_mapM {key : β → γ} {name : α → γ} (h : ∀ {a b}, f a = some b → key b = name a)
    (hresults : items.mapM f = some results) : results.map key = items.map name := by
  have hsame : List.Forall₂ (· = ·) (results.map key) (items.map name) := by
    rw [List.forall₂_map_left_iff, List.forall₂_map_right_iff]
    exact (mapM_eq_some_iff.mp hresults).flip.imp fun b a hb => h hb
  rwa [List.forall₂_eq_eq_eq] at hsame

theorem exists_of_forall₂ {r : α → β → Prop} {b : β} (h : List.Forall₂ r items results)
    (hb : b ∈ results) : ∃ a ∈ items, r a b := by
  obtain ⟨i, hi, rfl⟩ := List.getElem_of_mem hb
  have hlength := h.length_eq
  exact ⟨items[i], List.getElem_mem _, h.get (hlength ▸ hi) hi⟩

/-- A result is that of an element. -/
theorem exists_of_mem_results (h : items.mapM f = some results) {b : β} (hb : b ∈ results) :
    ∃ a ∈ items, f a = some b :=
  @exists_of_forall₂ α β items results (fun a b => f a = some b) b (mapM_eq_some_iff.mp h) hb

/-- If there are results the function fails nowhere. -/
theorem exists_of_mem_items (h : items.mapM f = some results) {a : α} (ha : a ∈ items) :
    ∃ b, f a = some b := by
  obtain ⟨b, -, hb⟩ := exists_of_forall₂ (mapM_eq_some_iff.mp h).flip ha
  exact ⟨b, hb⟩

end PartialMaps
