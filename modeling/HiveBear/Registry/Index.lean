/-
# The entries of the local index

The index keeps its entries in a list, and finds the first one with an id. `upsert` replaces
that entry, or puts a new one at the end. As long as ids are unique, the entries of an index are
those that can be found.
-/

import HiveBear.Core.Types
import HiveBear.Registry.Remove
import Mathlib.Data.List.Nodup

namespace HiveBear.Registry

/-- Where a model comes from. -/
inductive ModelSource
  | huggingFace (repoId : String) (revision : Option String)
  | ollama (tag : String)
  | onDisk (imported : Bool)

/-- An entry of the index. -/
structure IndexEntry extends ModelMetadata where
  name : String
  formats : List ModelFormat
  source : ModelSource
  huggingfaceId : Option String
  description : Option String
  tags : List String
  downloadsCount : Option ℕ
  likesCount : Option ℕ

namespace IndexEntry

/-- The first entry with an id. -/
def find (index : List IndexEntry) (modelId : String) : Option IndexEntry :=
  index.find? fun entry => entry.id = modelId

/-- Replace the entry with the same id, or add one. -/
def upsert (index : List IndexEntry) (entry : IndexEntry) : List IndexEntry :=
  match index with
  | [] => [entry]
  | first :: rest => if first.id = entry.id then entry :: rest else first :: upsert rest entry

/-- The index without the entries of a model. -/
def remove (index : List IndexEntry) (modelId : String) : List IndexEntry :=
  index.filter fun entry => entry.id ≠ modelId

/-- Every id occurs once. -/
def UniqueIds (index : List IndexEntry) : Prop := (index.map fun entry => entry.id).Nodup

variable {index : List IndexEntry} {entry other : IndexEntry} {modelId : String}

theorem id_of_find (h : find index modelId = some entry) : entry.id = modelId := by
  simpa using List.find?_some h

theorem mem_of_find (h : find index modelId = some entry) : entry ∈ index :=
  List.mem_of_find?_eq_some h

theorem eq_of_mem (hids : UniqueIds index) (h : entry ∈ index) (hother : other ∈ index)
    (hid : entry.id = other.id) : entry = other :=
  List.inj_on_of_nodup_map hids h hother hid

/-- With unique ids every entry can be found. -/
theorem find_of_mem (hids : UniqueIds index) (h : entry ∈ index) :
    find index entry.id = some entry := by
  cases hfound : find index entry.id with
  | none =>
      have hnone := List.find?_eq_none.mp hfound entry h
      exact absurd (decide_eq_true rfl) hnone
  | some other => rw [eq_of_mem hids (mem_of_find hfound) h (id_of_find hfound)]

theorem find_eq_none_iff : find index modelId = none ↔ ∀ entry ∈ index, entry.id ≠ modelId := by
  simp [find]

theorem mem_upsert_self (index : List IndexEntry) (entry : IndexEntry) :
    entry ∈ upsert index entry := by
  induction index with
  | nil => exact List.mem_singleton_self _
  | cons first rest ih =>
      rw [upsert]
      split_ifs
      · exact List.mem_cons_self
      · exact List.mem_cons_of_mem _ ih

theorem mem_upsert_of_ne (h : other ∈ index) (hid : other.id ≠ entry.id) :
    other ∈ upsert index entry := by
  induction index with
  | nil => cases h
  | cons first rest ih =>
      rw [upsert]
      split_ifs with hfirst
      · rcases List.mem_cons.mp h with rfl | hrest
        · exact absurd hfirst hid
        · exact List.mem_cons_of_mem _ hrest
      · rcases List.mem_cons.mp h with rfl | hrest
        · exact List.mem_cons_self
        · exact List.mem_cons_of_mem _ (ih hrest)

/-- What has been upserted is found. -/
theorem find_upsert_self (index : List IndexEntry) (entry : IndexEntry) :
    find (upsert index entry) entry.id = some entry := by
  induction index with
  | nil => simp [upsert, find]
  | cons first rest ih =>
      rw [upsert]
      split_ifs with hsame
      · simp [find]
      · rw [find] at ih ⊢
        rw [List.find?_cons_of_neg (by simpa using hsame), ih]

/-- What is in the index behind an upsert: the entry, and those with other ids. -/
theorem eq_or_mem_of_mem_upsert (hids : UniqueIds index) (h : other ∈ upsert index entry) :
    other = entry ∨ other ∈ index ∧ other.id ≠ entry.id := by
  induction index with
  | nil => exact Or.inl (List.mem_singleton.mp h)
  | cons first rest ih =>
      obtain ⟨hfirst, hrest⟩ := List.nodup_cons.mp hids
      rw [upsert] at h
      split_ifs at h with hsame
      · apply (List.mem_cons.mp h).imp_right
        intro hmem
        refine ⟨List.mem_cons_of_mem _ hmem, ?_⟩
        intro hid
        exact hfirst (List.mem_map.mpr ⟨other, hmem, hid.trans hsame.symm⟩)
      · rcases List.mem_cons.mp h with rfl | hmem
        · exact Or.inr ⟨List.mem_cons_self, hsame⟩
        · apply (ih hrest hmem).imp_right
          rintro ⟨hold, hid⟩
          exact ⟨List.mem_cons_of_mem _ hold, hid⟩

theorem uniqueIds_upsert (hids : UniqueIds index) (entry : IndexEntry) :
    UniqueIds (upsert index entry) := by
  induction index with
  | nil => exact List.nodup_cons.mpr ⟨List.not_mem_nil, List.nodup_nil⟩
  | cons first rest ih =>
      obtain ⟨hfirst, hrest⟩ := List.nodup_cons.mp hids
      rw [upsert]
      split_ifs with hsame
      · have hentry : entry.id ∉ rest.map fun other => other.id := hsame ▸ hfirst
        exact List.nodup_cons.mpr ⟨hentry, hrest⟩
      · refine List.nodup_cons.mpr ⟨?_, ih hrest⟩
        intro hmem
        obtain ⟨other, hother, hid⟩ := List.mem_map.mp hmem
        rcases eq_or_mem_of_mem_upsert hrest hother with rfl | ⟨hold, -⟩
        · exact hsame hid.symm
        · exact hfirst (List.mem_map.mpr ⟨other, hold, hid⟩)

theorem mem_remove : entry ∈ remove index modelId ↔ entry ∈ index ∧ entry.id ≠ modelId := by
  simp [remove]

theorem uniqueIds_remove (hids : UniqueIds index) (modelId : String) :
    UniqueIds (remove index modelId) :=
  hids.sublist (List.Sublist.map _ List.filter_sublist)

end IndexEntry

end HiveBear.Registry
