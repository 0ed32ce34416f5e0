/-
# The first of each key

A scan that remembers the keys it has seen, and keeps an element only if its key is new, keeps
the first element of each key.
-/

import Mathlib.Data.Finset.Insert

namespace Firsts

variable {α K : Type*} (key : α → K)

/-- No element before it has its key. -/
def IsFirst (l : List α) (a : α) : Prop :=
  ∃ before after, l = before ++ a :: after ∧ ∀ b ∈ before, key b ≠ key a

/-- What is kept and which keys were seen, after one more element. -/
def keep [DecidableEq K] (kept : List α × Finset K) (a : α) : List α × Finset K :=
  if key a ∈ kept.2 then kept else (kept.1 ++ [a], insert (key a) kept.2)

variable {key} {l : List α} {a b : α}

theorem IsFirst.mem (h : IsFirst key l a) : a ∈ l := by
  obtain ⟨before, after, rfl, -⟩ := h
  exact List.mem_append_right _ List.mem_cons_self

theorem isFirst_cons : IsFirst key (b :: l) a ↔ a = b ∨ key b ≠ key a ∧ IsFirst key l a := by
  constructor
  · rintro ⟨before, after, hsplit, hbefore⟩
    cases before with
    | nil =>
        cases hsplit
        exact Or.inl rfl
    | cons first before =>
        cases hsplit
        obtain ⟨hfirst, hrest⟩ := List.forall_mem_cons.mp hbefore
        exact Or.inr ⟨hfirst, before, after, rfl, hrest⟩
  · rintro (rfl | ⟨hne, before, after, rfl, hbefore⟩)
    · exact ⟨[], l, rfl, List.forall_mem_nil _⟩
    · exact ⟨b :: before, after, rfl, List.forall_mem_cons.mpr ⟨hne, hbefore⟩⟩

/-- Every key has a first element. -/
theorem exists_isFirst (h : a ∈ l) : ∃ b, IsFirst key l b ∧ key b = key a := by
  classical
  induction l with
  | nil => cases h
  | cons first rest ih =>
      by_cases hfirst : key first = key a
      · exact ⟨first, isFirst_cons.mpr (Or.inl rfl), hfirst⟩
      · have hmem : a ∈ rest := by
          rcases List.mem_cons.mp h with rfl | hmem
          · exact absurd rfl hfirst
          · exact hmem
        obtain ⟨b, hb, hkey⟩ := ih hmem
        refine ⟨b, isFirst_cons.mpr (Or.inr ⟨?_, hb⟩), hkey⟩
        rwa [hkey]

/-- In lists one behind the other, the first element of a key is in the first list that has
the key. -/
theorem IsFirst.flatMap {β : Type*} {lists : List β} {elements : β → List α}
    (h : IsFirst key (lists.flatMap elements) a) :
    ∃ before found after, lists = before ++ found :: after ∧
      (∀ earlier ∈ before, ∀ b ∈ elements earlier, key b ≠ key a) ∧
        IsFirst key (elements found) a := by
  induction lists with
  | nil => exact absurd h.mem List.not_mem_nil
  | cons first rest ih =>
      rw [List.flatMap_cons] at h
      obtain ⟨before, after, hsplit, hbefore⟩ := h
      rcases List.append_eq_append_iff.mp hsplit with ⟨late, rfl, hlate⟩ | ⟨late, hfirst, hlate⟩
      · -- the element is behind the first list
        obtain ⟨hfirst, hrest⟩ := List.forall_mem_append.mp hbefore
        obtain ⟨before, found, after, rfl, hothers, hfound⟩ := ih ⟨late, after, hlate, hrest⟩
        exact ⟨first :: before, found, after, rfl, List.forall_mem_cons.mpr ⟨hfirst, hothers⟩,
          hfound⟩
      · cases late with
        | nil =>
            rw [List.append_nil] at hfirst
            have hempty : IsFirst key (rest.flatMap elements) a :=
              ⟨[], after, hlate.symm, List.forall_mem_nil _⟩
            obtain ⟨others, found, after, rfl, hothers, hfound⟩ := ih hempty
            refine ⟨first :: others, found, after, rfl, ?_, hfound⟩
            rw [← hfirst] at hbefore
            exact List.forall_mem_cons.mpr ⟨hbefore, hothers⟩
        | cons _ late =>
            cases hlate
            exact ⟨[], first, rest, rfl, List.forall_mem_nil _, before, late, hfirst, hbefore⟩

variable [DecidableEq K]

/-- What the scan keeps of a list, from some keys seen on. -/
theorem foldl_keep (kept : List α × Finset K) (hkept : (kept.1.map key).Nodup)
    (hseen : ∀ a ∈ kept.1, key a ∈ kept.2) :
    ((l.foldl (keep key) kept).1.map key).Nodup ∧
      ∀ a, a ∈ (l.foldl (keep key) kept).1 ↔ a ∈ kept.1 ∨ key a ∉ kept.2 ∧ IsFirst key l a := by
  induction l generalizing kept with
  | nil =>
      refine ⟨hkept, fun a => ?_⟩
      rw [List.foldl_nil, or_iff_left]
      exact fun h => List.not_mem_nil h.2.mem
  | cons first rest ih =>
      rw [List.foldl_cons, keep]
      split_ifs with hold
      · obtain ⟨hnodup, hmem⟩ := ih kept hkept hseen
        refine ⟨hnodup, fun a => ?_⟩
        rw [hmem, isFirst_cons]
        apply or_congr_right (and_congr_right _)
        intro hnew
        have hne : key first ≠ key a := fun h => hnew (h ▸ hold)
        have hother : a ≠ first := fun h => hne (h ▸ rfl)
        rw [or_iff_right hother, and_iff_right hne]
      · have hnodup : ((kept.1 ++ [first]).map key).Nodup := by
          rw [List.map_append, List.nodup_append]
          refine ⟨hkept, List.nodup_singleton _, ?_⟩
          rintro k hk k' hk' rfl
          obtain ⟨a, ha, rfl⟩ := List.mem_map.mp hk
          rw [List.map_singleton, List.mem_singleton] at hk'
          exact hold (hk' ▸ hseen a ha)
        have hseen' : ∀ a ∈ kept.1 ++ [first], key a ∈ insert (key first) kept.2 := by
          intro a ha
          rcases List.mem_append.mp ha with ha | ha
          · exact Finset.mem_insert_of_mem (hseen a ha)
          · rw [List.mem_singleton.mp ha]
            exact Finset.mem_insert_self _ _
        obtain ⟨hall, hmem⟩ := ih (kept.1 ++ [first], insert (key first) kept.2) hnodup hseen'
        refine ⟨hall, fun a => ?_⟩
        rw [hmem, isFirst_cons, List.mem_append, List.mem_singleton, Finset.mem_insert, not_or,
          or_assoc]
        apply or_congr_right
        by_cases hsame : a = first
        · subst hsame
          exact iff_of_true (Or.inl rfl) ⟨hold, Or.inl rfl⟩
        · rw [or_iff_right hsame, or_iff_right hsame, and_assoc, and_left_comm, ne_comm]

/-- **The scan keeps the first element of each key**, and nothing else. -/
theorem mem_foldl_keep : a ∈ (l.foldl (keep key) ([], ∅)).1 ↔ IsFirst key l a := by
  rw [(foldl_keep ([], ∅) List.nodup_nil (List.forall_mem_nil _)).2, or_iff_right List.not_mem_nil,
    and_iff_right (Finset.notMem_empty _)]

theorem nodup_foldl_keep (l : List α) : ((l.foldl (keep key) ([], ∅)).1.map key).Nodup :=
  (foldl_keep ([], ∅) List.nodup_nil (List.forall_mem_nil _)).1

end Firsts
