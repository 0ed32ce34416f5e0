/-
# Maps as lists of entries

A hash map is written out entry by entry, and read back by inserting one entry after the
other, so that of two entries with one key the later one counts.

It hands out its entries in an order that it does not promise and that can be another one every
time. A program that scans a map is modelled with the order as an argument, so that what is
proved of the program holds in every order.
-/

import Mathlib.Data.List.AList
import Mathlib.Data.List.Induction

namespace AList

variable {K V : Type*}

/-- The entries of a map, in the order in which they were inserted. -/
def pairs (m : AList fun _ : K => V) : List (K × V) :=
  m.entries.reverse.map fun e => (e.1, e.2)

/-- The map of these entries. When a key occurs twice, the last entry counts. -/
def ofPairs [DecidableEq K] (entries : List (K × V)) : AList fun _ : K => V :=
  entries.foldl (fun m e => m.insert e.1 e.2) ∅

/-- A map is what its entries make. -/
theorem ofPairs_pairs [DecidableEq K] (m : AList fun _ : K => V) : ofPairs m.pairs = m := by
  induction m using AList.insertRec with
  | H0 => rfl
  | IH a b l hfresh ih =>
      rw [pairs, entries_insert_of_notMem hfresh, List.reverse_cons, List.map_append, ofPairs,
        List.foldl_append]
      exact congrArg (insert a b) ih

theorem ofPairs_append [DecidableEq K] (entries : List (K × V)) (e : K × V) :
    ofPairs (entries ++ [e]) = (ofPairs entries).insert e.1 e.2 := by
  rw [ofPairs, List.foldl_append]
  rfl

theorem mem_ofPairs [DecidableEq K] {entries : List (K × V)} {k : K} :
    k ∈ ofPairs entries ↔ k ∈ entries.map Prod.fst := by
  induction entries using List.reverseRecOn with
  | nil => exact ⟨fun h => absurd h (notMem_empty k), fun h => by cases h⟩
  | append_singleton entries e ih =>
      rw [ofPairs_append, mem_insert, ih, List.map_append, List.mem_append, List.map_singleton,
        List.mem_singleton, or_comm]

/-- Entries with different keys are the entries of their map. -/
theorem pairs_ofPairs [DecidableEq K] {entries : List (K × V)}
    (h : (entries.map Prod.fst).Nodup) : (ofPairs entries).pairs = entries := by
  induction entries using List.reverseRecOn with
  | nil => rfl
  | append_singleton entries e ih =>
      rw [List.map_append, List.nodup_append] at h
      obtain ⟨hbefore, -, hfresh⟩ := h
      have hnew : e.1 ∉ ofPairs entries := by
        rw [mem_ofPairs]
        intro hold
        exact hfresh _ hold _ (List.mem_singleton.mpr rfl) rfl
      rw [ofPairs_append, pairs, entries_insert_of_notMem hnew, List.reverse_cons,
        List.map_append]
      exact congrArg (· ++ [e]) (ih hbefore)

/-- The keys of a map are different. -/
theorem nodup_pairs (m : AList fun _ : K => V) : (m.pairs.map Prod.fst).Nodup := by
  rw [pairs, List.map_map, List.map_reverse, List.nodup_reverse]
  exact m.nodupKeys

/-! ## The order of a hash map -/

section Listing

/-- An order of the entries of every map. -/
structure Listing (K V : Type*) where
  entries : (AList fun _ : K => V) → List (K × V)
  perm : ∀ m, (entries m).Perm m.pairs

/-- The order in which the entries were inserted. -/
def Listing.inserted : Listing K V := ⟨pairs, fun _ => List.Perm.refl _⟩

variable {m : AList fun _ : K => V} {k : K} {v : V}

/-- The entries of a map are different. -/
theorem nodup_entries_pairs (m : AList fun _ : K => V) : m.pairs.Nodup :=
  List.Nodup.of_map Prod.fst m.nodup_pairs

theorem length_pairs (m : AList fun _ : K => V) : m.pairs.length = m.keys.length := by
  rw [pairs, List.length_map, List.length_reverse, keys, List.keys, List.length_map]

variable [DecidableEq K]

theorem mem_pairs : (k, v) ∈ m.pairs ↔ m.lookup k = some v := by
  rw [← Option.mem_def, mem_lookup_iff, pairs, List.mem_map]
  constructor
  · rintro ⟨e, he, hpair⟩
    cases hpair
    exact List.mem_reverse.mp he
  · intro he
    exact ⟨⟨k, v⟩, List.mem_reverse.mpr he, rfl⟩

theorem Listing.mem_entries (listing : Listing K V) :
    (k, v) ∈ listing.entries m ↔ m.lookup k = some v :=
  ((listing.perm m).mem_iff).trans mem_pairs

theorem pairs_insert_of_notMem (h : k ∉ m) : (m.insert k v).pairs = m.pairs ++ [(k, v)] := by
  rw [pairs, entries_insert_of_notMem h, List.reverse_cons, List.map_append]
  rfl

theorem length_pairs_insert_of_mem (h : k ∈ m) : (m.insert k v).pairs.length = m.pairs.length := by
  have hpos : 0 < m.keys.length := List.length_pos_of_mem h
  rw [length_pairs, length_pairs, keys_insert, List.length_cons, List.length_erase_of_mem h]
  omega

theorem length_pairs_insert_of_notMem (h : k ∉ m) :
    (m.insert k v).pairs.length = m.pairs.length + 1 := by
  rw [pairs_insert_of_notMem h, List.length_append, List.length_singleton]

theorem length_pairs_erase_le (m : AList fun _ : K => V) (k : K) :
    (m.erase k).pairs.length ≤ m.pairs.length := by
  rw [length_pairs, length_pairs, keys_erase]
  exact List.length_erase_le

/-- Without the entry of a key, the other entries are left. -/
theorem pairs_erase_perm {others : List (K × V)} (h : m.pairs.Perm ((k, v) :: others)) :
    (m.erase k).pairs.Perm others := by
  have hkeys := (h.map Prod.fst).nodup_iff.mp m.nodup_pairs
  obtain ⟨hfresh, -⟩ := List.nodup_cons.mp hkeys
  have hothers : others.Nodup := (List.nodup_cons.mp (h.nodup_iff.mp m.nodup_entries_pairs)).2
  apply (List.perm_ext_iff_of_nodup (nodup_entries_pairs _) hothers).mpr
  rintro ⟨k', v'⟩
  rw [mem_pairs]
  by_cases hsame : k' = k
  · subst hsame
    rw [lookup_erase]
    refine iff_of_false (by simp) ?_
    intro hmem
    exact hfresh (List.mem_map.mpr ⟨(k', v'), hmem, rfl⟩)
  · rw [lookup_erase_ne hsame, ← mem_pairs, h.mem_iff, List.mem_cons]
    refine or_iff_right ?_
    intro hentry
    exact hsame (Prod.mk.inj hentry).1

end Listing

end AList
