/-
# Stable sorting by a comparison function

Languages with a `sort_by` take a function that compares two elements and
returns an ordering. When that function is a total preorder every stable sort
returns the same list, and insertion sort is the one that is easy to reason
about. When it is not, as with partially ordered keys, the result may be any
permutation; the ordering guarantee proved here asks only for a transitive
relation that the comparison never contradicts, so it also covers a comparison
that is sound on one key and arbitrary on the next.
-/

import Mathlib.Data.List.Sort

namespace StableSort

variable {α : Type*}

/-- Sort a list by a comparison function, keeping equal elements in order. -/
def sortBy (cmp : α → α → Ordering) (l : List α) : List α :=
  l.insertionSort fun a b => cmp a b ≠ .gt

variable (cmp : α → α → Ordering)

theorem perm_sortBy (l : List α) : (sortBy cmp l).Perm l :=
  List.perm_insertionSort _ l

@[simp]
theorem mem_sortBy {a : α} {l : List α} : a ∈ sortBy cmp l ↔ a ∈ l :=
  (perm_sortBy cmp l).mem_iff

@[simp]
theorem length_sortBy (l : List α) : (sortBy cmp l).length = l.length :=
  (perm_sortBy cmp l).length_eq

/-- Sorting does not empty a list. -/
theorem sortBy_ne_nil {l : List α} (h : l ≠ []) : sortBy cmp l ≠ [] := by
  intro hnil
  exact h (List.length_eq_zero_iff.mp (by rw [← length_sortBy cmp l, hnil]; rfl))

/-- A list in order stays as it is. -/
theorem sortBy_eq_self {l : List α} (h : l.Pairwise fun a b => cmp a b ≠ .gt) :
    sortBy cmp l = l := h.insertionSort_eq

variable {cmp} {R : α → α → Prop}

private theorem pairwise_orderedInsert (htrans : ∀ a b c, R a b → R b c → R a c)
    (hle : ∀ a b, cmp a b ≠ .gt → R a b) (hgt : ∀ a b, cmp a b = .gt → R b a)
    (a : α) {l : List α} (hl : l.Pairwise R) :
    (l.orderedInsert (fun a b => cmp a b ≠ .gt) a).Pairwise R := by
  induction l with
  | nil => exact List.pairwise_singleton R a
  | cons b l ih =>
      obtain ⟨hb, hl⟩ := List.pairwise_cons.mp hl
      by_cases hab : cmp a b ≠ .gt
      · rw [List.orderedInsert_cons_of_le _ l hab]
        refine List.pairwise_cons.mpr ⟨fun c hc => ?_, List.pairwise_cons.mpr ⟨hb, hl⟩⟩
        rcases List.mem_cons.mp hc with rfl | hc
        · exact hle _ _ hab
        · exact htrans _ _ _ (hle _ _ hab) (hb c hc)
      · rw [List.orderedInsert_of_not_le _ l hab]
        refine List.pairwise_cons.mpr ⟨fun c hc => ?_, ih hl⟩
        rcases (List.mem_orderedInsert _).mp hc with rfl | hc
        · exact hgt _ _ (not_ne_iff.mp hab)
        · exact hb c hc

/-- A sorted list respects every transitive relation that the comparison never
contradicts. -/
theorem pairwise_sortBy (htrans : ∀ a b c, R a b → R b c → R a c)
    (hle : ∀ a b, cmp a b ≠ .gt → R a b) (hgt : ∀ a b, cmp a b = .gt → R b a)
    (l : List α) : (sortBy cmp l).Pairwise R := by
  induction l with
  | nil => exact List.Pairwise.nil
  | cons a l ih => exact pairwise_orderedInsert htrans hle hgt a ih

/-- What is among the first elements of an ordered list stands before what is behind them. -/
theorem rel_of_mem_take_of_mem_drop {l : List α} {k : ℕ} {a b : α} (hl : l.Pairwise R)
    (ha : a ∈ l.take k) (hb : b ∈ l.drop k) : R a b := by
  rw [← List.take_append_drop k l] at hl
  exact (List.pairwise_append.mp hl).2.2 a ha b hb

/-! ## Equal elements -/

/-- A comparison whose order is transitive and total. -/
structure Ranks (cmp : α → α → Ordering) : Prop where
  trans : ∀ a b c, cmp a b ≠ .gt → cmp b c ≠ .gt → cmp a c ≠ .gt
  swap : ∀ a b, cmp a b = .gt → cmp b a = .lt

/-- An element comes in front of another one: it is less, or it is equal and was in front of it
before. -/
def InFront (cmp : α → α → Ordering) (S : α → α → Prop) (a b : α) : Prop :=
  cmp a b = .lt ∨ cmp a b = .eq ∧ S a b

theorem inFront_of_ne_gt {S : α → α → Prop} {a b : α} (hab : cmp a b ≠ .gt) (hS : S a b) :
    InFront cmp S a b := by
  cases hcmp : cmp a b with
  | lt => exact Or.inl hcmp
  | eq => exact Or.inr ⟨hcmp, hS⟩
  | gt => exact absurd hcmp hab

theorem InFront.ne_gt {S : α → α → Prop} {a b : α} (h : InFront cmp S a b) : cmp a b ≠ .gt := by
  rcases h with h | ⟨h, -⟩ <;> rw [h] <;> nofun

private theorem stable_orderedInsert {S : α → α → Prop} (hcmp : Ranks cmp) (a : α) {l : List α}
    (hS : ∀ b ∈ l, S a b) (hl : l.Pairwise (InFront cmp S)) :
    (l.orderedInsert (fun a b => cmp a b ≠ .gt) a).Pairwise (InFront cmp S) := by
  induction l with
  | nil => exact List.pairwise_singleton _ a
  | cons b l ih =>
      obtain ⟨hb, hl⟩ := List.pairwise_cons.mp hl
      obtain ⟨hSb, hSl⟩ := List.forall_mem_cons.mp hS
      by_cases hab : cmp a b ≠ .gt
      · rw [List.orderedInsert_cons_of_le _ l hab]
        refine List.pairwise_cons.mpr ⟨fun c hc => ?_, List.pairwise_cons.mpr ⟨hb, hl⟩⟩
        rcases List.mem_cons.mp hc with rfl | hc
        · exact inFront_of_ne_gt hab hSb
        · exact inFront_of_ne_gt (hcmp.trans a b c hab (hb c hc).ne_gt) (hSl c hc)
      · rw [List.orderedInsert_of_not_le _ l hab]
        refine List.pairwise_cons.mpr ⟨fun c hc => ?_, ih hSl hl⟩
        rcases (List.mem_orderedInsert _).mp hc with rfl | hc
        · exact Or.inl (hcmp.swap _ _ (not_ne_iff.mp hab))
        · exact hb c hc

/-- **The sort is stable**: of equal elements, those come first that were first. -/
theorem stable_sortBy {S : α → α → Prop} (hcmp : Ranks cmp) {l : List α} (hl : l.Pairwise S) :
    (sortBy cmp l).Pairwise (InFront cmp S) := by
  induction l with
  | nil => exact List.Pairwise.nil
  | cons a l ih =>
      obtain ⟨hS, hl⟩ := List.pairwise_cons.mp hl
      refine stable_orderedInsert hcmp a (fun b hb => hS b ?_) (ih hl)
      exact (mem_sortBy cmp).mp hb

/-- The first elements of an ordered list are those that less elements are in front of. -/
theorem mem_take_iff_countP_lt [DecidableRel R] {l : List α} {a : α} {k : ℕ} (hl : l.Pairwise R)
    (hasymm : ∀ a b, R a b → ¬ R b a) (ha : a ∈ l) : a ∈ l.take k ↔ l.countP (R · a) < k := by
  have hirrefl (a : α) : ¬ R a a := fun h => hasymm a a h h
  induction l generalizing k with
  | nil => cases ha
  | cons b l ih =>
      obtain ⟨hb, hl⟩ := List.pairwise_cons.mp hl
      cases k with
      | zero => simp
      | succ k =>
          rw [List.take_succ_cons, List.mem_cons]
          by_cases hab : a = b
          · have hnone : (b :: l).countP (R · b) = 0 := by
              rw [List.countP_eq_zero]
              rintro c (_ | ⟨_, hc⟩)
              · simpa using hirrefl b
              · simpa using hasymm b c (hb c hc)
            rw [hab, hnone]
            exact iff_of_true (Or.inl rfl) k.succ_pos
          · have hmem : a ∈ l := List.mem_of_ne_of_mem hab ha
            rw [List.countP_cons_of_pos (by simpa using hb a hmem), Nat.succ_lt_succ_iff]
            exact (or_iff_right hab).trans (ih hl hmem)

end StableSort
