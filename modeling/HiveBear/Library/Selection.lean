/-
# Picking an element by its key

`minByKey` picks the first of the least elements and `maxByKey` the last of the greatest ones,
as iterators do. A scan that keeps the best element so far, and replaces it only by one that
scores higher (`challenge`), ends with one of the highest scores.
-/

import Mathlib.Data.List.Basic
import Mathlib.Order.Lattice

namespace Selection

variable {α : Type*} (key : α → ℕ)

def minByKey : List α → Option α
  | [] => none
  | a :: rest =>
      match minByKey rest with
      | some b => if key b < key a then some b else some a
      | none => some a

def maxByKey : List α → Option α
  | [] => none
  | a :: rest =>
      match maxByKey rest with
      | some b => if key b < key a then some a else some b
      | none => some a

variable {key} {a : α} {l : List α}

theorem maxByKey_eq_none_iff : maxByKey key l = none ↔ l = [] := by
  cases l with
  | nil => simp [maxByKey]
  | cons b rest =>
      rw [maxByKey]
      split
      · split_ifs <;> simp
      · simp

theorem mem_of_maxByKey (h : maxByKey key l = some a) : a ∈ l := by
  induction l generalizing a with
  | nil => cases h
  | cons b rest ih =>
      rw [maxByKey] at h
      split at h
      · rename_i other hother
        split_ifs at h <;> cases h
        · exact List.mem_cons_self
        · exact List.mem_cons_of_mem _ (ih hother)
      · cases h
        exact List.mem_cons_self

theorem minByKey_eq_none_iff : minByKey key l = none ↔ l = [] := by
  cases l with
  | nil => simp [minByKey]
  | cons b rest =>
      rw [minByKey]
      split
      · split_ifs <;> simp
      · simp

/-- **The first of the least elements** has only greater ones before it, and none that is less
behind it. -/
theorem minByKey_eq_some_iff : minByKey key l = some a ↔
    ∃ before after, l = before ++ a :: after ∧ (∀ b ∈ before, key a < key b) ∧
      ∀ b ∈ after, key a ≤ key b := by
  induction l generalizing a with
  | nil => simp [minByKey]
  | cons first rest ih =>
      rw [minByKey]
      constructor
      · intro h
        split at h
        · rename_i least hleast
          obtain ⟨before, after, rfl, hbefore, hafter⟩ := ih.mp hleast
          split_ifs at h with hless <;> cases h
          · exact ⟨first :: before, after, rfl, List.forall_mem_cons.mpr ⟨hless, hbefore⟩, hafter⟩
          · have hle : key first ≤ key least := Nat.not_lt.mp hless
            refine ⟨[], _, rfl, List.forall_mem_nil _, ?_⟩
            intro b hb
            rcases List.mem_append.mp hb with hb | hb
            · exact Nat.le_trans hle (Nat.le_of_lt (hbefore b hb))
            · rcases List.mem_cons.mp hb with rfl | hb
              · exact hle
              · exact Nat.le_trans hle (hafter b hb)
        · cases h
          obtain rfl := minByKey_eq_none_iff.mp ‹_›
          exact ⟨[], [], rfl, List.forall_mem_nil _, List.forall_mem_nil _⟩
      · rintro ⟨before, after, hsplit, hbefore, hafter⟩
        cases before with
        | nil =>
            cases hsplit
            split
            · rename_i least hleast
              obtain ⟨before, after, rfl, -, -⟩ := ih.mp hleast
              have hle : key first ≤ key least :=
                hafter least (List.mem_append_right _ List.mem_cons_self)
              rw [if_neg (Nat.not_lt.mpr hle)]
            · rfl
        | cons b before =>
            cases hsplit
            obtain ⟨hless, hbefore⟩ := List.forall_mem_cons.mp hbefore
            rw [ih.mpr ⟨before, after, rfl, hbefore, hafter⟩]
            exact if_pos hless

/-- An element below all the others is the least one. -/
theorem minByKey_of_least (ha : a ∈ l) (h : ∀ b ∈ l, b ≠ a → key a < key b) :
    minByKey key l = some a := by
  obtain ⟨before, after, rfl, hbefore⟩ := List.eq_append_cons_of_mem ha
  refine minByKey_eq_some_iff.mpr ⟨before, after, rfl, ?_, ?_⟩
  · intro b hb
    apply h b (List.mem_append_left _ hb)
    rintro rfl
    exact hbefore hb
  · intro b hb
    by_cases hsame : b = a
    · exact Nat.le_of_eq (congrArg key hsame.symm)
    · exact Nat.le_of_lt
        (h b (List.mem_append_right _ (List.mem_cons_of_mem a hb)) hsame)

/-- An element above all the others is the greatest one. -/
theorem maxByKey_of_greatest (ha : a ∈ l) (h : ∀ b ∈ l, b ≠ a → key b < key a) :
    maxByKey key l = some a := by
  induction l with
  | nil => cases ha
  | cons first rest ih =>
      obtain ⟨hfirst, hrest⟩ := List.forall_mem_cons.mp h
      rw [maxByKey]
      by_cases hmem : a ∈ rest
      · rw [ih hmem hrest]
        by_cases hsame : first = a
        · rw [hsame]
          exact ite_self _
        · exact if_neg (Nat.lt_asymm (hfirst hsame))
      · obtain rfl := (List.mem_cons.mp ha).resolve_right hmem
        split
        · rename_i other hother
          have hother := mem_of_maxByKey hother
          refine if_pos (hrest other hother ?_)
          rintro rfl
          exact hmem hother
        · rfl

/-! ## The best so far -/

section Challenge

variable {K : Type*} [LinearOrder K] (score : α → K)

/-- The best so far and its score, after one more element. -/
def challenge (best : Option (α × K)) (a : α) : Option (α × K) :=
  match best with
  | some (_, highest) => if score a ≤ highest then best else some (a, score a)
  | none => some (a, score a)

variable {score} {best : α × K}

/-- From a best so far on, the scan ends with an element of at least its score. -/
theorem foldl_challenge_some (hbest : best.2 = score best.1) :
    ∃ a, l.foldl (challenge score) (some best) = some (a, score a) ∧
      (a = best.1 ∨ a ∈ l) ∧ score best.1 ≤ score a ∧ ∀ b ∈ l, score b ≤ score a := by
  induction l generalizing best with
  | nil =>
      refine ⟨best.1, ?_, Or.inl rfl, le_rfl, List.forall_mem_nil _⟩
      rw [List.foldl_nil, ← hbest]
  | cons first rest ih =>
      rw [List.foldl_cons, challenge]
      split_ifs with hle
      · obtain ⟨a, hfold, hmem, hhigher, hgreatest⟩ := ih hbest
        have hfirst : score first ≤ score a := (hle.trans hbest.le).trans hhigher
        exact ⟨a, hfold, hmem.imp_right (List.mem_cons_of_mem first), hhigher,
          List.forall_mem_cons.mpr ⟨hfirst, hgreatest⟩⟩
      · obtain ⟨a, hfold, hmem, hhigher, hgreatest⟩ := @ih (first, score first) rfl
        have hbelow : score best.1 ≤ score first := hbest.symm.le.trans (le_of_not_ge hle)
        have hin : a ∈ first :: rest := by
          rcases hmem with rfl | hmem
          · exact List.mem_cons_self
          · exact List.mem_cons_of_mem first hmem
        exact ⟨a, hfold, Or.inr hin, hbelow.trans hhigher,
          List.forall_mem_cons.mpr ⟨hhigher, hgreatest⟩⟩

/-- **The scan ends with an element of the highest score**, unless there is none. -/
theorem foldl_challenge (h : l ≠ []) :
    ∃ a ∈ l, l.foldl (challenge score) none = some (a, score a) ∧
      ∀ b ∈ l, score b ≤ score a := by
  cases l with
  | nil => exact absurd rfl h
  | cons first rest =>
      obtain ⟨a, hfold, hmem, hhigher, hgreatest⟩ :=
        @foldl_challenge_some _ rest _ _ score (first, score first) rfl
      refine ⟨a, ?_, hfold, List.forall_mem_cons.mpr ⟨hhigher, hgreatest⟩⟩
      rcases hmem with rfl | hmem
      · exact List.mem_cons_self
      · exact List.mem_cons_of_mem first hmem

end Challenge

end Selection
