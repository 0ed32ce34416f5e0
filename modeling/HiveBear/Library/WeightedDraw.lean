/-
# Drawing from a list of weights

`upTo` takes elements from the front of a list until their weights reach a bound. `draw` takes a
number that is at most the mass of a list and subtracts one weight after another: the element at
which nothing is left is drawn. So every element is drawn on an interval of numbers that is as long
as its weight is large, and the intervals of a list lie behind one another.
-/

import Mathlib.Algebra.Order.BigOperators.Group.List
import Mathlib.Algebra.Order.Group.Unbundled.Basic
import Mathlib.Data.List.Basic

namespace WeightedDraw

/-- An element of a list is its first one, or stands behind that. -/
theorem exists_split_cons_iff {β : Type*} {c d : β} {l : List β} {P : List β → Prop} :
    (∃ before after, d :: l = before ++ c :: after ∧ P before) ↔
      (d = c ∧ P []) ∨ ∃ before after, l = before ++ c :: after ∧ P (d :: before) := by
  constructor
  · rintro ⟨before, after, hsplit, hP⟩
    cases before with
    | nil => exact Or.inl ⟨(List.cons.inj hsplit).1, hP⟩
    | cons e before =>
        obtain ⟨rfl, rfl⟩ := List.cons.inj hsplit
        exact Or.inr ⟨before, after, rfl, hP⟩
  · rintro (⟨rfl, hP⟩ | ⟨before, after, rfl, hP⟩)
    · exact ⟨[], l, rfl, hP⟩
    · exact ⟨d :: before, after, rfl, hP⟩

variable {α K : Type*} [AddCommGroup K] [LinearOrder K]

/-- The sum of the weights. -/
def mass (l : List (α × K)) : K := (l.map Prod.snd).sum

/-- The elements that are taken until a sum, which begins with what is given, reaches the bound. -/
def upTo (bound : K) : K → List (α × K) → List (α × K)
  | _, [] => []
  | sum, c :: l => c :: if bound ≤ sum + c.2 then [] else upTo bound (sum + c.2) l

/-- The element at which nothing is left, if there is one. -/
def draw : K → List (α × K) → Option (α × K)
  | _, [] => none
  | left, c :: l => if left - c.2 ≤ 0 then some c else draw (left - c.2) l

omit [LinearOrder K] in
@[simp]
theorem mass_nil : mass ([] : List (α × K)) = 0 := rfl

omit [LinearOrder K] in
@[simp]
theorem mass_cons (c : α × K) (l : List (α × K)) : mass (c :: l) = c.2 + mass l := by
  rw [mass, List.map_cons, List.sum_cons, mass]

omit [LinearOrder K] in
theorem mass_append (l l' : List (α × K)) : mass (l ++ l') = mass l + mass l' := by
  rw [mass, List.map_append, List.sum_append, mass, mass]

variable {bound sum left : K} {c : α × K} {l : List (α × K)}

/-! ## What is taken -/

theorem upTo_isPrefix : upTo bound sum l <+: l := by
  induction l generalizing sum with
  | nil => exact List.prefix_rfl
  | cons c l ih =>
      rw [upTo, List.cons_prefix_cons]
      refine ⟨rfl, ?_⟩
      split_ifs
      · exact List.nil_prefix
      · exact ih

/-- If the bound can be reached, it is. -/
theorem le_mass_upTo (h : bound ≤ sum + mass l) : bound ≤ sum + mass (upTo bound sum l) := by
  induction l generalizing sum with
  | nil => exact h
  | cons c l ih =>
      rw [mass_cons, ← add_assoc] at h
      rw [upTo, mass_cons, ← add_assoc]
      split_ifs with hreached
      · rwa [mass_nil, add_zero]
      · exact ih h

/-- Less is not enough. -/
theorem mass_lt_of_prefix_upTo (hsum : sum < bound) {shorter : List (α × K)}
    (hfront : shorter <+: upTo bound sum l) (hne : shorter ≠ upTo bound sum l) :
    sum + mass shorter < bound := by
  induction l generalizing sum shorter with
  | nil => exact absurd (List.prefix_nil.mp hfront) hne
  | cons c l ih =>
      rw [upTo] at hfront hne
      cases shorter with
      | nil => rwa [mass_nil, add_zero]
      | cons d shorter =>
          obtain ⟨rfl, hrest⟩ := List.cons_prefix_cons.mp hfront
          have hne' := fun h => hne (congrArg (d :: ·) h)
          split_ifs at hrest hne' with hreached
          · exact absurd (List.prefix_nil.mp hrest) hne'
          · rw [mass_cons, ← add_assoc]
            exact ih (not_le.mp hreached) hrest hne'

/-! ## What is drawn -/

variable [IsOrderedAddMonoid K]

theorem mass_nonneg (hweights : ∀ c ∈ l, 0 ≤ c.2) : 0 ≤ mass l := by
  refine List.sum_nonneg fun weight hweight => ?_
  obtain ⟨c, hc, rfl⟩ := List.mem_map.mp hweight
  exact hweights c hc

/-- Behind an element that is passed over, the intervals are moved by its weight. -/
theorem interval_cons_iff {d : α × K} {before : List (α × K)} (hpassed : d.2 < left) :
    ((d :: before ≠ [] → mass (d :: before) < left) ∧ left ≤ mass (d :: before) + c.2) ↔
      (before ≠ [] → mass before < left - d.2) ∧ left - d.2 ≤ mass before + c.2 := by
  rw [mass_cons, add_assoc, ← sub_le_iff_le_add', lt_sub_iff_add_lt']
  refine and_congr_left' ⟨fun h _ => h (List.cons_ne_nil _ _), fun h _ => ?_⟩
  by_cases hnil : before = []
  · rwa [hnil, mass_nil, add_zero]
  · exact h hnil

/-- **An element is drawn** just for the numbers above the mass in front of it, up to its own weight
more; the first one is also drawn for what is less. -/
theorem draw_eq_some_iff (hweights : ∀ c ∈ l, 0 ≤ c.2) :
    draw left l = some c ↔ ∃ before after, l = before ++ c :: after ∧
      (before ≠ [] → mass before < left) ∧ left ≤ mass before + c.2 := by
  induction l generalizing left with
  | nil => simp [draw]
  | cons d l ih =>
      obtain ⟨hd, hl⟩ := List.forall_mem_cons.mp hweights
      simp only [draw, sub_nonpos]
      rw [exists_split_cons_iff]
      split_ifs with hfirst
      · constructor
        · rintro ⟨⟩
          exact Or.inl ⟨rfl, absurd rfl, by rwa [mass_nil, zero_add]⟩
        · rintro (⟨rfl, -⟩ | ⟨before, after, rfl, hbelow, -⟩)
          · rfl
          · have hbefore : 0 ≤ mass before :=
              mass_nonneg fun c hc => hl c (List.mem_append_left _ hc)
            have habove := hbelow (List.cons_ne_nil _ _)
            rw [mass_cons] at habove
            exact absurd (habove.trans_le hfirst) (not_lt.mpr (le_add_of_nonneg_right hbefore))
      · rw [ih hl, or_iff_right]
        · simp only [interval_cons_iff (not_le.mp hfirst)]
        · rintro ⟨rfl, -, habove⟩
          rw [mass_nil, zero_add] at habove
          exact hfirst habove

/-- The numbers for which an element of a list without repetition is drawn. -/
theorem draw_split_iff {before after : List (α × K)} (hnodup : (before ++ c :: after).Nodup)
    (hweights : ∀ d ∈ before ++ c :: after, 0 ≤ d.2) :
    draw left (before ++ c :: after) = some c ↔
      (before ≠ [] → mass before < left) ∧ left ≤ mass before + c.2 := by
  rw [draw_eq_some_iff hweights]
  constructor
  · rintro ⟨before', after', hsplit, hinterval⟩
    have hbefore : c ∉ before := fun hc =>
      (List.nodup_append.mp hnodup).2.2 c hc c List.mem_cons_self rfl
    have hafter : c ∉ after := (List.nodup_cons.mp (List.nodup_append.mp hnodup).2.1).1
    obtain ⟨rfl, -⟩ := (List.append_cons_inj_of_notMem hbefore hafter).mp hsplit
    exact hinterval
  · exact fun hinterval => ⟨before, after, rfl, hinterval⟩

/-- Up to the mass of a list, an element is drawn. -/
theorem exists_draw (hne : l ≠ []) (hleft : left ≤ mass l) : ∃ c ∈ l, draw left l = some c := by
  induction l generalizing left with
  | nil => exact absurd rfl hne
  | cons d l ih =>
      simp only [draw, sub_nonpos]
      split_ifs with hfirst
      · exact ⟨d, List.mem_cons_self, rfl⟩
      · rw [mass_cons] at hleft
        have hrest : left - d.2 ≤ mass l := sub_le_iff_le_add'.mpr hleft
        have hne : l ≠ [] := by
          rintro rfl
          exact hfirst (sub_nonpos.mp hrest)
        obtain ⟨c, hc, hdraw⟩ := ih hne hrest
        exact ⟨c, List.mem_cons_of_mem d hc, hdraw⟩

end WeightedDraw
