/-
# Lists of half-open ranges that tile an interval

A scheduler that hands out a contiguous resource piece by piece produces a list
of half-open ranges. The list is *right* when the ranges are nonempty, each
starts where the one before it stopped, and together they run from one end of
the resource to the other. `Tiles` states this once, by recursion on the list,
and the lemmas below read off what callers want: every point lies in exactly one
range, the ranges concatenate to the whole interval in increasing order, and
only the last range reaches the far end.
-/

import Mathlib.Data.List.Basic
import Mathlib.Data.List.Range

namespace IntervalTiling

/-- A half-open range `start..stop` of natural numbers. Nothing forces
`start ≤ stop`: an inverted range is simply empty. -/
structure Range where
  start : ℕ
  stop : ℕ
  deriving DecidableEq, Repr

namespace Range

/-- The points of a range in increasing order. -/
def toList (r : Range) : List ℕ := List.range' r.start (r.stop - r.start)

/-- The number of points of a range. -/
def size (r : Range) : ℕ := r.stop - r.start

/-- Point membership. -/
def Contains (r : Range) (n : ℕ) : Prop := r.start ≤ n ∧ n < r.stop

instance (r : Range) (n : ℕ) : Decidable (r.Contains n) :=
  inferInstanceAs (Decidable (_ ∧ _))

/-- Two ranges share no point. -/
def Disjoint (r s : Range) : Prop := ∀ n, ¬ (r.Contains n ∧ s.Contains n)

/-- Ranges that do not reach into each other are disjoint. -/
theorem disjoint_of_stop_le {r s : Range} (h : r.stop ≤ s.start) : r.Disjoint s := by
  rintro n ⟨⟨_, hr⟩, ⟨hs, _⟩⟩
  omega

end Range

/-- `Tiles a rs b`: the ranges `rs` are nonempty, consecutive, and run from `a`
to `b`. -/
def Tiles : ℕ → List Range → ℕ → Prop
  | a, [], b => a = b
  | a, r :: rs, b => r.start = a ∧ r.start < r.stop ∧ Tiles r.stop rs b

instance : ∀ (a : ℕ) (rs : List Range) (b : ℕ), Decidable (Tiles a rs b)
  | a, [], b => inferInstanceAs (Decidable (a = b))
  | _, r :: rs, b =>
      have : Decidable (Tiles r.stop rs b) := instDecidableTiles r.stop rs b
      inferInstanceAs (Decidable (_ ∧ _ ∧ _))

@[simp]
theorem tiles_nil {a b : ℕ} : Tiles a [] b ↔ a = b := Iff.rfl

@[simp]
theorem tiles_cons {a b : ℕ} {r : Range} {rs : List Range} :
    Tiles a (r :: rs) b ↔ r.start = a ∧ r.start < r.stop ∧ Tiles r.stop rs b :=
  Iff.rfl

/-- A tiling never runs backwards. -/
theorem Tiles.le {a b : ℕ} {rs : List Range} (h : Tiles a rs b) : a ≤ b := by
  induction rs generalizing a with
  | nil => exact le_of_eq h
  | cons r rs ih =>
      obtain ⟨rfl, hlt, hrest⟩ := h
      exact le_trans hlt.le (ih hrest)

/-- Only the empty interval is tiled by no range. -/
theorem Tiles.ne_nil {a b : ℕ} {rs : List Range} (h : Tiles a rs b) (hlt : a < b) :
    rs ≠ [] := by
  rintro rfl
  exact absurd h hlt.ne

/-- The first range starts at the near end. -/
theorem Tiles.head_start {a b : ℕ} {r : Range} {rs : List Range}
    (h : Tiles a (r :: rs) b) : r.start = a := h.1

/-- Every range of a tiling is nonempty and stays inside the interval. -/
theorem Tiles.bounds {a b : ℕ} {rs : List Range} (h : Tiles a rs b)
    {r : Range} (hr : r ∈ rs) : a ≤ r.start ∧ r.start < r.stop ∧ r.stop ≤ b := by
  induction rs generalizing a with
  | nil => simp at hr
  | cons head rs ih =>
      obtain ⟨rfl, hlt, hrest⟩ := h
      rcases List.mem_cons.mp hr with rfl | hr
      · exact ⟨le_rfl, hlt, hrest.le⟩
      · obtain ⟨hstart, hne, hstop⟩ := ih hrest hr
        exact ⟨by omega, hne, hstop⟩

/-- Earlier ranges stop before later ones start. -/
theorem Tiles.pairwise {a b : ℕ} {rs : List Range} (h : Tiles a rs b) :
    rs.Pairwise (fun r s => r.stop ≤ s.start) := by
  induction rs generalizing a with
  | nil => exact List.Pairwise.nil
  | cons r rs ih =>
      obtain ⟨rfl, _, hrest⟩ := h
      exact List.pairwise_cons.mpr ⟨fun s hs => (hrest.bounds hs).1, ih hrest⟩

/-- A tiling covers exactly the points of its interval. -/
theorem Tiles.covers {a b : ℕ} {rs : List Range} (h : Tiles a rs b) (n : ℕ) :
    (∃ r ∈ rs, r.Contains n) ↔ a ≤ n ∧ n < b := by
  induction rs generalizing a with
  | nil =>
      simp only [tiles_nil] at h
      subst h
      simp only [List.not_mem_nil, false_and, exists_false, false_iff]
      omega
  | cons r rs ih =>
      obtain ⟨rfl, hlt, hrest⟩ := h
      have hle := hrest.le
      simp only [List.mem_cons, exists_eq_or_imp]
      rw [ih hrest, Range.Contains]
      omega

/-- Earlier ranges start before later ones. -/
theorem Tiles.pairwise_start {a b : ℕ} {rs : List Range} (h : Tiles a rs b) :
    rs.Pairwise (fun r s => r.start < s.start) := by
  apply List.Pairwise.imp_of_mem _ h.pairwise
  intro r s hr _ hle
  exact lt_of_lt_of_le (h.bounds hr).2.1 hle

/-- Every range but the one at the far end is followed by one that starts where it stops. -/
theorem Tiles.exists_start_eq_stop {a b : ℕ} {rs : List Range} (h : Tiles a rs b)
    {r : Range} (hr : r ∈ rs) (hlt : r.stop < b) : ∃ s ∈ rs, s.start = r.stop := by
  induction rs generalizing a with
  | nil => exact absurd hr List.not_mem_nil
  | cons head rs ih =>
      obtain ⟨-, -, hrest⟩ := h
      rcases List.mem_cons.mp hr with rfl | hr
      · obtain ⟨s, rest, rfl⟩ := List.exists_cons_of_ne_nil (hrest.ne_nil hlt)
        exact ⟨s, List.mem_cons_of_mem _ List.mem_cons_self, hrest.head_start⟩
      · obtain ⟨s, hs, hstart⟩ := ih hrest hr
        exact ⟨s, List.mem_cons_of_mem _ hs, hstart⟩

/-- Neighbouring ranges meet. -/
theorem Tiles.start_getElem_succ {a b : ℕ} {rs : List Range} (h : Tiles a rs b)
    {k : ℕ} (hk : k + 1 < rs.length) : rs[k + 1].start = rs[k].stop := by
  induction rs generalizing a k with
  | nil => exact absurd hk (Nat.not_lt_zero _)
  | cons r rs ih =>
      obtain ⟨-, -, hrest⟩ := h
      cases k with
      | succ k => exact ih hrest (Nat.lt_of_succ_lt_succ hk)
      | zero =>
          match rs, hrest with
          | s :: rest, hrest => exact hrest.head_start

/-- Reading a tiling range by range reads the whole interval once, in
increasing order. -/
theorem Tiles.flatMap_toList {a b : ℕ} {rs : List Range} (h : Tiles a rs b) :
    rs.flatMap Range.toList = List.range' a (b - a) := by
  induction rs generalizing a with
  | nil =>
      simp only [tiles_nil] at h
      subst h
      simp
  | cons r rs ih =>
      obtain ⟨rfl, hlt, hrest⟩ := h
      have hle := hrest.le
      rw [List.flatMap_cons, ih hrest, Range.toList]
      have hsplit : b - r.start = (r.stop - r.start) + (b - r.stop) := by omega
      have hstop : r.stop = r.start + (r.stop - r.start) := by omega
      rw [hsplit, ← List.range'_append_1, ← hstop]

/-- A tiling of `0..b` reads `0, 1, …, b - 1`. -/
theorem Tiles.flatMap_toList_zero {b : ℕ} {rs : List Range} (h : Tiles 0 rs b) :
    rs.flatMap Range.toList = List.range b := by
  rw [h.flatMap_toList, Nat.sub_zero, List.range_eq_range']

/-- Exactly the last range reaches the far end. -/
theorem Tiles.stop_eq_iff {a b : ℕ} {rs : List Range} (h : Tiles a rs b)
    {k : ℕ} (hk : k < rs.length) : rs[k].stop = b ↔ k + 1 = rs.length := by
  induction rs generalizing a k with
  | nil => simp at hk
  | cons r rs ih =>
      obtain ⟨_, _, hrest⟩ := h
      cases k with
      | succ k => simpa using ih hrest (by simpa using hk)
      | zero =>
          cases rs with
          | nil => simpa using hrest
          | cons s rs =>
              have hs := hrest.bounds (List.mem_cons_self (a := s) (l := rs))
              simp only [List.getElem_cons_zero, List.length_cons]
              omega

end IntervalTiling
