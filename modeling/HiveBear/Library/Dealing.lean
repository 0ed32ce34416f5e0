/-
# Dealing an interval out to a list of claimants

A common allocation loop walks a list of claimants with a cursor. Each claimant
states a demand and receives the next stretch of the interval, cut down to what
is left; the last claimant takes the remainder whatever it asked for. The loop
stops early once the interval is used up, and a claimant whose share is zero is
passed over.

`deal` is that loop. The results say what it always guarantees, namely that the
stretches tile the interval and go to a sublist of the claimants, and exactly
when it does more: when nobody is passed over, when at least two claimants are
served, and when no stretch is shorter than a given bound. The exact conditions
speak only of the prefix sums of the demands.

`fill` is the loop for rooms of limited size: each room takes as many of the items that are left
as fit. Nothing is lost on the way, and items are left over only if every room is full.
-/

import HiveBear.Library.Tiling
import Mathlib.Algebra.BigOperators.Group.List.Basic
import Mathlib.Algebra.GroupWithZero.Nat
import Mathlib.Algebra.Order.Group.Nat
import Mathlib.Data.Nat.Notation

namespace IntervalTiling

variable {α : Type*}

/-- The dealing loop, from `cursor` up to `total`. -/
def deal (demand : α → ℕ) (total : ℕ) : ℕ → List α → List (α × Range)
  | _, [] => []
  | cursor, p :: rest =>
      if total ≤ cursor then []
      else
        let share :=
          if rest.isEmpty then total - cursor else min (demand p) (total - cursor)
        if share = 0 then deal demand total cursor rest
        else (p, ⟨cursor, cursor + share⟩) :: deal demand total (cursor + share) rest

variable {demand : α → ℕ} {total cursor : ℕ}

/-- Once the interval is used up nobody receives anything. -/
theorem deal_of_le (h : total ≤ cursor) (ps : List α) :
    deal demand total cursor ps = [] := by
  cases ps with
  | nil => rfl
  | cons p rest => simp [deal, h]

/-- The last claimant takes what is left. -/
theorem deal_singleton_of_lt (h : cursor < total) (p : α) :
    deal demand total cursor [p] = [(p, ⟨cursor, total⟩)] := by
  have hne : total - cursor ≠ 0 := by omega
  have hstop : cursor + (total - cursor) = total := by omega
  simp [deal, Nat.not_le.mpr h, hne, hstop]

/-- A claimant with a successor takes its demand, cut down to what is left. -/
theorem deal_cons_cons_of_lt (h : cursor < total) (p q : α) (rest : List α) :
    deal demand total cursor (p :: q :: rest) =
      if demand p = 0 then deal demand total cursor (q :: rest)
      else (p, ⟨cursor, cursor + min (demand p) (total - cursor)⟩) ::
        deal demand total (cursor + min (demand p) (total - cursor)) (q :: rest) := by
  have hzero : min (demand p) (total - cursor) = 0 ↔ demand p = 0 := by omega
  rw [deal, if_neg (Nat.not_le.mpr h)]
  simp only [List.isEmpty_cons, Bool.false_eq_true, if_false, hzero]

/-- Whatever the demands, the stretches tile the interval. -/
theorem deal_tiles {ps : List α} (hne : ps ≠ []) (hle : cursor ≤ total) :
    Tiles cursor ((deal demand total cursor ps).map Prod.snd) total := by
  induction ps generalizing cursor with
  | nil => exact absurd rfl hne
  | cons p rest ih =>
      rcases hle.eq_or_lt with rfl | hlt
      · rw [deal_of_le le_rfl]
        exact rfl
      cases rest with
      | nil => simpa [deal_singleton_of_lt hlt] using hlt
      | cons q rest =>
          rw [deal_cons_cons_of_lt hlt]
          split
          · exact ih (List.cons_ne_nil _ _) hle
          · refine ⟨rfl, ?_, ih (List.cons_ne_nil _ _) ?_⟩ <;> simp only <;> omega

/-- The stretches go to claimants of the list, in the order of the list. -/
theorem deal_sublist (demand : α → ℕ) (total cursor : ℕ) (ps : List α) :
    ((deal demand total cursor ps).map Prod.fst).Sublist ps := by
  induction ps generalizing cursor with
  | nil => exact List.Sublist.refl []
  | cons p rest ih =>
      rw [deal]
      split
      · exact List.nil_sublist _
      · dsimp only
        generalize (if rest.isEmpty = true then total - cursor
          else min (demand p) (total - cursor)) = share
        split
        · exact (ih cursor).cons p
        · exact (ih _).cons_cons p

/-- Something is dealt exactly when something is left to deal. -/
theorem deal_eq_nil_iff {ps : List α} (hne : ps ≠ []) :
    deal demand total cursor ps = [] ↔ total ≤ cursor := by
  refine ⟨fun hnil => ?_, fun hle => deal_of_le hle ps⟩
  by_contra hlt
  have htiles : Tiles cursor ((deal demand total cursor ps).map Prod.snd) total :=
    deal_tiles hne (Nat.not_le.mp hlt).le
  rw [hnil] at htiles
  exact hlt (le_of_eq htiles.symm)

/-- The sum of the first `k` demands. -/
def prefixDemand (demand : α → ℕ) (ps : List α) (k : ℕ) : ℕ :=
  ((ps.take k).map demand).sum

@[simp]
theorem prefixDemand_zero (demand : α → ℕ) (ps : List α) :
    prefixDemand demand ps 0 = 0 := by
  simp [prefixDemand]

@[simp]
theorem prefixDemand_succ (demand : α → ℕ) (p : α) (ps : List α) (k : ℕ) :
    prefixDemand demand (p :: ps) (k + 1) = demand p + prefixDemand demand ps k := by
  simp [prefixDemand]

/-- A prefix is empty, or has the first claimant and a prefix of the others. -/
theorem exists_prefixDemand_cons {P : ℕ → Prop} {p : α} {ps : List α} :
    (∃ k < (p :: ps).length, P (prefixDemand demand (p :: ps) k)) ↔
      P 0 ∨ ∃ k < ps.length, P (demand p + prefixDemand demand ps k) := by
  constructor
  · rintro ⟨k, hk, h⟩
    cases k with
    | zero => exact Or.inl (by simpa using h)
    | succ k => exact Or.inr ⟨k, Nat.lt_of_succ_lt_succ hk, by simpa using h⟩
  · rintro (h | ⟨k, hk, h⟩)
    · exact ⟨0, Nat.succ_pos _, by simpa using h⟩
    · exact ⟨k + 1, Nat.succ_lt_succ hk, by simpa using h⟩

theorem forall_prefixDemand_cons {P : ℕ → Prop} {p : α} {ps : List α} :
    (∀ k < (p :: ps).length, P (prefixDemand demand (p :: ps) k)) ↔
      P 0 ∧ ∀ k < ps.length, P (demand p + prefixDemand demand ps k) := by
  have h := not_congr (@exists_prefixDemand_cons _ demand (fun d => ¬ P d) p ps)
  simpa only [not_or, not_exists, not_and, not_not] using h

/-- The claimants that the demands before them leave something to. A demand of zero is passed over,
unless it is the last one. -/
def reached (demand : α → ℕ) (total cursor : ℕ) (ps : List α) : List α :=
  (ps.zipIdx.filter fun x =>
    decide (cursor + prefixDemand demand ps x.2 < total ∧
      (0 < demand x.1 ∨ x.2 + 1 = ps.length))).map Prod.fst

/-- Behind the first claimant everything is reached with the cursor moved on. -/
theorem reached_cons (demand : α → ℕ) (total cursor : ℕ) (p : α) (rest : List α) :
    reached demand total cursor (p :: rest) =
      if cursor < total ∧ (0 < demand p ∨ rest = []) then
        p :: reached demand total (cursor + demand p) rest
      else reached demand total (cursor + demand p) rest := by
  have hrest : ∀ x : α × ℕ,
      decide (cursor + prefixDemand demand (p :: rest) (x.2 + 1) < total ∧
          (0 < demand x.1 ∨ x.2 + 1 + 1 = (p :: rest).length)) =
        decide (cursor + demand p + prefixDemand demand rest x.2 < total ∧
          (0 < demand x.1 ∨ x.2 + 1 = rest.length)) := by
    intro x
    rw [decide_eq_decide, prefixDemand_succ, List.length_cons, ← Nat.add_assoc, Nat.succ_inj]
  rw [reached, List.zipIdx_cons', List.filter_cons]
  simp only [prefixDemand_zero, Nat.add_zero, decide_eq_true_eq, List.length_cons,
    Nat.right_eq_add, Nat.zero_add, List.length_eq_zero_iff]
  have htail : ((rest.zipIdx.map (Prod.map id (· + 1))).filter fun x =>
        decide (cursor + prefixDemand demand (p :: rest) x.2 < total ∧
          (0 < demand x.1 ∨ x.2 + 1 = rest.length + 1))).map Prod.fst =
      reached demand total (cursor + demand p) rest := by
    rw [List.filter_map, List.map_map]
    apply congrArg (List.map Prod.fst)
    apply List.filter_congr
    exact fun x _ => hrest x
  split
  · rw [List.map_cons, htail]
  · exact htail

/-- Behind the end of the interval nobody is reached. -/
theorem reached_of_le (h : total ≤ cursor) (ps : List α) : reached demand total cursor ps = [] := by
  induction ps generalizing cursor with
  | nil => rfl
  | cons p rest ih =>
      rw [reached_cons, if_neg fun hp => absurd hp.1 (Nat.not_lt.mpr h)]
      exact ih (le_trans h (Nat.le_add_right _ _))

/-- Those who are served are those who are reached. -/
theorem deal_map_fst_eq_reached (demand : α → ℕ) (total cursor : ℕ) (ps : List α) :
    (deal demand total cursor ps).map Prod.fst = reached demand total cursor ps := by
  induction ps generalizing cursor with
  | nil => rfl
  | cons p rest ih =>
      by_cases hlt : cursor < total
      swap
      · rw [deal_of_le (Nat.not_lt.mp hlt), reached_of_le (Nat.not_lt.mp hlt)]
        rfl
      cases rest with
      | nil =>
          rw [deal_singleton_of_lt hlt, reached_cons, if_pos ⟨hlt, Or.inr rfl⟩]
          rfl
      | cons q rest =>
          rw [deal_cons_cons_of_lt hlt, reached_cons]
          split
          · rename_i hzero
            rw [if_neg (by simp [hzero]), hzero, ih]
            rfl
          · rename_i hnonzero
            rw [if_pos ⟨hlt, Or.inl (Nat.pos_of_ne_zero hnonzero)⟩, List.map_cons, ih]
            apply congrArg (List.cons p)
            by_cases hfits : demand p ≤ total - cursor
            · rw [Nat.min_eq_left hfits]
            · -- the interval ends with this claimant
              rw [Nat.min_eq_right (Nat.not_le.mp hfits).le, reached_of_le, reached_of_le]
              · omega
              · omega

/-- With positive demands, nobody is passed over exactly when all but the last
claimant leave something over. -/
theorem deal_map_fst_eq_iff (demand : α → ℕ) (total cursor : ℕ) {ps : List α} (hne : ps ≠ [])
    (hpos : ∀ p ∈ ps, 0 < demand p) :
    (deal demand total cursor ps).map Prod.fst = ps ↔
      cursor + prefixDemand demand ps (ps.length - 1) < total := by
  induction ps generalizing cursor with
  | nil => exact absurd rfl hne
  | cons p rest ih =>
      by_cases hlt : cursor < total
      swap
      · rw [deal_of_le (Nat.not_lt.mp hlt)]
        simp only [List.map_nil, List.nil_eq, List.cons_ne_nil, false_iff]
        omega
      cases rest with
      | nil => simpa [deal_singleton_of_lt hlt] using hlt
      | cons q rest =>
          have hp : 0 < demand p := hpos p (List.mem_cons_self ..)
          rw [deal_cons_cons_of_lt hlt, if_neg hp.ne', List.map_cons, List.cons.injEq,
            ih _ (List.cons_ne_nil _ _) fun r hr => hpos r (List.mem_cons_of_mem _ hr)]
          simp only [true_and, List.length_cons, Nat.add_sub_cancel, prefixDemand_succ]
          omega

/-- At least two claimants are served exactly when some prefix of the demands,
the last claimant excluded, ends strictly inside the interval. -/
theorem two_le_length_deal_iff (demand : α → ℕ) (total cursor : ℕ) {ps : List α}
    (hne : ps ≠ []) :
    2 ≤ (deal demand total cursor ps).length ↔
      ∃ k < ps.length, 0 < prefixDemand demand ps k ∧
        cursor + prefixDemand demand ps k < total := by
  induction ps generalizing cursor with
  | nil => exact absurd rfl hne
  | cons p rest ih =>
      by_cases hlt : cursor < total
      swap
      · rw [deal_of_le (Nat.not_lt.mp hlt)]
        constructor
        · intro h
          simp at h
        · rintro ⟨k, _, _, hk⟩
          omega
      cases rest with
      | nil => simp [deal_singleton_of_lt hlt]
      | cons q rest =>
          have hsplit := @exists_prefixDemand_cons _ demand
            (fun d => 0 < d ∧ cursor + d < total) p (q :: rest)
          rw [deal_cons_cons_of_lt hlt]
          split
          · -- a zero demand moves neither the cursor nor any prefix sum
            rename_i hzero
            rw [ih _ (List.cons_ne_nil _ _), hsplit, hzero]
            simp only [Nat.zero_add, lt_irrefl, false_and, false_or]
          · rename_i hnonzero
            have hrest :
                deal demand total (cursor + min (demand p) (total - cursor)) (q :: rest) = [] ↔
                  total ≤ cursor + min (demand p) (total - cursor) :=
              deal_eq_nil_iff (List.cons_ne_nil q rest)
            have hserved : 2 ≤ ((p, (⟨cursor, cursor + min (demand p) (total - cursor)⟩ : Range)) ::
                  deal demand total (cursor + min (demand p) (total - cursor))
                    (q :: rest)).length ↔ cursor + demand p < total := by
              rw [List.length_cons, Nat.succ_le_succ_iff, Nat.one_le_iff_ne_zero, ne_eq,
                List.length_eq_zero_iff, hrest]
              omega
            rw [hserved, hsplit]
            constructor
            · intro hinside
              refine Or.inr ⟨0, Nat.succ_pos _, ?_⟩
              rw [prefixDemand_zero]
              exact ⟨Nat.pos_of_ne_zero hnonzero, hinside⟩
            · rintro (⟨hnone, -⟩ | ⟨k, -, -, hinside⟩)
              · exact absurd hnone (lt_irrefl 0)
              · omega

/-- If every demand is at least `bound`, then every stretch is at least that
long exactly when no prefix of the demands, the last claimant excluded, stops
short of the end by less than `bound`. -/
theorem le_size_deal_iff (demand : α → ℕ) (total cursor : ℕ) {ps : List α} {bound : ℕ}
    (hne : ps ≠ [])
    (hbound : ∀ p ∈ ps, bound ≤ demand p) :
    (∀ x ∈ deal demand total cursor ps, bound ≤ x.2.size) ↔
      ∀ k < ps.length, cursor + prefixDemand demand ps k < total →
        cursor + prefixDemand demand ps k + bound ≤ total := by
  induction ps generalizing cursor with
  | nil => exact absurd rfl hne
  | cons p rest ih =>
      by_cases hlt : cursor < total
      swap
      · rw [deal_of_le (Nat.not_lt.mp hlt)]
        simp only [List.not_mem_nil, false_implies, implies_true, true_iff]
        intro k _ hk
        omega
      cases rest with
      | nil =>
          simp only [deal_singleton_of_lt hlt, List.mem_singleton, forall_eq, Range.size,
            List.length_singleton, Nat.lt_one_iff, prefixDemand_zero]
          omega
      | cons q rest =>
          have hp : bound ≤ demand p := hbound p (List.mem_cons_self ..)
          have hrest := fun c => ih c (List.cons_ne_nil q rest)
            fun r hr => hbound r (List.mem_cons_of_mem _ hr)
          have hshift : (∀ k < (p :: q :: rest).length,
                cursor + prefixDemand demand (p :: q :: rest) k < total →
                  cursor + prefixDemand demand (p :: q :: rest) k + bound ≤ total) ↔
              cursor + bound ≤ total ∧ ∀ k < (q :: rest).length,
                cursor + demand p + prefixDemand demand (q :: rest) k < total →
                  cursor + demand p + prefixDemand demand (q :: rest) k + bound ≤ total := by
            rw [@forall_prefixDemand_cons _ demand
              (fun d => cursor + d < total → cursor + d + bound ≤ total)]
            simp only [Nat.add_zero, hlt, true_implies, Nat.add_assoc]
          rw [hshift, deal_cons_cons_of_lt hlt]
          split
          · rename_i hzero
            have hbound_zero : bound = 0 := by omega
            rw [hrest, hzero, hbound_zero]
            simp only [Nat.add_zero, hlt.le, true_and]
          · rw [List.forall_mem_cons, hrest]
            simp only [Range.size, Nat.add_sub_cancel_left]
            by_cases hfits : demand p ≤ total - cursor
            · -- the demand is met in full, so the cut is not here
              rw [Nat.min_eq_left hfits]
              exact and_congr_left fun _ => ⟨fun _ => by omega, fun _ => hp⟩
            · -- the interval ends with this claimant
              rw [Nat.min_eq_right (Nat.not_le.mp hfits).le]
              constructor
              · rintro ⟨hsize, _⟩
                exact ⟨by omega, fun k _ hk => by omega⟩
              · rintro ⟨hsize, _⟩
                exact ⟨by omega, fun k _ hk => by omega⟩

end IntervalTiling

/-! ## Filling rooms in order -/

namespace GreedyFill

/-- How many items each room takes. -/
def fill : ℕ → List ℕ → List ℕ
  | _, [] => []
  | n, room :: rooms => min room n :: fill (n - min room n) rooms

/-- As many items find a place as there are, or as there is room for. -/
theorem sum_fill (n : ℕ) (rooms : List ℕ) : (fill n rooms).sum = min rooms.sum n := by
  induction rooms generalizing n with
  | nil => exact (Nat.zero_min n).symm
  | cons room rooms ih =>
      rw [fill, List.sum_cons, ih, List.sum_cons]
      omega

theorem sum_fill_le (n : ℕ) (rooms : List ℕ) : (fill n rooms).sum ≤ n := by
  rw [sum_fill]
  exact min_le_right _ _

/-- All items find a place just if there is room for them. -/
theorem sum_fill_eq_iff (n : ℕ) (rooms : List ℕ) : (fill n rooms).sum = n ↔ n ≤ rooms.sum := by
  rw [sum_fill]
  exact min_eq_right_iff

/-- Where there are more items than room, every room is full. -/
theorem fill_eq_self {n : ℕ} {rooms : List ℕ} (h : rooms.sum ≤ n) : fill n rooms = rooms := by
  induction rooms generalizing n with
  | nil => rfl
  | cons room rooms ih =>
      rw [List.sum_cons] at h
      have hfull : min room n = room := min_eq_left ((Nat.le_add_right _ _).trans h)
      rw [fill, hfull, ih (Nat.le_sub_of_add_le' h)]

/-- No room takes more than fits. -/
theorem fill_le (n : ℕ) (rooms : List ℕ) : List.Forall₂ (· ≤ ·) (fill n rooms) rooms := by
  induction rooms generalizing n with
  | nil => exact .nil
  | cons room rooms ih => exact .cons (min_le_left _ _) (ih _)

end GreedyFill
