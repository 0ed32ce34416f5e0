/-
# Barriers that count arrivals

A barrier waits for as many arrivals as it expects guests. Counting is not the same as
knowing who has arrived: an arrival that repeats an earlier one, or of somebody who is
not expected, is counted too. Such an arrival is surplus. Everybody has arrived exactly
when there are no more surplus arrivals than guests who are expected more than once.
-/

import Mathlib.Data.Finset.Card

namespace CountingBarrier

variable {N : Type*} [DecidableEq N]

/-- The arrivals that do not account for another guest. Of repeated arrivals the last
one counts. -/
def surplus (guests : List N) : List N → ℕ
  | [] => 0
  | arrival :: later =>
      (if arrival ∈ guests ∧ arrival ∉ later then 0 else 1) + surplus guests later

/-- How often a guest is expected again. -/
def repeats (guests : List N) : ℕ := guests.length - guests.dedup.length

/-- Arrivals are surplus or account for a guest. -/
theorem surplus_add_card (guests arrivals : List N) :
    surplus guests arrivals + (arrivals.toFinset ∩ guests.toFinset).card = arrivals.length := by
  induction arrivals with
  | nil => simp [surplus]
  | cons arrival later ih =>
      rw [surplus, List.toFinset_cons, List.length_cons, ← ih]
      by_cases hguest : arrival ∈ guests
      · rw [Finset.insert_inter_of_mem (by simpa using hguest)]
        by_cases hlater : arrival ∈ later
        · rw [Finset.insert_eq_of_mem (by simp [hguest, hlater]), if_neg (by simp [hlater])]
          omega
        · rw [Finset.card_insert_of_notMem (by simp [hlater]), if_pos ⟨hguest, hlater⟩]
          omega
      · rw [Finset.insert_inter_of_notMem (by simpa using hguest), if_neg (by simp [hguest])]
        omega

/-- **When everybody has arrived.** After as many arrivals as there are guests, all guests
have arrived exactly if no more arrivals are surplus than guests are repeated. -/
theorem all_arrived_iff {guests arrivals : List N} (hlength : arrivals.length = guests.length) :
    (∀ guest ∈ guests, guest ∈ arrivals) ↔ surplus guests arrivals ≤ repeats guests := by
  have hcount := surplus_add_card guests arrivals
  have hguests : guests.toFinset.card = guests.dedup.length := List.card_toFinset guests
  have hle := (List.dedup_sublist guests).length_le
  have hsub : (arrivals.toFinset ∩ guests.toFinset).card ≤ guests.toFinset.card :=
    Finset.card_le_card Finset.inter_subset_right
  have hcard : surplus guests arrivals ≤ repeats guests ↔
      guests.toFinset.card ≤ (arrivals.toFinset ∩ guests.toFinset).card := by
    rw [repeats]
    omega
  rw [hcard]
  constructor
  · intro hall
    apply Finset.card_le_card
    intro guest hguest
    rw [List.mem_toFinset] at hguest
    simp [hguest, hall guest hguest]
  · intro hcards guest hguest
    have heq := Finset.eq_of_subset_of_card_le Finset.inter_subset_right hcards
    have hmem : guest ∈ arrivals.toFinset ∩ guests.toFinset := by
      rw [heq]
      exact List.mem_toFinset.mpr hguest
    exact List.mem_toFinset.mp (Finset.mem_inter.mp hmem).1

end CountingBarrier
