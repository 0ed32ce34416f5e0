/-
# The patterns of LIKE

In a pattern `%` stands for any text and `_` for any character. Every other character stands for
itself, letters of ASCII in either case. A text between two `%` is looked for anywhere; it is found
where it occurs just if it has none of the two characters, as neither can be made to stand for
itself.
-/

import Mathlib.Data.List.Infix
import Mathlib.Tactic.SplitIfs

namespace Like

/-- A character is as the pattern says, and so is what is behind it. -/
def likeOne (p : Char) (likeRest : List Char → Bool) : List Char → Bool
  | [] => false
  | c :: rest => (p == '_' || p.toLower == c.toLower) && likeRest rest

/-- A text is as the pattern says. -/
def like : List Char → List Char → Bool
  | [], text => text.isEmpty
  | p :: pattern, text =>
      if p = '%' then text.tails.any (like pattern) else likeOne p (like pattern) text

/-- A character that does not stand for itself. -/
def Wildcard (c : Char) : Prop := c = '%' ∨ c = '_'

instance (c : Char) : Decidable (Wildcard c) := inferInstanceAs (Decidable (_ ∨ _))

/-- A text occurs in another one, letters of ASCII in either case. -/
def Occurs (query text : List Char) : Prop := query.map Char.toLower <:+: text.map Char.toLower

instance (query text : List Char) : Decidable (Occurs query text) :=
  inferInstanceAs (Decidable (_ <:+: _))

/-- The pattern that looks for a text anywhere. -/
def anywhere (query : List Char) : List Char := '%' :: (query ++ ['%'])

variable {pattern more text query : List Char}

@[simp]
theorem like_nil_iff : like [] text = true ↔ text = [] := List.isEmpty_iff

theorem like_percent_iff :
    like ('%' :: pattern) text = true ↔ ∃ front back, text = front ++ back ∧ like pattern back := by
  rw [like, if_pos rfl, List.any_eq_true]
  simp only [List.mem_tails]
  constructor
  · rintro ⟨back, ⟨front, rfl⟩, h⟩
    exact ⟨front, back, rfl, h⟩
  · rintro ⟨front, back, rfl, h⟩
    exact ⟨back, ⟨front, rfl⟩, h⟩

/-- Any other character of a pattern stands for one character. -/
theorem like_cons_iff {p : Char} (hp : p ≠ '%') :
    like (p :: pattern) text = true ↔
      ∃ c rest, text = c :: rest ∧ (p = '_' ∨ p.toLower = c.toLower) ∧ like pattern rest := by
  rw [like, if_neg hp]
  cases text with
  | nil => simp [likeOne]
  | cons c rest => simp [likeOne]

theorem like_append_iff : like (pattern ++ more) text = true ↔
    ∃ front back, text = front ++ back ∧ like pattern front ∧ like more back := by
  induction pattern generalizing text with
  | nil => simp
  | cons p pattern ih =>
      rw [List.cons_append]
      by_cases hp : p = '%'
      · subst hp
        simp only [like_percent_iff, ih]
        constructor
        · rintro ⟨skipped, _, rfl, front, back, rfl, hfront, hback⟩
          exact ⟨skipped ++ front, back, by simp, ⟨skipped, front, rfl, hfront⟩, hback⟩
        · rintro ⟨_, back, rfl, ⟨skipped, front, rfl, hfront⟩, hback⟩
          exact ⟨skipped, front ++ back, by simp, front, back, rfl, hfront, hback⟩
      · simp only [like_cons_iff hp, ih]
        constructor
        · rintro ⟨c, _, rfl, hc, front, back, rfl, hfront, hback⟩
          exact ⟨c :: front, back, rfl, ⟨c, front, rfl, hc, hfront⟩, hback⟩
        · rintro ⟨_, back, rfl, ⟨c, front, rfl, hc, hfront⟩, hback⟩
          exact ⟨c, front ++ back, rfl, hc, front, back, rfl, hfront, hback⟩

/-- What a text between two `%` is looked for as. -/
theorem like_anywhere_iff : like (anywhere query) text = true ↔
    ∃ front middle back, text = front ++ (middle ++ back) ∧ like query middle := by
  rw [anywhere, like_percent_iff]
  constructor
  · rintro ⟨front, _, rfl, h⟩
    obtain ⟨middle, back, rfl, hmiddle, -⟩ := like_append_iff.mp h
    exact ⟨front, middle, back, rfl, hmiddle⟩
  · rintro ⟨front, middle, back, rfl, hmiddle⟩
    have hback : like ['%'] back = true := like_percent_iff.mpr ⟨back, [], by simp, rfl⟩
    exact ⟨front, _, rfl, like_append_iff.mpr ⟨middle, back, rfl, hmiddle, hback⟩⟩

/-! ## Texts without wildcards -/

/-- A text without wildcards stands for itself. -/
theorem like_iff_of_no_wildcard (h : ∀ c ∈ query, ¬ Wildcard c) :
    like query text = true ↔ query.map Char.toLower = text.map Char.toLower := by
  induction query generalizing text with
  | nil => rw [like_nil_iff, List.map_nil, @eq_comm _ [], List.map_eq_nil_iff]
  | cons p query ih =>
      obtain ⟨hp, hquery⟩ := List.forall_mem_cons.mp h
      obtain ⟨hpercent, hunderscore⟩ := not_or.mp hp
      rw [like_cons_iff hpercent]
      simp only [hunderscore, false_or, ih hquery]
      cases text with
      | nil => simp
      | cons c rest => simp

/-- A text is as a pattern that is the same text, wildcards or not. -/
theorem like_of_map_toLower_eq (h : query.map Char.toLower = text.map Char.toLower) :
    like query text = true := by
  induction query generalizing text with
  | nil => exact like_nil_iff.mpr (List.map_eq_nil_iff.mp h.symm)
  | cons p query ih =>
      obtain ⟨c, rest, rfl⟩ := List.exists_cons_of_length_pos (l := text) (by
        rw [← List.length_map (f := Char.toLower), ← h]
        exact Nat.succ_pos _)
      obtain ⟨hc, hrest⟩ := List.cons.inj h
      by_cases hpercent : p = '%'
      · subst hpercent
        exact like_percent_iff.mpr ⟨[c], rest, rfl, ih hrest⟩
      · exact (like_cons_iff hpercent).mpr ⟨c, rest, rfl, Or.inr hc, ih hrest⟩

/-- What occurs is always found. -/
theorem like_anywhere_of_occurs (h : Occurs query text) : like (anywhere query) text = true := by
  obtain ⟨front, back, htext⟩ := h
  obtain ⟨rest, last, rfl, hrest, -⟩ := List.map_eq_append_iff.mp htext.symm
  obtain ⟨first, middle, rfl, -, hmiddle⟩ := List.map_eq_append_iff.mp hrest
  exact like_anywhere_iff.mpr
    ⟨first, middle, last, by simp, like_of_map_toLower_eq hmiddle.symm⟩

theorem like_anywhere_iff_occurs (h : ∀ c ∈ query, ¬ Wildcard c) :
    like (anywhere query) text = true ↔ Occurs query text := by
  refine ⟨fun hlike => ?_, like_anywhere_of_occurs⟩
  obtain ⟨front, middle, back, rfl, hmiddle⟩ := like_anywhere_iff.mp hlike
  refine ⟨front.map Char.toLower, back.map Char.toLower, ?_⟩
  rw [(like_iff_of_no_wildcard h).mp hmiddle]
  simp

/-! ## Texts with wildcards -/

/-- A text that is found though it has no wildcards: `%` stands for nothing and `_` for a letter. -/
def sample (query : List Char) : List Char :=
  query.flatMap fun c => if c = '%' then [] else if c = '_' then ['x'] else [c]

theorem like_sample (query : List Char) : like query (sample query) = true := by
  induction query with
  | nil => rfl
  | cons p query ih =>
      rw [sample, List.flatMap_cons]
      split_ifs with hpercent hunderscore
      · subst hpercent
        exact like_percent_iff.mpr ⟨[], _, rfl, ih⟩
      · exact (like_cons_iff hpercent).mpr ⟨'x', _, rfl, Or.inl hunderscore, ih⟩
      · exact (like_cons_iff hpercent).mpr ⟨p, _, rfl, Or.inr rfl, ih⟩

theorem like_anywhere_sample (query : List Char) :
    like (anywhere query) (sample query) = true :=
  like_anywhere_iff.mpr ⟨[], _, [], by simp, like_sample query⟩

theorem not_wildcard_of_mem_sample {c : Char} (h : c ∈ sample query) : ¬ Wildcard c := by
  obtain ⟨p, -, hc⟩ := List.mem_flatMap.mp h
  split_ifs at hc with hpercent hunderscore
  · cases hc
  · rw [List.mem_singleton.mp hc]
    decide
  · rw [List.mem_singleton.mp hc]
    exact not_or.mpr ⟨hpercent, hunderscore⟩

/-- A wildcard is no letter. -/
theorem eq_of_toLower_eq {c w : Char} (hw : Wildcard w) (h : c.toLower = w.toLower) : c = w := by
  have hself : w.toLower = w := by
    rcases hw with rfl | rfl <;> decide
  rw [hself] at h
  by_cases hupper : c.val ≥ 'A'.val ∧ c.val ≤ 'Z'.val
  · have hlower : c.toLower.val = c.val + ('a'.val - 'A'.val) :=
      congrArg Char.val (dif_pos hupper)
    have hval : c.val.toNat + 32 = w.val.toNat := by
      have hle : c.val.toNat ≤ 90 := hupper.2
      rw [← h, hlower]
      exact (Nat.mod_eq_of_lt (by omega)).symm
    have hge : 65 ≤ c.val.toNat := hupper.1
    have hletter : 97 ≤ w.val.toNat := by omega
    rcases hw with rfl | rfl
    · exact absurd hletter (by decide)
    · exact absurd hletter (by decide)
  · have hlower : c.toLower = c := dif_neg hupper
    exact hlower.symm.trans h

/-- A text with a wildcard does not occur in its sample. -/
theorem not_occurs_sample (h : ∃ c ∈ query, Wildcard c) : ¬ Occurs query (sample query) := by
  obtain ⟨w, hmem, hw⟩ := h
  intro hoccurs
  obtain ⟨c, hc, hsame⟩ := List.mem_map.mp (hoccurs.subset (List.mem_map_of_mem hmem))
  rw [eq_of_toLower_eq hw hsame] at hc
  exact not_wildcard_of_mem_sample hc hw

end Like
