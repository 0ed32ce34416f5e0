/-
# Taking texts apart

The functions of a standard library that cut a text: at the first or the last occurrence of a
pattern, and off its end.
-/

import Mathlib.Data.List.DropRight
import Mathlib.Data.List.Infix
import Mathlib.Tactic.SplitIfs

namespace Texts

/-- To decide about every character of a list is to decide about the list, not about the finitely
many characters. -/
theorem forall_mem_of_all {α : Type*} {p : α → Prop} [DecidablePred p] {list : List α}
    (h : list.all fun x => decide (p x)) : ∀ x ∈ list, p x :=
  fun x hx => of_decide_eq_true (List.all_eq_true.mp h x hx)

/-- Cut a text at the first occurrence of a pattern, which is dropped. -/
def splitOnce (pattern : List Char) : List Char → Option (List Char × List Char)
  | [] => if pattern = [] then some ([], []) else none
  | c :: text =>
      if pattern <+: c :: text then some ([], (c :: text).drop pattern.length)
      else (splitOnce pattern text).map fun cut => (c :: cut.1, cut.2)

/-- Cut a text at the last occurrence of a pattern, which is dropped. -/
def rsplitOnce (pattern : List Char) : List Char → Option (List Char × List Char)
  | [] => if pattern = [] then some ([], []) else none
  | c :: text =>
      match rsplitOnce pattern text with
      | some cut => some (c :: cut.1, cut.2)
      | none =>
          if pattern <+: c :: text then some ([], (c :: text).drop pattern.length) else none

/-- What the trimming of Rust cuts off. -/
def isRustSpace (c : Char) : Bool :=
  [0x9, 0xA, 0xB, 0xC, 0xD, 0x20, 0x85, 0xA0, 0x1680, 0x2028, 0x2029, 0x202F, 0x205F,
    0x3000].contains c.toNat || (0x2000 ≤ c.toNat && c.toNat ≤ 0x200A)

/-- Cut a suffix off. -/
def stripSuffix (suffix text : List Char) : Option (List Char) :=
  if suffix <:+ text then some (text.take (text.length - suffix.length)) else none

example : rsplitOnce "-of-".toList "a-of-b-of-c".toList = some ("a-of-b".toList, "c".toList) := by
  decide

/-- What stands behind a character that stays is dropped by itself. -/
theorem rdropWhile_append {α : Type*} {p : α → Bool} {x : α} (hx : p x = false)
    (front back : List α) :
    ((front ++ [x]) ++ back).rdropWhile p = (front ++ [x]) ++ back.rdropWhile p := by
  induction back using List.reverseRecOn with
  | nil =>
      rw [List.append_nil, List.rdropWhile_concat_neg _ _ _ (by simp [hx]), List.rdropWhile_nil,
        List.append_nil]
  | append_singleton back y ih =>
      rw [← List.append_assoc, List.rdropWhile_concat, List.rdropWhile_concat, ih]
      split_ifs
      · rfl
      · rw [List.append_assoc]

/-! ## Lines -/

/-- A text without the separator goes to the first part. -/
theorem splitOn_append {front : List Char} {sep : Char} (h : sep ∉ front) (text : List Char) :
    (front ++ text).splitOn sep = (text.splitOn sep).modifyHead (front ++ ·) := by
  induction front with
  | nil =>
      rw [List.nil_append]
      cases text.splitOn sep <;> rfl
  | cons c front ih =>
      obtain ⟨hc, hfront⟩ := not_or.mp (List.mem_cons.not.mp h)
      rw [List.cons_append, List.splitOn_cons_eq_if_modifyHead, if_neg (by simpa using Ne.symm hc),
        ih hfront, List.modifyHead_modifyHead]
      rfl

/-- The parts hold what was in the list, without the separators. -/
theorem mem_splitOnP {α : Type*} {p : α → Bool} {list part : List α}
    (h : part ∈ list.splitOnP p) : ∀ x ∈ part, x ∈ list ∧ p x = false := by
  induction list generalizing part with
  | nil =>
      rw [List.splitOnP_nil, List.mem_singleton] at h
      rw [h]
      exact List.forall_mem_nil _
  | cons y list ih =>
      have hlater {part : List α} (hpart : part ∈ list.splitOnP p) :
          ∀ x ∈ part, x ∈ y :: list ∧ p x = false := fun x hx =>
        ⟨List.mem_cons_of_mem _ (ih hpart x hx).1, (ih hpart x hx).2⟩
      rw [List.splitOnP_cons_eq_if_modifyHead] at h
      split_ifs at h with hy
      · rcases List.mem_cons.mp h with rfl | hpart
        · exact List.forall_mem_nil _
        · exact hlater hpart
      · obtain ⟨first, parts, hparts⟩ := List.exists_cons_of_ne_nil (List.splitOnP_ne_nil p list)
        rw [hparts, List.modifyHead_cons] at h
        rcases List.mem_cons.mp h with rfl | hpart
        · have hfirst : first ∈ list.splitOnP p := hparts ▸ List.mem_cons_self
          exact List.forall_mem_cons.mpr
            ⟨⟨List.mem_cons_self, by simpa using hy⟩, hlater hfirst⟩
        · exact hlater (hparts ▸ List.mem_cons_of_mem _ hpart)

/-- A cut at a separator is at the first one. -/
theorem splitOnce_singleton (sep : Char) (text : List Char) :
    (splitOnce [sep] text = none ∧ sep ∉ text) ∨
      ∃ front back, splitOnce [sep] text = some (front, back) ∧ text = front ++ sep :: back ∧
        sep ∉ front := by
  induction text with
  | nil => exact Or.inl ⟨rfl, List.not_mem_nil⟩
  | cons c text ih =>
      have hstarts : [sep] <+: c :: text ↔ sep = c := by
        rw [List.cons_prefix_cons]
        simp
      rw [splitOnce]
      by_cases hc : sep = c
      · subst hc
        exact Or.inr ⟨[], text, by simp, rfl, List.not_mem_nil⟩
      · rw [if_neg (hstarts.not.mpr hc)]
        rcases ih with ⟨hnone, hmem⟩ | ⟨front, back, hsome, rfl, hmem⟩
        · exact Or.inl ⟨by rw [hnone]; rfl, List.mem_cons.not.mpr (not_or.mpr ⟨hc, hmem⟩)⟩
        · exact Or.inr ⟨c :: front, back, by rw [hsome]; rfl, rfl,
            List.mem_cons.not.mpr (not_or.mpr ⟨hc, hmem⟩)⟩

/-- A cut is at the first place where the pattern begins. -/
theorem splitOnce_append {c : Char} {front : List Char} (h : c ∉ front) (pattern back : List Char) :
    splitOnce (c :: pattern) (front ++ c :: pattern ++ back) = some (front, back) := by
  induction front with
  | nil => simp [splitOnce]
  | cons first front ih =>
      obtain ⟨hfirst, hfront⟩ := not_or.mp (List.mem_cons.not.mp h)
      have hstarts : ¬ c :: pattern <+: first :: (front ++ c :: pattern ++ back) := fun hbegins =>
        hfirst (List.cons_prefix_cons.mp hbegins).1
      rw [List.cons_append, List.cons_append, splitOnce, if_neg hstarts, ih hfront]
      rfl

theorem splitOnce_eq_none {sep : Char} {text : List Char} (h : sep ∉ text) :
    splitOnce [sep] text = none := by
  rcases splitOnce_singleton sep text with ⟨hnone, -⟩ | ⟨front, back, -, rfl, -⟩
  · exact hnone
  · exact absurd (by simp) h

theorem rsplitOnce_eq_none {sep : Char} {text : List Char} (h : sep ∉ text) :
    rsplitOnce [sep] text = none := by
  induction text with
  | nil => rfl
  | cons c text ih =>
      obtain ⟨hc, htext⟩ := not_or.mp (List.mem_cons.not.mp h)
      have hstarts : ¬ [sep] <+: c :: text := fun hbegins =>
        hc (List.cons_prefix_cons.mp hbegins).1
      rw [rsplitOnce, ih htext]
      exact if_neg hstarts

/-- A cut from behind at a separator is at the last one. -/
theorem rsplitOnce_append {sep : Char} {back : List Char} (h : sep ∉ back) (front : List Char) :
    rsplitOnce [sep] (front ++ sep :: back) = some (front, back) := by
  induction front with
  | nil =>
      rw [List.nil_append, rsplitOnce, rsplitOnce_eq_none h]
      simp
  | cons c front ih =>
      rw [List.cons_append, rsplitOnce, ih]

/-- Where something is found in a list, it is found a last time. -/
theorem exists_last {α : Type*} {p : α → Prop} {list : List α} (h : ∃ x ∈ list, p x) :
    ∃ front x back, list = front ++ x :: back ∧ p x ∧ ∀ y ∈ back, ¬ p y := by
  induction list with
  | nil =>
      obtain ⟨x, hx, -⟩ := h
      cases hx
  | cons first list ih =>
      by_cases hlater : ∃ x ∈ list, p x
      · obtain ⟨front, x, back, rfl, hx, hback⟩ := ih hlater
        exact ⟨first :: front, x, back, rfl, hx, hback⟩
      · have hback : ∀ y ∈ list, ¬ p y := fun y hy hp => hlater ⟨y, hy, hp⟩
        have hfirst : p first := by
          obtain ⟨x, hx, hp⟩ := h
          rcases List.mem_cons.mp hx with rfl | hmem
          · exact hp
          · exact absurd hp (hback x hmem)
        exact ⟨[], first, list, rfl, hfirst, hback⟩

/-- So it is with a separator. -/
theorem exists_last_mem {sep : Char} {text : List Char} (h : sep ∈ text) :
    ∃ front back, text = front ++ sep :: back ∧ sep ∉ back := by
  obtain ⟨front, c, back, hsplit, hc, hback⟩ := exists_last ⟨sep, h, rfl⟩
  exact ⟨front, back, hc ▸ hsplit, fun hmem => hback sep hmem rfl⟩

/-- Cut a text off the front of another one. -/
def stripStart (start text : List Char) : Option (List Char) :=
  if start <+: text then some (text.drop start.length) else none

/-- What is left of a line at both ends is no white space. -/
def trim (text : List Char) : List Char := (text.dropWhile isRustSpace).rdropWhile isRustSpace

/-- The lines of a text, without the characters that end them. -/
def lines (text : List Char) : List (List Char) :=
  let parts := text.splitOn '\n'
  let ended := parts.dropLast.map fun line => (stripSuffix ['\r'] line).getD line
  match parts.getLast? with
  | none | some [] => ended
  | some last => ended ++ [last]

example : lines "a\r\n\nb\r".toList = ["a".toList, [], "b\r".toList] := by decide

/-- A text that does not end any line is one line. -/
theorem lines_of_notMem {text : List Char} (h : '\n' ∉ text) (hne : text ≠ []) :
    lines text = [text] := by
  have hparts : text.splitOn '\n' = [text] := List.splitOn_eq_singleton h
  rw [lines, hparts]
  obtain ⟨c, rest, rfl⟩ := List.exists_cons_of_ne_nil hne
  rfl

end Texts
