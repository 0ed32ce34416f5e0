/-
# Texts in frames

A framing writes a list of turns as one text: each turn is a text between two marks, which say
who has the turn. Nothing is done to the texts, so a text may hold marks itself.

The list can be read off the whole only if no text holds a break, which is the mark that ends its
turn and a mark that begins another one.
-/

import Mathlib.Data.List.Infix

/-- The marks of the turns. No mark that begins a turn begins another one, and what ends a turn
occurs in a break at its beginning and perhaps at its end, but nowhere else. -/
structure Framing (Letter Role : Type*) where
  opening : Role → List Letter
  closing : Role → List Letter
  roles : List Role
  opening_ne_nil : ∀ role ∈ roles, opening role ≠ []
  eq_of_prefix : ∀ role ∈ roles, ∀ role' ∈ roles, opening role <+: opening role' → role = role'
  ends : ∀ role ∈ roles, ∀ role' ∈ roles,
    ∀ i ∈ List.range (closing role ++ opening role').length,
      closing role <+: (closing role ++ opening role').drop i →
        i = 0 ∨ i + (closing role).length = (closing role ++ opening role').length

namespace Framing

variable {Letter Role : Type*} (framing : Framing Letter Role)

/-- Where a turn ends and one of another role begins. -/
def turnBreak (role next : Role) : List Letter := framing.closing role ++ framing.opening next

def frameTurn (turn : Role × List Letter) : List Letter :=
  framing.opening turn.1 ++ turn.2 ++ framing.closing turn.1

/-- The turns in their frames. -/
def frame (turns : List (Role × List Letter)) : List Letter := turns.flatMap framing.frameTurn

/-- The turn ends where its text does. -/
def Unbroken (turn : Role × List Letter) : Prop :=
  ∀ next ∈ framing.roles, ¬ framing.turnBreak turn.1 next <:+: turn.2 ++ framing.closing turn.1

/-- What may follow the turns: nothing, or the mark that begins one more. -/
def IsTail (tail : List Letter) : Prop :=
  tail = [] ∨ ∃ role ∈ framing.roles, tail = framing.opening role

variable {framing} {turns turns' : List (Role × List Letter)} {tail : List Letter}

instance [DecidableEq Letter] (turn : Role × List Letter) : Decidable (framing.Unbroken turn) :=
  inferInstanceAs (Decidable (∀ next ∈ framing.roles, ¬ _))

/-- A text with a break looks like two turns. -/
theorem frameTurn_turnBreak {role next : Role}
    (hclosing : framing.closing next = framing.closing role) (front back : List Letter) :
    framing.frameTurn (role, front ++ framing.turnBreak role next ++ back) =
      framing.frameTurn (role, front) ++ framing.frameTurn (next, back) := by
  simp [frameTurn, turnBreak, hclosing]

/-- What follows a turn is nothing, or begins a turn. -/
theorem frame_append_tail (hroles : ∀ turn ∈ turns, turn.1 ∈ framing.roles)
    (htail : framing.IsTail tail) :
    framing.frame turns ++ tail = [] ∨
      ∃ role ∈ framing.roles, framing.opening role <+: framing.frame turns ++ tail := by
  cases turns with
  | nil =>
      rcases htail with rfl | ⟨role, hrole, rfl⟩
      · exact Or.inl rfl
      · exact Or.inr ⟨role, hrole, List.prefix_refl _⟩
  | cons turn turns =>
      refine Or.inr ⟨turn.1, hroles turn List.mem_cons_self, ?_⟩
      rw [frame, List.flatMap_cons, frameTurn, List.append_assoc, List.append_assoc,
        List.append_assoc]
      exact List.prefix_append _ _

/-- In what follows the text of an unbroken turn, its end does not occur behind other letters
with a new turn following it. -/
theorem eq_nil_of_closing {role : Role} {front extra rest rest' : List Letter}
    (hrole : role ∈ framing.roles) (hunbroken : framing.Unbroken (role, front ++ extra))
    (hrest : rest = [] ∨ ∃ next ∈ framing.roles, framing.opening next <+: rest)
    (hsame : framing.closing role ++ rest = extra ++ framing.closing role ++ rest') :
    extra = [] := by
  rcases hrest with rfl | ⟨next, hnext, back, rfl⟩
  · have hlength := congrArg List.length hsame
    simp only [List.length_append, List.length_nil] at hlength
    exact List.length_eq_zero_iff.mp (by omega)
  · rw [← List.append_assoc] at hsame
    rcases List.append_eq_append_iff.mp hsame with ⟨more, hover, -⟩ | ⟨more, hbreak, -⟩
    · -- the break is in the text and what ends it
      refine absurd ?_ (hunbroken next hnext)
      refine ⟨front, more, ?_⟩
      rw [turnBreak, List.append_assoc, ← hover, List.append_assoc]
    · -- the end of the turn is in the break
      by_cases hmore : more = []
      · refine absurd ?_ (hunbroken next hnext)
        refine ⟨front, [], ?_⟩
        rw [turnBreak, hbreak, hmore, List.append_nil, List.append_nil, List.append_assoc]
      · have hpos := List.length_pos_of_ne_nil hmore
        have hlength := congrArg List.length hbreak
        simp only [List.length_append] at hlength
        have hdrop : framing.closing role <+:
            (framing.closing role ++ framing.opening next).drop extra.length := by
          rw [hbreak, List.append_assoc, List.drop_left]
          exact List.prefix_append _ _
        have hrange : extra.length ∈
            List.range (framing.closing role ++ framing.opening next).length := by
          rw [List.mem_range, List.length_append]
          omega
        rcases framing.ends role hrole next hnext extra.length hrange hdrop with hzero | hend
        · exact List.length_eq_zero_iff.mp hzero
        · rw [List.length_append] at hend
          omega

/-- **Turns that are unbroken are read off their text.** -/
theorem eq_of_frame_eq (hroles : ∀ turn ∈ turns, turn.1 ∈ framing.roles)
    (hroles' : ∀ turn ∈ turns', turn.1 ∈ framing.roles)
    (hunbroken : ∀ turn ∈ turns, framing.Unbroken turn)
    (hunbroken' : ∀ turn ∈ turns', framing.Unbroken turn) (htail : framing.IsTail tail)
    (hsame : framing.frame turns ++ tail = framing.frame turns' ++ tail) : turns = turns' := by
  have hnone {turn : Role × List Letter} {rest : List (Role × List Letter)}
      (hrole : turn.1 ∈ framing.roles) : framing.frame (turn :: rest) ++ tail ≠ tail := by
    intro hframe
    have hpos := List.length_pos_of_ne_nil (framing.opening_ne_nil _ hrole)
    have hlength := congrArg List.length hframe
    rw [frame, List.flatMap_cons, frameTurn] at hlength
    simp only [List.length_append] at hlength
    omega
  induction turns generalizing turns' with
  | nil =>
      cases turns' with
      | nil => rfl
      | cons turn' rest' => exact absurd hsame.symm (hnone (hroles' turn' List.mem_cons_self))
  | cons turn rest ih =>
      cases turns' with
      | nil => exact absurd hsame (hnone (hroles turn List.mem_cons_self))
      | cons turn' rest' =>
          obtain ⟨hrole, hmore⟩ := List.forall_mem_cons.mp hroles
          obtain ⟨hrole', hmore'⟩ := List.forall_mem_cons.mp hroles'
          obtain ⟨hturn, hlater⟩ := List.forall_mem_cons.mp hunbroken
          obtain ⟨hturn', hlater'⟩ := List.forall_mem_cons.mp hunbroken'
          obtain ⟨role, text⟩ := turn
          obtain ⟨role', text'⟩ := turn'
          simp only [frame, List.flatMap_cons, frameTurn, List.append_assoc] at hsame
          obtain rfl : role = role' := by
            have hfirst := List.prefix_append (framing.opening role) (text ++ (framing.closing role ++
              (rest.flatMap framing.frameTurn ++ tail)))
            rw [hsame] at hfirst
            rcases List.prefix_or_prefix_of_prefix hfirst (List.prefix_append _ _) with h | h
            · exact framing.eq_of_prefix role hrole role' hrole' h
            · exact (framing.eq_of_prefix role' hrole' role hrole h).symm
          have hbody := List.append_cancel_left hsame
          have hafter := frame_append_tail hmore htail
          have hafter' := frame_append_tail hmore' htail
          have htext : text = text' := by
            rcases List.append_eq_append_iff.mp hbody with ⟨extra, rfl, hover⟩ | ⟨extra, rfl, hover⟩
            · rw [← List.append_assoc extra] at hover
              rw [eq_nil_of_closing hrole hturn' hafter hover, List.append_nil]
            · rw [← List.append_assoc extra] at hover
              rw [eq_nil_of_closing hrole hturn hafter' hover, List.append_nil]
          subst htext
          have hrest := List.append_cancel_left (List.append_cancel_left hbody)
          rw [ih hmore hmore' hlater hlater' hrest]

end Framing
