/-
# Check, act, record

Requests with keys share a record of the keys that are done. A request checks that its key
is not recorded, then acts, then records the key. These are separate steps, so two requests
with one key can both pass the check and both act.

If no request passes its check while another one with its key is between check and record,
every key is acted on at most once. `acts_at_most_once` says so of every system whose steps
are such moves.
-/

import HiveBear.Library.Run
import Mathlib.Logic.Function.Basic

namespace CheckThenAct

open LabelledRun

/-- How far a request is. -/
inductive Stage
  | waiting
  | checked
  | acted
  | finished
  deriving DecidableEq

/-- The request is between its check and its record. -/
def Stage.InFlight (stage : Stage) : Prop := stage = .checked ∨ stage = .acted

/-- How a system is seen: the stages of its requests, the recorded keys, and the request
that a label lets act. -/
structure View (S L R K : Type*) where
  stage : S → R → Stage
  recorded : S → K → Prop
  acts : L → Option R

variable {S L R K : Type*} [DecidableEq R] [DecidableEq K] (view : View S L R K) (key : R → K)

/-- What a step may do. -/
inductive Move (s : S) (label : L) (t : S) : Prop
  /-- A request finds its key fresh, and no other one with its key is in flight. -/
  | check (r : R) (before : view.stage s r = .waiting) (fresh : ¬ view.recorded s (key r))
      (alone : ∀ other, key other = key r → ¬ (view.stage s other).InFlight)
      (stage : view.stage t = Function.update (view.stage s) r .checked)
      (recorded : view.recorded t = view.recorded s) (silent : view.acts label = none)
  | act (r : R) (before : view.stage s r = .checked)
      (stage : view.stage t = Function.update (view.stage s) r .acted)
      (recorded : view.recorded t = view.recorded s) (acts : view.acts label = some r)
  | record (r : R) (before : view.stage s r = .acted)
      (stage : view.stage t = Function.update (view.stage s) r .finished)
      (recorded : ∀ k, view.recorded t k ↔ k = key r ∨ view.recorded s k)
      (silent : view.acts label = none)
  /-- A request gives up before it has acted. -/
  | leave (r : R) (before : view.stage s r ≠ .acted)
      (stage : view.stage t = Function.update (view.stage s) r .finished)
      (recorded : view.recorded t = view.recorded s) (silent : view.acts label = none)
  | stay (stage : view.stage t = view.stage s) (recorded : view.recorded t = view.recorded s)
      (silent : view.acts label = none)

/-- How often a key has been acted on. -/
def actsOn (k : K) (labels : List L) : ℕ :=
  labels.countP fun label => (view.acts label).any fun r => key r = k

/-- What holds behind these labels. -/
structure Accounted (labels : List L) (s : S) : Prop where
  alone : ∀ {r r'}, (view.stage s r).InFlight → (view.stage s r').InFlight → key r = key r' →
    r = r'
  fresh : ∀ {r}, view.stage s r = .checked → actsOn view key (key r) labels = 0
  at_most_once : ∀ k, actsOn view key k labels ≤ 1
  covered : ∀ {k}, actsOn view key k labels ≠ 0 →
    view.recorded s k ∨ ∃ r, key r = k ∧ view.stage s r = .acted

variable {view key} {labels : List L} {label : L} {s t : S}

omit [DecidableEq R] in
theorem actsOn_silent (h : view.acts label = none) (k : K) :
    actsOn view key k (labels ++ [label]) = actsOn view key k labels := by
  simp [actsOn, List.countP_append, h]

omit [DecidableEq R] in
theorem actsOn_act {r : R} (h : view.acts label = some r) (k : K) :
    actsOn view key k (labels ++ [label]) =
      actsOn view key k labels + if key r = k then 1 else 0 := by
  simp [actsOn, List.countP_append, List.countP_singleton, h]

omit [DecidableEq K] in
/-- The stage of a request behind a move of one of them. -/
theorem stage_cases {r : R} {moved : Stage}
    (h : view.stage t = Function.update (view.stage s) r moved) (other : R) :
    other = r ∧ view.stage t other = moved ∨
      other ≠ r ∧ view.stage t other = view.stage s other := by
  rw [h]
  by_cases hsame : other = r
  · subst hsame
    exact Or.inl ⟨rfl, Function.update_self ..⟩
  · exact Or.inr ⟨hsame, Function.update_of_ne hsame ..⟩

omit [DecidableEq K] in
/-- A request that finishes moves nobody who is in flight. -/
theorem stage_of_finishes {r : R} (h : view.stage t = Function.update (view.stage s) r .finished)
    (other : R) (hflight : (view.stage t other).InFlight) :
    view.stage t other = view.stage s other := by
  rcases stage_cases h other with ⟨rfl, hmoved⟩ | ⟨-, hsame⟩
  · rw [hmoved] at hflight
    rcases hflight with hchecked | hacted
    · cases hchecked
    · cases hacted
  · exact hsame

omit [DecidableEq R] in
/-- A step that acts on nothing and lets no request enter keeps the accounts, if what has
been acted on stays covered. -/
theorem accounted_of_silent (h : Accounted view key labels s) (silent : view.acts label = none)
    (hflight : ∀ r, (view.stage t r).InFlight → view.stage t r = view.stage s r)
    (hcovered : ∀ k, (view.recorded s k ∨ ∃ r, key r = k ∧ view.stage s r = .acted) →
      view.recorded t k ∨ ∃ r, key r = k ∧ view.stage t r = .acted) :
    Accounted view key (labels ++ [label]) t where
  alone := fun {r r'} hr hr' hkey => by
    rw [hflight r hr] at hr
    rw [hflight r' hr'] at hr'
    exact h.alone hr hr' hkey
  fresh := fun {r} hchecked => by
    rw [actsOn_silent silent]
    rw [hflight r (Or.inl hchecked)] at hchecked
    exact h.fresh hchecked
  at_most_once := fun k => by
    rw [actsOn_silent silent]
    exact h.at_most_once k
  covered := fun {k} hacted => by
    rw [actsOn_silent silent] at hacted
    exact hcovered k (h.covered hacted)

/-- A check keeps the accounts if its request is alone. -/
theorem accounted_check (h : Accounted view key labels s) {r : R}
    (before : view.stage s r = .waiting) (fresh : ¬ view.recorded s (key r))
    (alone : ∀ other, key other = key r → ¬ (view.stage s other).InFlight)
    (stage : view.stage t = Function.update (view.stage s) r .checked)
    (recorded : view.recorded t = view.recorded s) (silent : view.acts label = none) :
    Accounted view key (labels ++ [label]) t where
  alone := fun {r₁ r₂} h₁ h₂ hkey => by
    rcases stage_cases stage r₁ with ⟨rfl, -⟩ | ⟨-, hsame₁⟩ <;>
      rcases stage_cases stage r₂ with ⟨rfl, -⟩ | ⟨-, hsame₂⟩
    · rfl
    · rw [hsame₂] at h₂
      exact absurd h₂ (alone r₂ hkey.symm)
    · rw [hsame₁] at h₁
      exact absurd h₁ (alone r₁ hkey)
    · rw [hsame₁] at h₁
      rw [hsame₂] at h₂
      exact h.alone h₁ h₂ hkey
  fresh := fun {other} hchecked => by
    rw [actsOn_silent silent]
    rcases stage_cases stage other with ⟨rfl, -⟩ | ⟨-, hsame⟩
    · by_contra hacted
      rcases h.covered hacted with hrecorded | ⟨another, hkey, hanother⟩
      · exact fresh hrecorded
      · exact alone another hkey (Or.inr hanother)
    · rw [hsame] at hchecked
      exact h.fresh hchecked
  at_most_once := fun k => by
    rw [actsOn_silent silent]
    exact h.at_most_once k
  covered := fun {k} hacted => by
    rw [actsOn_silent silent] at hacted
    rw [recorded]
    apply (h.covered hacted).imp_right
    rintro ⟨other, hkey, hother⟩
    rcases stage_cases stage other with ⟨rfl, -⟩ | ⟨-, hsame⟩
    · rw [before] at hother
      cases hother
    · exact ⟨other, hkey, hsame.trans hother⟩

/-- An act keeps the accounts. -/
theorem accounted_act (h : Accounted view key labels s) {r : R}
    (before : view.stage s r = .checked)
    (stage : view.stage t = Function.update (view.stage s) r .acted)
    (recorded : view.recorded t = view.recorded s) (acts : view.acts label = some r) :
    Accounted view key (labels ++ [label]) t where
  alone := fun {r₁ r₂} h₁ h₂ hkey => by
    have hbefore : ∀ {other}, (view.stage t other).InFlight → (view.stage s other).InFlight := by
      intro other hother
      rcases stage_cases stage other with ⟨rfl, -⟩ | ⟨-, hsame⟩
      · exact Or.inl before
      · rwa [hsame] at hother
    exact h.alone (hbefore h₁) (hbefore h₂) hkey
  fresh := fun {other} hchecked => by
    rcases stage_cases stage other with ⟨rfl, hmoved⟩ | ⟨hne, hsame⟩
    · rw [hmoved] at hchecked
      cases hchecked
    · rw [hsame] at hchecked
      have hkey : key r ≠ key other := fun hkey =>
        hne (h.alone (Or.inl hchecked) (Or.inl before) hkey.symm)
      rw [actsOn_act acts, if_neg hkey]
      exact h.fresh hchecked
  at_most_once := fun k => by
    rw [actsOn_act acts]
    split
    · rename_i hkey
      have hnone := h.fresh before
      rw [hkey] at hnone
      omega
    · exact h.at_most_once k
  covered := fun {k} hacted => by
    by_cases hkey : key r = k
    · have hacting : view.stage t r = .acted := by rw [stage, Function.update_self]
      exact Or.inr ⟨r, hkey, hacting⟩
    · rw [actsOn_act acts, if_neg hkey] at hacted
      rw [recorded]
      apply (h.covered hacted).imp_right
      rintro ⟨other, hother, hacting⟩
      rcases stage_cases stage other with ⟨rfl, -⟩ | ⟨-, hsame⟩
      · exact absurd hother hkey
      · exact ⟨other, hother, hsame.trans hacting⟩

/-- Every move keeps the accounts. -/
theorem accounted_step (h : Accounted view key labels s) (move : Move view key s label t) :
    Accounted view key (labels ++ [label]) t := by
  cases move with
  | check r before fresh alone stage recorded silent =>
      exact accounted_check h before fresh alone stage recorded silent
  | act r before stage recorded acts => exact accounted_act h before stage recorded acts
  | record r before stage recorded silent =>
      apply accounted_of_silent h silent (stage_of_finishes stage)
      rintro k (hrecorded | ⟨other, hkey, hacted⟩)
      · exact Or.inl ((recorded k).mpr (Or.inr hrecorded))
      · rcases stage_cases stage other with ⟨rfl, -⟩ | ⟨-, hsame⟩
        · exact Or.inl ((recorded k).mpr (Or.inl hkey.symm))
        · exact Or.inr ⟨other, hkey, hsame.trans hacted⟩
  | leave r before stage recorded silent =>
      apply accounted_of_silent h silent (stage_of_finishes stage)
      rintro k (hrecorded | ⟨other, hkey, hacted⟩)
      · exact Or.inl (by rwa [recorded])
      · rcases stage_cases stage other with ⟨rfl, -⟩ | ⟨-, hsame⟩
        · exact absurd hacted before
        · exact Or.inr ⟨other, hkey, hsame.trans hacted⟩
  | stay stage recorded silent =>
      apply accounted_of_silent h silent
      · intro other _
        rw [stage]
      · intro k hcovered
        rwa [recorded, stage]

/-- **Every key is acted on at most once.** -/
theorem acts_at_most_once {step : S → L → S → Prop}
    (hmove : ∀ {s label t}, step s label t → Move view key s label t) {start : S}
    (hstart : ∀ r, view.stage start r = .waiting) (run : Run step start labels s) (k : K) :
    actsOn view key k labels ≤ 1 := by
  have hinitial : Accounted view key [] start := by
    constructor
    · intro r r' hflight
      rw [hstart] at hflight
      rcases hflight with h | h <;> cases h
    · intro r _
      rfl
    · intro k
      exact Nat.zero_le 1
    · intro k hacted
      exact absurd rfl hacted
  have haccounted : Accounted view key labels s := run.history
    (fun hs step => accounted_step hs (hmove step)) hinitial
  exact haccounted.at_most_once k

end CheckThenAct
