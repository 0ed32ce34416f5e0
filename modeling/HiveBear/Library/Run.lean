/-
# Runs of a labelled transition system

A run is a finite sequence of labelled steps. Every safety result about a
system is an invariant: it holds at the start and each step preserves it, so it
holds at the end of every run. `Run.invariant` says this once, and `Run.simulation`
says the same of a relation to the states of a second system. `Guarded` restricts a
system to the steps whose source state meets a side condition, which is how a result
that needs such a condition at every step is stated.

A deterministic system is a function from labels to states. There a condition on the
steps can be exact: `exec_invariant_iff` says that an invariant holds throughout a run
just if every step of the run meets the condition.
-/

import Mathlib.Data.List.Induction

namespace LabelledRun

variable {S L : Type*}

/-- `Run step s labels t`: taking the steps `labels` in order leads from `s` to
`t`. -/
inductive Run (step : S → L → S → Prop) : S → List L → S → Prop
  | nil (s : S) : Run step s [] s
  | snoc {s t u : S} {labels : List L} {label : L} (run : Run step s labels t)
      (last : step t label u) : Run step s (labels ++ [label]) u

/-- The steps whose source state and label meet a side condition. -/
def Guarded (guard : S → L → Prop) (step : S → L → S → Prop) : S → L → S → Prop :=
  fun s label t => guard s label ∧ step s label t

variable {step : S → L → S → Prop}

/-- What every step preserves, every run preserves. -/
theorem Run.invariant {Inv : S → Prop}
    (hstep : ∀ {s label t}, Inv s → step s label t → Inv t)
    {s t : S} {labels : List L} (run : Run step s labels t) (hs : Inv s) : Inv t := by
  induction run with
  | nil => exact hs
  | snoc _ last ih => exact hstep ih last

/-- Where every step preserves an invariant and has a label of some kind, every run is made of
such labels. -/
theorem Run.always {Inv : S → Prop} {P : L → Prop}
    (hstep : ∀ {s label t}, Inv s → step s label t → Inv t ∧ P label)
    {s t : S} {labels : List L} (run : Run step s labels t) (hs : Inv s) :
    Inv t ∧ ∀ label ∈ labels, P label := by
  induction run with
  | nil => exact ⟨hs, fun _ hlabel => absurd hlabel List.not_mem_nil⟩
  | snoc _ last ih =>
      obtain ⟨hinv, hall⟩ := ih
      obtain ⟨hnext, hlast⟩ := hstep hinv last
      refine ⟨hnext, ?_⟩
      intro label hlabel
      rcases List.mem_append.mp hlabel with hearly | hnow
      · exact hall label hearly
      · rwa [List.mem_singleton.mp hnow]

/-- A run whose labels all meet a condition is one of the guarded steps. -/
theorem Run.guarded {P : L → Prop} {s t : S} {labels : List L} (run : Run step s labels t)
    (hlabels : ∀ label ∈ labels, P label) : Run (Guarded (fun _ => P) step) s labels t := by
  induction run with
  | nil => exact .nil _
  | snoc _ last ih =>
      obtain ⟨hearly, hlast⟩ := List.forall_mem_append.mp hlabels
      exact (ih hearly).snoc ⟨hlast _ (List.mem_singleton_self _), last⟩

/-- Runs compose end to end. -/
theorem Run.append {s t u : S} {labels labels' : List L} (run : Run step s labels t)
    (rest : Run step t labels' u) : Run step s (labels ++ labels') u := by
  induction rest with
  | nil => rwa [List.append_nil]
  | snoc _ last ih =>
      rw [← List.append_assoc]
      exact ih.snoc last

/-- A run of one system, seen in another one that takes its steps. -/
theorem Run.map {T : Type*} {otherStep : T → L → T → Prop} (view : S → T)
    (hstep : ∀ {s label t}, step s label t → otherStep (view s) label (view t))
    {s t : S} {labels : List L} (run : Run step s labels t) :
    Run otherStep (view s) labels (view t) := by
  induction run with
  | nil => exact Run.nil _
  | snoc _ last ih => exact ih.snoc (hstep last)

/-- A run of one label is one step. -/
theorem Run.of_singleton {s t : S} {label : L} (run : Run step s [label] t) : step s label t := by
  generalize h : [label] = labels at run
  cases run with
  | nil => cases h
  | @snoc _ _ labels last run step =>
      have hsplit : [] ++ [label] = labels ++ [last] := h
      obtain ⟨hlabels, hlast⟩ := List.append_inj' hsplit rfl
      obtain rfl := List.singleton_inj.mp hlast
      cases run with
      | nil => exact step
      | snoc => exact absurd hlabels (by simp)

/-- A run divides wherever its labels do. -/
theorem Run.split {s u : S} {labels early late : List L} (run : Run step s labels u)
    (h : labels = early ++ late) : ∃ t, Run step s early t ∧ Run step t late u := by
  induction run generalizing late with
  | nil =>
      obtain ⟨rfl, rfl⟩ := List.append_eq_nil_iff.mp h.symm
      exact ⟨s, Run.nil s, Run.nil s⟩
  | @snoc t u labels label run last ih =>
      rcases List.eq_nil_or_concat late with rfl | ⟨before, final, rfl⟩
      · rw [List.append_nil] at h
        exact ⟨u, h ▸ run.snoc last, Run.nil u⟩
      · rw [List.concat_eq_append, ← List.append_assoc] at h
        obtain ⟨hlabels, hlabel⟩ := List.append_inj' h rfl
        obtain rfl := List.singleton_inj.mp hlabel
        obtain ⟨middle, first, rest⟩ := ih hlabels
        rw [List.concat_eq_append]
        exact ⟨middle, first, rest.snoc last⟩

/-- A relation between the labels taken so far and the state reached, kept by
every step, holds at the end of every run. -/
theorem Run.history {Inv : List L → S → Prop}
    (hstep : ∀ {labels s label t}, Inv labels s → step s label t → Inv (labels ++ [label]) t)
    {s t : S} {labels : List L} (run : Run step s labels t) (hs : Inv [] s) :
    Inv labels t := by
  induction run with
  | nil => exact hs
  | snoc _ last ih => exact hstep ih last

/-- **Simulation.** If each step of a system is matched by a step of a second system,
or leaves what it is related to alone, then each of its runs is matched by a run of
that system. -/
theorem Run.simulation {T K : Type*} {abstractStep : T → K → T → Prop} {R : S → T → Prop}
    (hstep : ∀ {s label s' t}, R s t → step s label s' →
      R s' t ∨ ∃ k t', abstractStep t k t' ∧ R s' t')
    {s s' : S} {t : T} {labels : List L} (run : Run step s labels s') (hs : R s t) :
    ∃ ks t', Run abstractStep t ks t' ∧ R s' t' := by
  induction run with
  | nil => exact ⟨[], t, Run.nil t, hs⟩
  | snoc _ last ih =>
      obtain ⟨ks, t', abstractRun, hrel⟩ := ih
      rcases hstep hrel last with hstay | ⟨k, t'', habstract, hnext⟩
      · exact ⟨ks, t', abstractRun, hstay⟩
      · exact ⟨ks ++ [k], t'', abstractRun.snoc habstract, hnext⟩

/-- One step is a run. -/
theorem Run.single {s t : S} {label : L} (last : step s label t) :
    Run step s [label] t :=
  Run.snoc (Run.nil s) last

/-! ## Deterministic systems -/

section Deterministic

variable (next : S → L → S)

/-- The state behind these labels. -/
def exec (s : S) (labels : List L) : S := labels.foldl next s

theorem exec_snoc (s : S) (labels : List L) (label : L) :
    exec next s (labels ++ [label]) = next (exec next s labels) label := by
  rw [exec, List.foldl_append]
  rfl

theorem exec_append (s : S) (before later : List L) :
    exec next s (before ++ later) = exec next (exec next s before) later :=
  List.foldl_append

/-- What the labels mean in the states in which they are taken. -/
def outputs {M : Type*} (out : S → L → M) : S → List L → List M
  | _, [] => []
  | s, label :: later => out s label :: outputs out (next s label) later

theorem outputs_append {M : Type*} (out : S → L → M) (s : S) (before later : List L) :
    outputs next out s (before ++ later) =
      outputs next out s before ++ outputs next out (exec next s before) later := by
  induction before generalizing s with
  | nil => rfl
  | cons label before ih => exact congrArg (out s label :: ·) (ih (next s label))

theorem length_outputs {M : Type*} (out : S → L → M) (s : S) (labels : List L) :
    (outputs next out s labels).length = labels.length := by
  induction labels generalizing s with
  | nil => rfl
  | cons label later ih => exact congrArg (· + 1) (ih (next s label))

/-- An output splits the labels where it was made. -/
theorem outputs_split {M : Type*} {out : S → L → M} {s : S} {labels : List L}
    {early late : List M} {m : M} (h : outputs next out s labels = early ++ m :: late) :
    ∃ before label later, labels = before ++ label :: later ∧
      outputs next out s before = early ∧ out (exec next s before) label = m ∧
      outputs next out (exec next s (before ++ [label])) later = late := by
  induction labels generalizing s early with
  | nil => simp [outputs] at h
  | cons first later ih =>
      cases early with
      | nil =>
          obtain ⟨hfirst, hlater⟩ := List.cons.inj h
          exact ⟨[], first, later, rfl, rfl, hfirst, hlater⟩
      | cons head early =>
          obtain ⟨hfirst, hlater⟩ := List.cons.inj h
          obtain ⟨before, label, rest, rfl, hbefore, hlabel, hrest⟩ := ih hlater
          refine ⟨first :: before, label, rest, rfl, ?_, hlabel, hrest⟩
          rw [outputs, hfirst, hbefore]

theorem mem_outputs {M : Type*} {out : S → L → M} {s : S} {labels : List L} {m : M} :
    m ∈ outputs next out s labels ↔
      ∃ before label later, labels = before ++ label :: later ∧
        out (exec next s before) label = m := by
  constructor
  · intro hm
    obtain ⟨early, late, hsplit⟩ := List.append_of_mem hm
    obtain ⟨before, label, later, hlabels, -, hlabel, -⟩ := outputs_split next hsplit
    exact ⟨before, label, later, hlabels, hlabel⟩
  · rintro ⟨before, label, later, rfl, rfl⟩
    rw [outputs_append]
    exact List.mem_append_right _ List.mem_cons_self

/-- A part of the state that each label changes by what it means, behind any labels. -/
theorem exec_view {T M : Type*} {view : S → T} {nextView : T → M → T} {out : S → L → M}
    (h : ∀ s label, view (next s label) = nextView (view s) (out s label))
    (s : S) (labels : List L) :
    view (exec next s labels) = exec nextView (view s) (outputs next out s labels) := by
  induction labels generalizing s with
  | nil => rfl
  | cons label later ih =>
      have hlater := ih (next s label)
      rw [h] at hlater
      exact hlater

/-- What every label keeps that meets a guard, holds behind any labels that all meet it. -/
theorem exec_invariant {Inv : S → Prop} {guard : S → L → Prop}
    (hnext : ∀ {s label}, Inv s → guard s label → Inv (next s label))
    {s : S} (hs : Inv s) {labels : List L}
    (hguard : ∀ before label, before ++ [label] <+: labels → guard (exec next s before) label) :
    Inv (exec next s labels) := by
  induction labels using List.reverseRecOn with
  | nil => exact hs
  | append_singleton labels label ih =>
      rw [exec_snoc]
      refine hnext (ih fun before earlier hpart => ?_) (hguard labels label (List.prefix_refl _))
      exact hguard before earlier (hpart.trans (List.prefix_append labels [label]))

/-- **Exact conditions.** If a guard says just when a label keeps an invariant, then the
invariant holds throughout a run just if all its labels meet the guard. -/
theorem exec_invariant_iff {Inv : S → Prop} {guard : S → L → Prop}
    (hnext : ∀ {s label}, Inv s → (Inv (next s label) ↔ guard s label))
    {s : S} (hs : Inv s) (labels : List L) :
    (∀ before, before <+: labels → Inv (exec next s before)) ↔
      ∀ before label, before ++ [label] <+: labels → guard (exec next s before) label := by
  constructor
  · intro hinv before label hpart
    have hbefore : Inv (exec next s before) :=
      hinv before ((List.prefix_append before [label]).trans hpart)
    rw [← hnext hbefore, ← exec_snoc next]
    exact hinv (before ++ [label]) hpart
  · intro hguard before hpart
    have hkeeps : ∀ {s label}, Inv s → guard s label → Inv (next s label) :=
      fun h hlabel => (hnext h).mpr hlabel
    refine exec_invariant next hkeeps hs ?_
    intro earlier label hearlier
    exact hguard earlier label (hearlier.trans hpart)

/-- A label splits a run at its last one, or splits what is before it. -/
theorem exists_split_snoc {labels : List L} {last : L} {P : L → List L → Prop} :
    (∃ before label later, labels ++ [last] = before ++ label :: later ∧ P label later) ↔
      P last [] ∨
        ∃ before label later, labels = before ++ label :: later ∧ P label (later ++ [last]) := by
  constructor
  · rintro ⟨before, label, later, hsplit, hlabel⟩
    rcases List.eq_nil_or_concat later with rfl | ⟨rest, other, rfl⟩
    · obtain ⟨-, rfl⟩ := List.append_singleton_inj.mp hsplit
      exact Or.inl hlabel
    · rw [List.concat_eq_append] at hsplit hlabel
      rw [← List.cons_append, ← List.append_assoc] at hsplit
      obtain ⟨rfl, rfl⟩ := List.append_singleton_inj.mp hsplit
      exact Or.inr ⟨before, label, rest, rfl, hlabel⟩
  · rintro (hlast | ⟨before, label, later, rfl, hlabel⟩)
    · exact ⟨labels, last, [], rfl, hlast⟩
    · exact ⟨before, label, later ++ [last], by simp, hlabel⟩

/-- **The last label that wrote.** Some labels write a part of the state, and all others keep
what is there or drop it. Then it is there behind a run just if a label wrote it and every later
one keeps it. -/
theorem exec_written_iff {V : Type*} {view : S → Option V} {writes : L → Option V}
    {keeps : L → V → Bool}
    (hwrites : ∀ s label value, writes label = some value → view (next s label) = some value)
    (hkeeps : ∀ s label, writes label = none → view (next s label) = (view s).filter (keeps label))
    {s : S} (hs : view s = none) (labels : List L) (value : V) :
    view (exec next s labels) = some value ↔
      ∃ before label later, labels = before ++ label :: later ∧ writes label = some value ∧
        ∀ other ∈ later, writes other = none ∧ keeps other value = true := by
  induction labels using List.reverseRecOn with
  | nil => simp [exec, hs]
  | append_singleton labels last ih =>
      rw [exec_snoc, exists_split_snoc]
      simp only [List.forall_mem_append, List.forall_mem_singleton, List.not_mem_nil]
      cases hlast : writes last with
      | some written =>
          rw [hwrites _ _ _ hlast]
          simp
      | none =>
          rw [hkeeps _ _ hlast, Option.filter_eq_some_iff, ih]
          constructor
          · rintro ⟨⟨before, label, later, hsplit, hlabel, hlater⟩, hkept⟩
            exact Or.inr ⟨before, label, later, hsplit, hlabel, hlater, rfl, hkept⟩
          · rintro (⟨hnone, -⟩ | ⟨before, label, later, hsplit, hlabel, hlater, -, hkept⟩)
            · cases hnone
            · exact ⟨⟨before, label, later, hsplit, hlabel, hlater⟩, hkept⟩

/-- The labels taken so far, as the state of a run. -/
theorem exec_record (labels : List L) : exec (fun before label => before ++ [label]) [] labels = labels := by
  induction labels using List.reverseRecOn with
  | nil => rfl
  | append_singleton labels label ih => rw [exec_snoc, ih]

/-- A label of a run is its last one or an earlier one. -/
theorem append_singleton_prefix_iff {before labels : List L} {label last : L} :
    before ++ [label] <+: labels ++ [last] ↔
      before = labels ∧ label = last ∨ before ++ [label] <+: labels := by
  rw [List.prefix_concat_iff]
  refine or_congr_left ?_
  constructor
  · intro hwhole
    obtain ⟨hbefore, hlast⟩ := List.append_inj' hwhole rfl
    exact ⟨hbefore, List.singleton_inj.mp hlast⟩
  · rintro ⟨rfl, rfl⟩
    rfl

/-- Exact conditions for what is said of the labels taken so far. -/
theorem history_invariant_iff {Inv : List L → Prop} {guard : List L → L → Prop} (hnil : Inv [])
    (hsnoc : ∀ {before label}, Inv before → (Inv (before ++ [label]) ↔ guard before label))
    (labels : List L) :
    (∀ before, before <+: labels → Inv before) ↔
      ∀ before label, before ++ [label] <+: labels → guard before label := by
  have hexact := exec_invariant_iff (fun before label => before ++ [label]) hsnoc hnil labels
  simpa only [exec_record] using hexact

end Deterministic

end LabelledRun
