/-
# Machines that read messages

A machine reads messages one after the other; each may change its state and produce
outputs. An observer sees some of the outputs and something of the state. Some messages
are foreign: to the observer the machine should look as if they had never arrived. It
does so for every input if all foreign messages are idle, that is, change nothing and
produce nothing.

The machines meant here end when a foreign message is not idle. Then the observer can
still see what it would see without foreign messages, namely if the machine would have
ended in the same way on the next message that is not idle. `Harmless` says of an input
that every foreign message in it is idle or matched in this way, and `observe_purge_iff`
that this is exactly when the foreign messages make no difference.
-/

import Mathlib.Data.List.Basic

namespace MessageMachine

variable {S M A : Type*} (step : S → M → S × List A)

/-- The state after a list of messages, and everything produced. -/
def run : S → List M → S × List A
  | s, [] => (s, [])
  | s, m :: ms =>
      let next := step s m
      let later := run next.1 ms
      (later.1, next.2 ++ later.2)

/-- A message changes nothing and produces nothing. -/
def Idle (s : S) (m : M) : Prop := step s m = (s, [])

/-- All messages are idle. -/
def Ended (s : S) : Prop := ∀ m, Idle step s m

/-- The messages that are not foreign, in order. -/
def purge (foreign : M → Bool) (ms : List M) : List M := ms.filter fun m => !foreign m

section Observer

variable {K B : Type*} (kind : S → K) (view : A → Option B)

/-- What an observer sees of a state and outputs. -/
def observe (result : S × List A) : K × List B := (kind result.1, result.2.filterMap view)

/-- To the observer, the first of these messages that is not idle looks like this. -/
def NextLooksLike (s : S) (seen : K × List B) (ms : List M) : Prop :=
  ∃ front n back, ms = front ++ n :: back ∧ (∀ k ∈ front, Idle step s k) ∧ ¬ Idle step s n ∧
    Ended step (step s n).1 ∧ observe kind view (step s n) = seen

/-- Every foreign message is idle when it arrives, until one is not idle but looks like
the next own message that would not be. -/
def Harmless (foreign : M → Bool) : S → List M → Prop
  | _, [] => True
  | s, m :: ms =>
      (foreign m = true → Idle step s m ∨
          NextLooksLike step kind view s (observe kind view (step s m)) (purge foreign ms)) ∧
        (foreign m = true → Idle step s m → Harmless foreign s ms) ∧
        (foreign m = false → Harmless foreign (step s m).1 ms)

end Observer

variable {step} {foreign : M → Bool} {s : S}

@[simp]
theorem purge_cons_own {m : M} (h : foreign m = false) (ms : List M) :
    purge foreign (m :: ms) = m :: purge foreign ms :=
  List.filter_cons_of_pos (by simp [h])

@[simp]
theorem purge_cons_foreign {m : M} (h : foreign m = true) (ms : List M) :
    purge foreign (m :: ms) = purge foreign ms :=
  List.filter_cons_of_neg (by simp [h])

/-- Nothing happens any more once a machine has ended. -/
theorem run_of_ended (h : Ended step s) (ms : List M) : run step s ms = (s, []) := by
  induction ms with
  | nil => rfl
  | cons m ms ih =>
      rw [run, h m]
      exact ih

/-- A last message is read in the state behind the others. -/
theorem run_snoc (s : S) (ms : List M) (m : M) :
    run step s (ms ++ [m]) = ((step (run step s ms).1 m).1,
      (run step s ms).2 ++ (step (run step s ms).1 m).2) := by
  induction ms generalizing s with
  | nil =>
      rw [List.nil_append, run, run, run, List.append_nil, List.nil_append]
  | cons first ms ih =>
      rw [List.cons_append, run, ih, run, List.append_assoc]

/-- An idle message makes no difference. -/
theorem run_cons_of_idle {m : M} (h : Idle step s m) (ms : List M) :
    run step s (m :: ms) = run step s ms := by
  rw [run, h]
  rfl

/-- Idle messages make no difference. -/
theorem run_append_of_idle {front : List M} (h : ∀ k ∈ front, Idle step s k) (ms : List M) :
    run step s (front ++ ms) = run step s ms := by
  induction front with
  | nil => rfl
  | cons k front ih =>
      rw [List.cons_append, run_cons_of_idle (h k List.mem_cons_self)]
      exact ih fun k hk => h k (List.mem_cons_of_mem _ hk)

/-- A message that ends a machine has the last word. -/
theorem run_cons_of_ended {m : M} (h : Ended step (step s m).1) (ms : List M) :
    run step s (m :: ms) = step s m := by
  rw [run, run_of_ended h, List.append_nil]

/-- A list of messages is idle or splits at the first one that is not. -/
theorem exists_first_not_idle (step : S → M → S × List A) (s : S) (ms : List M) :
    (∀ k ∈ ms, Idle step s k) ∨
      ∃ front n back, ms = front ++ n :: back ∧ (∀ k ∈ front, Idle step s k) ∧
        ¬ Idle step s n := by
  induction ms with
  | nil => exact Or.inl fun k hk => nomatch hk
  | cons m ms ih =>
      by_cases hidle : Idle step s m
      · apply ih.imp
        · exact fun hall => List.forall_mem_cons.mpr ⟨hidle, hall⟩
        · rintro ⟨front, n, back, rfl, hfront, hn⟩
          exact ⟨m :: front, n, back, rfl, List.forall_mem_cons.mpr ⟨hidle, hfront⟩, hn⟩
      · exact Or.inr ⟨[], m, ms, rfl, (fun k hk => nomatch hk), hidle⟩

section Observer

variable {K B : Type*} {kind : S → K} {view : A → Option B}

/-- In valid states a foreign message is fatal: if it is not idle it ends the machine,
the observer sees that, and no run that goes on after the next message looks like that
end. -/
structure FatalForeign (step : S → M → S × List A) (kind : S → K) (view : A → Option B)
    (foreign : M → Bool) (valid : S → Prop) : Prop where
  kept : ∀ {s m}, valid s → valid (step s m).1
  ends : ∀ {s m}, valid s → foreign m = true → ¬ Idle step s m → Ended step (step s m).1
  seen : ∀ {s m}, valid s → foreign m = true → ¬ Idle step s m →
    observe kind view (step s m) ≠ observe kind view (s, [])
  visible : ∀ {s m n ms}, valid s → foreign m = true → ¬ Idle step s m → foreign n = false →
    ¬ Idle step s n → observe kind view (run step s (n :: ms)) = observe kind view (step s m) →
    Ended step (step s n).1

variable {valid : S → Prop}

/-- When a fatal message makes no difference: the machine would have ended in the same
way on its own. -/
theorem observe_fatal_iff (hfatal : FatalForeign step kind view foreign valid)
    (hvalid : valid s) {m : M} (hforeign : foreign m = true) (hidle : ¬ Idle step s m) {ms : List M}
    (hown : ∀ k ∈ ms, foreign k = false) :
    observe kind view (run step s ms) = observe kind view (step s m) ↔
      NextLooksLike step kind view s (observe kind view (step s m)) ms := by
  constructor
  · intro hrun
    rcases exists_first_not_idle step s ms with
      hall | ⟨front, n, back, rfl, hfront, hn⟩
    · have hsilent := run_append_of_idle hall []
      rw [List.append_nil] at hsilent
      rw [hsilent] at hrun
      exact absurd hrun.symm (hfatal.seen hvalid hforeign hidle)
    · rw [run_append_of_idle hfront] at hrun
      have hended := hfatal.visible hvalid hforeign hidle (hown n (by simp)) hn hrun
      rw [run_cons_of_ended hended] at hrun
      exact ⟨front, n, back, rfl, hfront, hn, hended, hrun⟩
  · rintro ⟨front, n, back, rfl, hfront, -, hended, hlooks⟩
    rw [run_append_of_idle hfront, run_cons_of_ended hended, hlooks]

/-- What is produced first can be left out of a comparison. -/
theorem observe_append_iff (outputs : List A) (first second : S × List A) :
    observe kind view (first.1, outputs ++ first.2) =
        observe kind view (second.1, outputs ++ second.2) ↔
      observe kind view first = observe kind view second := by
  rw [observe, observe, observe, observe, List.filterMap_append, List.filterMap_append,
    Prod.mk.injEq, Prod.mk.injEq, List.append_cancel_left_eq]

/-- **When foreign messages make no difference.** -/
theorem observe_purge_iff (hfatal : FatalForeign step kind view foreign valid)
    (hvalid : valid s) (ms : List M) :
    observe kind view (run step s (purge foreign ms)) = observe kind view (run step s ms) ↔
      Harmless step kind view foreign s ms := by
  induction ms generalizing s with
  | nil => exact iff_of_true rfl trivial
  | cons m ms ih =>
      rw [Harmless]
      cases hforeign : foreign m with
      | false =>
          rw [purge_cons_own hforeign, run, run, observe_append_iff, ih (hfatal.kept hvalid)]
          simp
      | true =>
          rw [purge_cons_foreign hforeign]
          by_cases hidle : Idle step s m
          · rw [run_cons_of_idle hidle, ih hvalid]
            simp [hidle]
          · have hown : ∀ k ∈ purge foreign ms, foreign k = false := by
              intro k hk
              simpa using (List.mem_filter.mp hk).2
            rw [run_cons_of_ended (hfatal.ends hvalid hforeign hidle),
              observe_fatal_iff hfatal hvalid hforeign hidle hown]
            simp [hidle]

/-- Inputs with the same own messages and only harmless foreign ones look the same. -/
theorem observe_eq_of_harmless (hfatal : FatalForeign step kind view foreign valid)
    (hvalid : valid s) {ms ms' : List M} (hpurge : purge foreign ms = purge foreign ms')
    (h : Harmless step kind view foreign s ms) (h' : Harmless step kind view foreign s ms') :
    observe kind view (run step s ms) = observe kind view (run step s ms') := by
  rw [← (observe_purge_iff hfatal hvalid ms).mpr h, hpurge]
  exact (observe_purge_iff hfatal hvalid ms').mpr h'

end Observer

end MessageMachine
