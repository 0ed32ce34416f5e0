/-
# Calls made by spawned tasks

A loop spawns a task for everything it receives, and each task makes one call. Tasks are
numbered as they are spawned, and take effect in whatever order the scheduler runs them.

If a task is spawned only when no earlier one is still pending, the calls take effect in the
order in which their tasks were spawned. `inOrder_run` says so of every system whose steps
are such moves.
-/

import HiveBear.Library.Run
import Mathlib.Data.List.Pairwise

namespace SpawnedCalls

open LabelledRun

/-- How a system is seen: how many tasks it has spawned, which of them are pending, and the
tasks whose calls have taken effect, first to last. -/
structure View (S : Type*) where
  spawned : S → ℕ
  pending : S → ℕ → Prop
  done : S → List ℕ

variable {S L : Type*} (view : View S)

/-- What a step may do. -/
inductive Move (s t : S) : Prop
  /-- A task is spawned, and no other one is pending. -/
  | spawn (idle : ∀ i, ¬ view.pending s i) (spawned : view.spawned t = view.spawned s + 1)
      (pending : ∀ i, view.pending t i → i = view.spawned s) (done : view.done t = view.done s)
  /-- The call of a pending task takes effect. -/
  | finish (i : ℕ) (before : view.pending s i) (spawned : view.spawned t = view.spawned s)
      (pending : ∀ j, view.pending t j → view.pending s j ∧ j ≠ i)
      (done : view.done t = view.done s ++ [i])
  | stay (spawned : view.spawned t = view.spawned s)
      (pending : ∀ i, view.pending t i → view.pending s i) (done : view.done t = view.done s)

/-- At most one task is pending, and everything before it is done in order. -/
structure InOrder (s : S) : Prop where
  ordered : (view.done s).Pairwise (· < ·)
  behind : ∀ {i}, view.pending s i → ∀ j ∈ view.done s, j < i
  alone : ∀ {i j}, view.pending s i → view.pending s j → i = j
  done_lt : ∀ i ∈ view.done s, i < view.spawned s
  pending_lt : ∀ {i}, view.pending s i → i < view.spawned s

variable {view} {s t : S}

/-- A task that is spawned alone keeps the order. -/
theorem InOrder.spawn (h : InOrder view s) (spawned : view.spawned t = view.spawned s + 1)
    (pending : ∀ i, view.pending t i → i = view.spawned s) (done : view.done t = view.done s) :
    InOrder view t where
  ordered := by
    rw [done]
    exact h.ordered
  behind := fun {i} hpending j hdone => by
    rw [done] at hdone
    rw [pending i hpending]
    exact h.done_lt j hdone
  alone := fun {i j} hi hj => (pending i hi).trans (pending j hj).symm
  done_lt := fun i hdone => by
    rw [done] at hdone
    rw [spawned]
    exact Nat.lt_succ_of_lt (h.done_lt i hdone)
  pending_lt := fun {i} hpending => by
    rw [pending i hpending, spawned]
    exact Nat.lt_succ_self _

/-- A call that takes effect keeps the order: its task was the only pending one. -/
theorem InOrder.finish (h : InOrder view s) {i : ℕ} (before : view.pending s i)
    (spawned : view.spawned t = view.spawned s)
    (pending : ∀ j, view.pending t j → view.pending s j ∧ j ≠ i)
    (done : view.done t = view.done s ++ [i]) : InOrder view t := by
  have hidle : ∀ j, ¬ view.pending t j := by
    intro j hpending
    exact (pending j hpending).2 (h.alone (pending j hpending).1 before)
  constructor
  · rw [done, List.pairwise_append]
    refine ⟨h.ordered, List.pairwise_singleton _ i, ?_⟩
    intro j hdone k hk
    rw [List.mem_singleton.mp hk]
    exact h.behind before j hdone
  · intro j hpending
    exact absurd hpending (hidle j)
  · intro j _ hpending
    exact absurd hpending (hidle j)
  · intro j hdone
    rw [done, List.mem_append, List.mem_singleton] at hdone
    rw [spawned]
    rcases hdone with hdone | rfl
    · exact h.done_lt j hdone
    · exact h.pending_lt before
  · intro j hpending
    exact absurd hpending (hidle j)

/-- Every move keeps the order. -/
theorem InOrder.move (h : InOrder view s) (move : Move view s t) : InOrder view t := by
  cases move with
  | spawn _ spawned pending done => exact h.spawn spawned pending done
  | finish i before spawned pending done => exact h.finish before spawned pending done
  | stay spawned pending done =>
      constructor
      · rw [done]
        exact h.ordered
      · intro i hpending
        rw [done]
        exact h.behind (pending i hpending)
      · intro i j hi hj
        exact h.alone (pending i hi) (pending j hj)
      · rw [done, spawned]
        exact h.done_lt
      · intro i hpending
        rw [spawned]
        exact h.pending_lt (pending i hpending)

/-- **Calls take effect in order** if each task is spawned alone. -/
theorem inOrder_run {step : S → L → S → Prop} {labels : List L}
    (hmove : ∀ {s label t}, step s label t → Move view s t)
    (hidle : ∀ i, ¬ view.pending s i) (hdone : view.done s = []) (run : Run step s labels t) :
    InOrder view t := by
  have hstart : InOrder view s := by
    constructor
    · rw [hdone]
      exact List.Pairwise.nil
    · intro i hpending
      exact absurd hpending (hidle i)
    · intro i _ hpending
      exact absurd hpending (hidle i)
    · rw [hdone]
      intro i hi
      cases hi
    · intro i hpending
      exact absurd hpending (hidle i)
  exact run.invariant (fun h step => h.move (hmove step)) hstart

/-- The items at increasing positions are in the order of the list. -/
theorem sublist_of_positions {α : Type*} {items : List α} {positions : List ℕ}
    (hordered : positions.Pairwise (· < ·)) (hbound : ∀ i ∈ positions, i < items.length) :
    (positions.filterMap fun i => items[i]?).Sublist items := by
  obtain ⟨inside, rfl⟩ : ∃ inside : List (Fin items.length), inside.map Fin.val = positions := by
    refine ⟨positions.pmap Fin.mk hbound, ?_⟩
    rw [List.map_pmap, List.pmap_eq_map, List.map_id']
  have hincreasing : inside.Pairwise (· < ·) := by
    rw [List.pairwise_map] at hordered
    exact hordered
  have hitems : (inside.map Fin.val).filterMap (fun i => items[i]?) =
      inside.map fun i => items[i] := by
    rw [List.filterMap_map, ← List.filterMap_eq_map]
    congr 1
    funext i
    exact List.getElem?_eq_getElem i.isLt
  rw [hitems]
  exact List.map_getElem_sublist hincreasing

end SpawnedCalls
