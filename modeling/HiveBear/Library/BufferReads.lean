/-
# Programs that read a buffer

A program that indexes a buffer is a tree: it ends with a result, or it reads an element and
goes on with it. On a given buffer it reads some indices, one after the other, and has a result
unless one of them is outside the buffer, where it panics.

`Stays` says that a program reads nothing but indices of some kind. It is taken apart along the
program, so that what a program reads is shown step by step.
-/

import Mathlib.Data.List.Basic
import Mathlib.Logic.Basic

namespace BufferReads

/-- A program that reads a buffer of `β`s and computes an `α`. -/
inductive Reads (β α : Type)
  | done (a : α)
  | read (i : ℕ) (next : β → Reads β α)

namespace Reads

variable {β α γ : Type}

/-- One program and then another one. -/
def bind : Reads β α → (α → Reads β γ) → Reads β γ
  | done a, f => f a
  | read i next, f => read i fun b => (next b).bind f

instance : Monad (Reads β) where
  pure := done
  bind := bind

/-- The element at an index. -/
def get (i : ℕ) : Reads β β := read i done

/-- The indices that are read, in order. -/
def used (buffer : List β) : Reads β α → List ℕ
  | done _ => []
  | read i next =>
      match buffer[i]? with
      | some b => i :: (next b).used buffer
      | none => [i]

/-- The result, unless the program panics. -/
def result (buffer : List β) : Reads β α → Option α
  | done a => some a
  | read i next =>
      match buffer[i]? with
      | some b => (next b).result buffer
      | none => none

/-- The program reads only indices of this kind. -/
def Stays (buffer : List β) (P : ℕ → Prop) (program : Reads β α) : Prop :=
  ∀ i ∈ program.used buffer, P i

variable {buffer : List β} {P : ℕ → Prop} {i : ℕ} {b : β}

/-! ## Results -/

theorem result_bind (program : Reads β α) (f : α → Reads β γ) :
    (program >>= f).result buffer = (program.result buffer).bind fun a => (f a).result buffer := by
  induction program with
  | done a => rfl
  | read i next ih =>
      change (read i fun b => next b >>= f).result buffer = _
      rw [result, result]
      cases buffer[i]? with
      | some b => exact ih b
      | none => rfl

theorem result_get_bind (h : buffer[i]? = some b) (f : β → Reads β α) :
    (get i >>= f).result buffer = (f b).result buffer := by
  change (read i f).result buffer = _
  rw [result, h]

/-- **A program panics just if it reads outside the buffer.** -/
theorem result_eq_none_iff (program : Reads β α) :
    program.result buffer = none ↔ ∃ i ∈ program.used buffer, buffer.length ≤ i := by
  induction program with
  | done a => simp [result, used]
  | read i next ih =>
      rw [result, used]
      cases hget : buffer[i]? with
      | some b =>
          have hlt : i < buffer.length := (List.getElem?_eq_some_iff.mp hget).1
          simp only [ih b, List.mem_cons, exists_eq_or_imp]
          rw [or_iff_right (Nat.not_le.mpr hlt)]
      | none =>
          have hle : buffer.length ≤ i := List.getElem?_eq_none_iff.mp hget
          simp [hle]

/-! ## Where a program stays -/

theorem stays_pure (a : α) : Stays buffer P (pure a : Reads β α) := fun _ h => by cases h

theorem stays_read (next : β → Reads β α) :
    Stays buffer P (read i next) ↔ P i ∧ ∀ b, buffer[i]? = some b → Stays buffer P (next b) := by
  rw [Stays, used]
  cases buffer[i]? with
  | some b => simp [Stays]
  | none => simp

/-- A program in two parts stays where both of them do. -/
theorem stays_bind (program : Reads β α) (f : α → Reads β γ) :
    Stays buffer P (program >>= f) ↔
      Stays buffer P program ∧ ∀ a, program.result buffer = some a → Stays buffer P (f a) := by
  induction program with
  | done a =>
      have hdone : Stays buffer P (done a : Reads β α) := stays_pure a
      rw [and_iff_right hdone]
      simp only [result, Option.some.injEq, forall_eq']
      rfl
  | read i next ih =>
      change Stays buffer P (read i fun b => next b >>= f) ↔ _
      rw [stays_read, stays_read, result]
      cases buffer[i]? with
      | some b => simp [ih, and_assoc]
      | none => simp

/-- Reading an element, where one stays in the buffer. -/
theorem stays_get_bind (hP : ∀ i, P i → i < buffer.length) (f : β → Reads β α) :
    Stays buffer P (get i >>= f) ↔ P i ∧ ∃ b, buffer[i]? = some b ∧ Stays buffer P (f b) := by
  change Stays buffer P (read i f) ↔ _
  rw [stays_read]
  refine and_congr_right fun hi => ?_
  rw [List.getElem?_eq_getElem (hP i hi)]
  simp

/-- A program that stays in the buffer has a result. -/
theorem exists_result_of_stays {program : Reads β α} (h : Stays buffer P program)
    (hP : ∀ i, P i → i < buffer.length) : ∃ a, program.result buffer = some a := by
  rw [← Option.ne_none_iff_exists', Ne, result_eq_none_iff]
  rintro ⟨i, hi, hout⟩
  exact absurd (hP i (h i hi)) (Nat.not_lt.mpr hout)

end Reads

end BufferReads
