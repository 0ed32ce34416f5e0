/-
# Mailboxes of bounded size

There is a mailbox for each key. A value posted to a key goes to the end of its mailbox if
there is room, and is refused otherwise; taking a mailbox empties it.

`mem_numbered` says what a mailbox holds when each value is numbered by its place among the
operations: the values that were accepted and not taken since. The numbers are not looked at
by any operation, so they tell apart values that are equal without changing anything.
-/

import HiveBear.Library.Run
import Mathlib.Data.List.Enum
import Mathlib.Logic.Function.Basic

namespace Mailbox

open LabelledRun

variable {K V W : Type*}

/-- What each mailbox holds, oldest first. -/
abbrev Boxes (K V : Type*) := K → List V

/-- Something done to the mailboxes. -/
inductive Op (K V : Type*)
  | post (key : K) (value : V)
  | take (key : K)
  | idle

/-- The same operation on other values. -/
def Op.map (f : V → W) : Op K V → Op K W
  | .post key value => .post key (f value)
  | .take key => .take key
  | .idle => .idle

variable [DecidableEq K] (capacity : ℕ)

/-- The mailboxes behind an operation. -/
def next (boxes : Boxes K V) : Op K V → Boxes K V
  | .post key value =>
      if (boxes key).length < capacity then
        Function.update boxes key (boxes key ++ [value])
      else boxes
  | .take key => Function.update boxes key []
  | .idle => boxes

/-- The mailboxes behind these operations, empty at first. -/
def after (ops : List (Op K V)) : Boxes K V := exec (next capacity) (fun _ => []) ops

theorem after_snoc (ops : List (Op K V)) (op : Op K V) :
    after capacity (ops ++ [op]) = next capacity (after capacity ops) op :=
  exec_snoc _ _ ops op

/-- No mailbox holds more than there is room for. -/
theorem length_after_le (ops : List (Op K V)) (key : K) :
    (after capacity ops key).length ≤ capacity := by
  induction ops using List.reverseRecOn with
  | nil => exact Nat.zero_le capacity
  | append_singleton ops op ih =>
      rw [after_snoc]
      cases op with
      | idle => exact ih
      | take other =>
          by_cases hkey : key = other
          · simp [next, hkey]
          · simpa [next, Function.update_of_ne hkey] using ih
      | post other value =>
          rw [next]
          split_ifs with hroom
          · by_cases hkey : key = other
            · subst hkey
              simpa [Nat.succ_le_iff] using hroom
            · simpa [Function.update_of_ne hkey] using ih
          · exact ih

/-! ## Numbered values -/

/-- The operations, each value with its place among them. -/
def numbered (ops : List (Op K V)) : List (Op K (ℕ × V)) :=
  ops.zipIdx.map fun entry => entry.1.map (entry.2, ·)

omit [DecidableEq K] in
theorem numbered_snoc (ops : List (Op K V)) (op : Op K V) :
    numbered (ops ++ [op]) = numbered ops ++ [op.map (ops.length, ·)] := by
  simp [numbered, List.zipIdx_append]

/-- The values in the mailboxes play no part in what happens to them. -/
theorem next_map (f : V → W) (boxes : Boxes K V) (op : Op K V) :
    next capacity (fun key => (boxes key).map f) (op.map f) =
      fun key => (next capacity boxes op key).map f := by
  cases op with
  | idle => rfl
  | take key =>
      funext other
      exact (Function.apply_update (fun _ => List.map f) boxes key [] other).symm
  | post key value =>
      simp only [Op.map, next, List.length_map]
      split_ifs
      · funext other
        rw [Function.apply_update (fun _ => List.map f), List.map_append]
        rfl
      · rfl

/-- Without their numbers, the values are what they were. -/
theorem after_numbered (ops : List (Op K V)) (key : K) :
    (after capacity (numbered ops) key).map Prod.snd = after capacity ops key := by
  induction ops using List.reverseRecOn generalizing key with
  | nil => rfl
  | append_singleton ops op ih =>
      rw [numbered_snoc, after_snoc, after_snoc]
      have hmap := congrFun (next_map capacity Prod.snd (after capacity (numbered ops))
        (op.map (ops.length, ·))) key
      have hop : (op.map fun value => (ops.length, value)).map Prod.snd = op := by
        cases op <;> rfl
      rw [hop] at hmap
      rw [← hmap]
      congr 1
      funext other
      exact ih other

/-- The value was accepted at its place, and its mailbox has not been taken since. -/
def Waiting (ops : List (Op K V)) (key : K) (entry : ℕ × V) : Prop :=
  ∃ before later, ops = before ++ .post key entry.2 :: later ∧ before.length = entry.1 ∧
    (after capacity before key).length < capacity ∧ .take key ∉ later

theorem waiting_snoc {ops : List (Op K V)} {op : Op K V} {key : K} {entry : ℕ × V} :
    Waiting capacity (ops ++ [op]) key entry ↔
      op = .post key entry.2 ∧ ops.length = entry.1 ∧
          (after capacity ops key).length < capacity ∨
        op ≠ .take key ∧ Waiting capacity ops key entry := by
  constructor
  · rintro ⟨before, later, hsplit, hplace, hroom, hkept⟩
    cases later using List.reverseRecOn with
    | nil =>
        obtain ⟨rfl, hop⟩ := List.append_inj' hsplit rfl
        exact Or.inl ⟨List.singleton_inj.mp hop, hplace, hroom⟩
    | append_singleton later last =>
        rw [← List.cons_append, ← List.append_assoc] at hsplit
        obtain ⟨rfl, hop⟩ := List.append_inj' hsplit rfl
        obtain rfl : op = last := List.singleton_inj.mp hop
        rw [List.mem_append, List.mem_singleton, not_or] at hkept
        exact Or.inr ⟨Ne.symm hkept.2, before, later, rfl, hplace, hroom, hkept.1⟩
  · rintro (⟨rfl, hplace, hroom⟩ | ⟨hop, before, later, rfl, hplace, hroom, hkept⟩)
    · exact ⟨ops, [], rfl, hplace, hroom, List.not_mem_nil⟩
    · refine ⟨before, later ++ [op], by simp, hplace, hroom, ?_⟩
      rw [List.mem_append, List.mem_singleton, not_or]
      exact ⟨hkept, Ne.symm hop⟩

/-- **A mailbox holds the values that were accepted and not taken since.** -/
theorem mem_numbered (ops : List (Op K V)) (key : K) (entry : ℕ × V) :
    entry ∈ after capacity (numbered ops) key ↔ Waiting capacity ops key entry := by
  induction ops using List.reverseRecOn with
  | nil =>
      refine iff_of_false List.not_mem_nil ?_
      rintro ⟨before, later, hsplit, -⟩
      simp at hsplit
  | append_singleton ops op ih =>
      rw [numbered_snoc, after_snoc, waiting_snoc, ← ih]
      cases op with
      | idle => simp [next, Op.map]
      | take other =>
          by_cases hkey : key = other
          · subst hkey
            simp [next, Op.map]
          · simp [next, Op.map, Function.update_of_ne hkey, Ne.symm hkey]
      | post other value =>
          have hlength : (after capacity (numbered ops) other).length =
              (after capacity ops other).length := by
            rw [← after_numbered capacity ops other, List.length_map]
          simp only [Op.map, next, hlength]
          obtain ⟨place, held⟩ := entry
          by_cases hkey : key = other
          · subst hkey
            split_ifs with hroom
            · simp [hroom, or_comm, eq_comm, and_comm]
            · simp [hroom]
          · have hother : other ≠ key := Ne.symm hkey
            split_ifs with hroom
            · simp [Function.update_of_ne hkey, hother]
            · simp [hother]

/-- The values of a mailbox come in the order in which they were posted. -/
theorem pairwise_numbered (ops : List (Op K V)) (key : K) :
    (after capacity (numbered ops) key).Pairwise fun earlier later => earlier.1 < later.1 := by
  induction ops using List.reverseRecOn generalizing key with
  | nil => exact List.Pairwise.nil
  | append_singleton ops op ih =>
      rw [numbered_snoc, after_snoc]
      cases op with
      | idle => exact ih key
      | take other =>
          by_cases hkey : key = other
          · simp [next, Op.map, hkey]
          · simpa [next, Op.map, Function.update_of_ne hkey] using ih key
      | post other value =>
          simp only [Op.map, next]
          split_ifs
          · by_cases hkey : key = other
            · subst hkey
              rw [Function.update_self, List.pairwise_append]
              refine ⟨ih key, List.pairwise_singleton _ _, ?_⟩
              intro entry hentry last hlast
              rw [mem_numbered] at hentry
              obtain ⟨before, later, rfl, hplace, -⟩ := hentry
              rw [List.mem_singleton.mp hlast]
              simp [← hplace]
            · simpa [Function.update_of_ne hkey] using ih key
          · exact ih key

end Mailbox
