/-
# Chains of stateful stages

A pipeline is a chain of stages with a first-in first-out queue in front of each
and one behind the last. A stage that has input may react at any time: it takes
one item off its queue, changes its state, and appends one item to the next queue.

The order of these reactions does not matter. Whatever has come out of the chain
is a prefix of what the stages compute when each works through its whole input
before the next one starts (`cascade`), and it is all of that once the queues are
empty. The proof keeps account of what each stage has consumed: `Accounted` says
that a stage's state and the items it handed on are those of a run over exactly
these items. Nothing gets stuck either: without further input a chain can always run
until its queues are empty (`exists_drained`).

A stack of layers is a list of layer indices, each with the state that the layer keeps
from one input to the next. Cutting a stack into pieces, one for each stage, changes
nothing: when every piece works through all of its inputs before the next piece starts,
the outputs and the final states are those of the whole stack (`runList_stackReact_append`),
for any number of pieces (`cascade_stackReact`).
-/

import HiveBear.Library.Run
import Mathlib.Logic.Function.Basic

namespace StagePipeline

open LabelledRun

section Lists

variable {S A : Type*} (react : S → A → S × A)

/-- A stage works through a list of items: its state afterwards and what it
produces. -/
def runList : S → List A → S × List A
  | s, [] => (s, [])
  | s, x :: xs =>
      let reaction := react s x
      let rest := runList reaction.1 xs
      (rest.1, reaction.2 :: rest.2)

@[simp]
theorem runList_cons (s : S) (x : A) (xs : List A) :
    runList react s (x :: xs) =
      ((runList react (react s x).1 xs).1,
        (react s x).2 :: (runList react (react s x).1 xs).2) := rfl

/-- A stage works through two lists one after the other. -/
theorem runList_append (s : S) (xs ys : List A) :
    runList react s (xs ++ ys) =
      ((runList react (runList react s xs).1 ys).1,
        (runList react s xs).2 ++ (runList react (runList react s xs).1 ys).2) := by
  induction xs generalizing s with
  | nil => rfl
  | cons x xs ih => rw [List.cons_append, runList_cons, ih, runList_cons, List.cons_append]

/-- One more item. -/
theorem runList_concat {s t : S} {xs out : List A} (h : runList react s xs = (t, out)) (x : A) :
    runList react s (xs ++ [x]) = ((react t x).1, out ++ [(react t x).2]) := by
  rw [runList_append, h]
  rfl

/-- More input never takes output back. -/
theorem runList_prefix (s : S) {xs ys : List A} (h : xs <+: ys) :
    (runList react s xs).2 <+: (runList react s ys).2 := by
  obtain ⟨rest, rfl⟩ := h
  rw [runList_append]
  exact List.prefix_append _ _

/-- What the first `n` stages make of a list of items when each works through all
of its input before the next one starts. -/
def cascade (initial : ℕ → S) : ℕ → List A → List A
  | 0, xs => xs
  | n + 1, xs => (runList react (initial n) (cascade initial n xs)).2

end Lists

/-- A chain of stages. `queues k` holds the input of stage `k`; `fed` and `received`
remember all that was put into the chain and taken out of it. -/
structure Pipeline (S A : Type*) where
  stages : ℕ → S
  queues : ℕ → List A
  fed : List A
  received : List A

/-- What can happen in a chain. -/
inductive Label (A : Type*)
  | feed (x : A)
  | fire (k : ℕ)
  | emit

variable {S A : Type*}

namespace Pipeline

/-- Stages in their initial states, and nothing on its way. -/
def start (initial : ℕ → S) : Pipeline S A := ⟨initial, fun _ => [], [], []⟩

/-- An item enters the chain. -/
def feed (p : Pipeline S A) (x : A) : Pipeline S A :=
  { p with
    queues := Function.update p.queues 0 (p.queues 0 ++ [x])
    fed := p.fed ++ [x] }

/-- Stage `k` reacts to the item `x`, which leaves `rest` in its queue. -/
def fire (react : S → A → S × A) (p : Pipeline S A) (k : ℕ) (x : A) (rest : List A) :
    Pipeline S A :=
  { p with
    stages := Function.update p.stages k (react (p.stages k) x).1
    queues := Function.update (Function.update p.queues k rest) (k + 1)
      (p.queues (k + 1) ++ [(react (p.stages k) x).2]) }

/-- The item `x` leaves the chain of `n` stages. -/
def emit (p : Pipeline S A) (n : ℕ) (x : A) (rest : List A) : Pipeline S A :=
  { p with
    queues := Function.update p.queues n rest
    received := p.received ++ [x] }

end Pipeline

/-- The steps of a chain of `n` stages. -/
inductive Step (react : S → A → S × A) (n : ℕ) : Pipeline S A → Label A → Pipeline S A → Prop
  | feed {p : Pipeline S A} {x : A} : Step react n p (.feed x) (p.feed x)
  | fire {p : Pipeline S A} {k : ℕ} {x : A} {rest : List A} (hk : k < n)
      (head : p.queues k = x :: rest) : Step react n p (.fire k) (p.fire react k x rest)
  | emit {p : Pipeline S A} {x : A} {rest : List A} (head : p.queues n = x :: rest) :
      Step react n p .emit (p.emit n x rest)

/-! ## What each stage has consumed -/

variable {react : S → A → S × A} {initial : ℕ → S} {n : ℕ} {p : Pipeline S A}

/-- Each stage has consumed a list of items, its state is that of a run over them,
and what this run produced has been consumed by the next stage or waits in its
queue. -/
structure Accounted (react : S → A → S × A) (initial : ℕ → S) (n : ℕ) (p : Pipeline S A)
    (consumed : ℕ → List A) : Prop where
  fed : p.fed = consumed 0 ++ p.queues 0
  stages : ∀ k < n, runList react (initial k) (consumed k) =
    (p.stages k, consumed (k + 1) ++ p.queues (k + 1))
  received : p.received = consumed n

theorem accounted_start : Accounted react initial n (Pipeline.start initial) fun _ => [] where
  fed := rfl
  stages _ _ := rfl
  received := rfl

/-- Taking the head of a queue moves it from the queue to what was consumed. -/
theorem consumed_append_queue (consumed : ℕ → List A) {queues : ℕ → List A} {k : ℕ} {x : A}
    {rest : List A} (head : queues k = x :: rest) (j : ℕ) :
    Function.update consumed k (consumed k ++ [x]) j ++ Function.update queues k rest j =
      consumed j ++ queues j := by
  by_cases hj : j = k
  · subst hj
    rw [Function.update_self, Function.update_self, head, List.append_assoc,
      List.singleton_append]
  · rw [Function.update_of_ne hj, Function.update_of_ne hj]

/-- Every step keeps the account. -/
theorem exists_accounted_of_step {consumed : ℕ → List A} {label : Label A} {q : Pipeline S A}
    (h : Accounted react initial n p consumed) (step : Step react n p label q) :
    ∃ consumed', Accounted react initial n q consumed' := by
  cases step with
  | @feed x =>
      refine ⟨consumed, ?_, ?_, h.received⟩
      · show p.fed ++ [x] = consumed 0 ++ Function.update p.queues 0 (p.queues 0 ++ [x]) 0
        rw [Function.update_self, h.fed, List.append_assoc]
      · intro k hk
        show _ = (p.stages k,
          consumed (k + 1) ++ Function.update p.queues 0 (p.queues 0 ++ [x]) (k + 1))
        rw [Function.update_of_ne (Nat.succ_ne_zero k)]
        exact h.stages k hk
  | @fire k x rest hk head =>
      have hkeep := consumed_append_queue consumed head
      refine ⟨Function.update consumed k (consumed k ++ [x]), ?_, ?_, ?_⟩
      · show p.fed = _ ++ Function.update (Function.update p.queues k rest) (k + 1)
          (p.queues (k + 1) ++ [(react (p.stages k) x).2]) 0
        rw [Function.update_of_ne (Nat.succ_ne_zero k).symm, hkeep]
        exact h.fed
      · intro j hj
        show _ = (Function.update p.stages k (react (p.stages k) x).1 j,
          _ ++ Function.update (Function.update p.queues k rest) (k + 1)
            (p.queues (k + 1) ++ [(react (p.stages k) x).2]) (j + 1))
        by_cases hjk : j = k
        · subst hjk
          rw [Function.update_self, Function.update_self, Function.update_self,
            Function.update_of_ne (Nat.succ_ne_self j), ← List.append_assoc]
          exact runList_concat react (h.stages j hj) x
        · rw [Function.update_of_ne hjk, Function.update_of_ne hjk,
            Function.update_of_ne (fun heq => hjk (Nat.succ.inj heq)), hkeep]
          exact h.stages j hj
      · rw [Function.update_of_ne (Nat.ne_of_lt hk).symm]
        exact h.received
  | @emit x rest head =>
      have hkeep := consumed_append_queue consumed head
      refine ⟨Function.update consumed n (consumed n ++ [x]), ?_, ?_, ?_⟩
      · exact h.fed.trans (hkeep 0).symm
      · intro k hk
        show _ = (p.stages k, _ ++ Function.update p.queues n rest (k + 1))
        rw [hkeep, Function.update_of_ne (Nat.ne_of_lt hk)]
        exact h.stages k hk
      · show p.received ++ [x] = _
        rw [Function.update_self, h.received]

/-- What a stage has handed on. -/
theorem Accounted.output {consumed : ℕ → List A} (h : Accounted react initial n p consumed)
    {k : ℕ} (hk : k < n) :
    (runList react (initial k) (consumed k)).2 = consumed (k + 1) ++ p.queues (k + 1) := by
  rw [h.stages k hk]

/-- What is in and behind a queue is a prefix of the cascade, and all of it when
the queues in front are empty. -/
theorem Accounted.prefix_cascade {consumed : ℕ → List A}
    (h : Accounted react initial n p consumed) {k : ℕ} (hk : k ≤ n) :
    consumed k ++ p.queues k <+: cascade react initial k p.fed := by
  induction k with
  | zero =>
      rw [← h.fed]
      exact List.prefix_rfl
  | succ k ih =>
      rw [← h.output hk]
      apply runList_prefix
      exact (List.prefix_append _ _).trans (ih (Nat.le_of_succ_le hk))

/-- With all queues empty, each stage has consumed its whole part of the cascade. -/
theorem Accounted.eq_cascade {consumed : ℕ → List A}
    (h : Accounted react initial n p consumed) (hempty : ∀ k ≤ n, p.queues k = []) {k : ℕ}
    (hk : k ≤ n) : consumed k = cascade react initial k p.fed := by
  induction k with
  | zero =>
      rw [cascade, h.fed, hempty 0 hk, List.append_nil]
  | succ k ih =>
      rw [cascade, ← ih (Nat.le_of_succ_le hk), h.output hk, hempty (k + 1) hk, List.append_nil]

/-- A run of a chain accounts for what was fed. -/
theorem exists_accounted_of_run {labels : List (Label A)}
    (run : Run (Step react n) (Pipeline.start initial) labels p) :
    ∃ consumed, Accounted react initial n p consumed := by
  apply run.invariant
  · intro s label t hs step
    obtain ⟨consumed, haccounted⟩ := hs
    exact exists_accounted_of_step haccounted step
  · exact ⟨fun _ => [], accounted_start⟩

/-- **Schedules do not matter.** What a chain has handed out is a prefix of the
cascade of what it was fed, in whatever order its stages reacted. -/
theorem received_prefix_cascade {labels : List (Label A)}
    (run : Run (Step react n) (Pipeline.start initial) labels p) :
    p.received <+: cascade react initial n p.fed := by
  obtain ⟨consumed, haccounted⟩ := exists_accounted_of_run run
  rw [haccounted.received]
  exact (List.prefix_append _ _).trans (haccounted.prefix_cascade (Nat.le_refl n))

/-- A chain with nothing on its way has handed out the whole cascade. -/
theorem received_eq_cascade {labels : List (Label A)}
    (run : Run (Step react n) (Pipeline.start initial) labels p)
    (hempty : ∀ k ≤ n, p.queues k = []) :
    p.received = cascade react initial n p.fed := by
  obtain ⟨consumed, haccounted⟩ := exists_accounted_of_run run
  rw [haccounted.received]
  exact haccounted.eq_cascade hempty (Nat.le_refl n)

/-! ## Chains run empty -/

/-- The steps that put nothing into the chain. -/
def Label.Internal : Label A → Prop
  | .feed _ => False
  | _ => True

/-- The steps of a chain that gets no more input. -/
def Drain (react : S → A → S × A) (n : ℕ) : Pipeline S A → Label A → Pipeline S A → Prop :=
  Guarded (fun _ label => label.Internal) (Step react n)

theorem Drain.fire {k : ℕ} {x : A} {rest : List A} (hk : k < n)
    (head : p.queues k = x :: rest) : Drain react n p (.fire k) (p.fire react k x rest) :=
  ⟨trivial, Step.fire hk head⟩

theorem Drain.emit {x : A} {rest : List A} (head : p.queues n = x :: rest) :
    Drain react n p .emit (p.emit n x rest) :=
  ⟨trivial, Step.emit head⟩

/-- A stage can work through its whole queue, which changes no queue but its own and
the next one. -/
theorem exists_drained_stage {start : Pipeline S A} {k : ℕ} (hk : k < n)
    {labels : List (Label A)} (run : Run (Drain react n) start labels p) :
    ∃ labels' q, Run (Drain react n) start labels' q ∧ q.fed = p.fed ∧ q.queues k = [] ∧
      ∀ j, j ≠ k → j ≠ k + 1 → q.queues j = p.queues j := by
  induction hqueue : p.queues k generalizing p labels with
  | nil => exact ⟨labels, p, run, rfl, hqueue, fun _ _ _ => rfl⟩
  | cons x rest ih =>
      have hfired : (p.fire react k x rest).queues k = rest := by
        show Function.update (Function.update p.queues k rest) (k + 1)
          (p.queues (k + 1) ++ [(react (p.stages k) x).2]) k = rest
        rw [Function.update_of_ne (Nat.succ_ne_self k).symm, Function.update_self]
      obtain ⟨labels', q, hrun, hfed, hempty, hother⟩ :=
        ih (run.snoc (Drain.fire hk hqueue)) hfired
      refine ⟨labels', q, hrun, hfed, hempty, ?_⟩
      intro j hj hj'
      rw [hother j hj hj']
      show Function.update (Function.update p.queues k rest) (k + 1)
        (p.queues (k + 1) ++ [(react (p.stages k) x).2]) j = p.queues j
      rw [Function.update_of_ne hj', Function.update_of_ne hj]

/-- The last queue can be emptied. -/
theorem exists_drained_last {start : Pipeline S A} {labels : List (Label A)}
    (run : Run (Drain react n) start labels p) :
    ∃ labels' q, Run (Drain react n) start labels' q ∧ q.fed = p.fed ∧ q.queues n = [] ∧
      ∀ j, j ≠ n → q.queues j = p.queues j := by
  induction hqueue : p.queues n generalizing p labels with
  | nil => exact ⟨labels, p, run, rfl, hqueue, fun _ _ => rfl⟩
  | cons x rest ih =>
      have hemitted : (p.emit n x rest).queues n = rest := Function.update_self _ _ _
      obtain ⟨labels', q, hrun, hfed, hempty, hother⟩ :=
        ih (run.snoc (Drain.emit hqueue)) hemitted
      refine ⟨labels', q, hrun, hfed, hempty, ?_⟩
      intro j hj
      rw [hother j hj]
      exact Function.update_of_ne hj _ _

/-- The queues in front of stage `k` can be emptied, one after the other. -/
theorem exists_drained_front (p : Pipeline S A) {k : ℕ} (hk : k ≤ n) :
    ∃ labels q, Run (Drain react n) p labels q ∧ q.fed = p.fed ∧ ∀ j < k, q.queues j = [] := by
  induction k with
  | zero => exact ⟨[], p, Run.nil p, rfl, fun j hj => absurd hj (Nat.not_lt_zero j)⟩
  | succ k ih =>
      obtain ⟨labels, q, hrun, hfed, hfront⟩ := ih (Nat.le_of_succ_le hk)
      obtain ⟨labels', r, hrun', hfed', hempty, hother⟩ := exists_drained_stage hk hrun
      refine ⟨labels', r, hrun', hfed'.trans hfed, ?_⟩
      intro j hj
      rcases Nat.lt_succ_iff_lt_or_eq.mp hj with hlt | rfl
      · rw [hother j (Nat.ne_of_lt hlt) (Nat.ne_of_lt (Nat.lt_succ_of_lt hlt))]
        exact hfront j hlt
      · exact hempty

/-- **Nothing gets stuck.** Without further input a chain can run until nothing is on
its way. -/
theorem exists_drained (react : S → A → S × A) (n : ℕ) (p : Pipeline S A) :
    ∃ labels q, Run (Drain react n) p labels q ∧ q.fed = p.fed ∧ ∀ k ≤ n, q.queues k = [] := by
  obtain ⟨labels, q, hrun, hfed, hfront⟩ := exists_drained_front p (Nat.le_refl n)
  obtain ⟨labels', r, hrun', hfed', hempty, hother⟩ := exists_drained_last hrun
  refine ⟨labels', r, hrun', hfed'.trans hfed, ?_⟩
  intro k hk
  rcases Nat.lt_or_eq_of_le hk with hlt | rfl
  · rw [hother k (Nat.ne_of_lt hlt)]
    exact hfront k hlt
  · exact hempty

end StagePipeline

/-! ## Stacks of layers -/

namespace LayerStack

open StagePipeline

variable {I S C X : Type*} (layer : I → S → C → X → S × X)

/-- An input passes through the layers of a stack in order: the new states and the
output. -/
def forward (context : C) : List (I × S) → X → List (I × S) × X
  | [], x => ([], x)
  | (i, s) :: stack, x =>
      let head := layer i s context x
      let rest := forward context stack head.2
      ((i, head.1) :: rest.1, rest.2)

/-- A stack on top of another one. -/
theorem forward_append (context : C) (lower upper : List (I × S)) (x : X) :
    forward layer context (lower ++ upper) x =
      ((forward layer context lower x).1 ++
          (forward layer context upper (forward layer context lower x).2).1,
        (forward layer context upper (forward layer context lower x).2).2) := by
  induction lower generalizing x with
  | nil => rfl
  | cons head lower ih =>
      obtain ⟨i, s⟩ := head
      simp only [List.cons_append, forward, ih]

/-- A stack as a stage: inputs carry their context, and outputs carry it on. -/
def stackReact (stack : List (I × S)) (input : C × X) : List (I × S) × (C × X) :=
  let result := forward layer input.1 stack input.2
  (result.1, input.1, result.2)

/-- The two pieces of a stack, one after the other, do what the whole stack does. -/
theorem runList_stackReact_append (lower upper : List (I × S)) (inputs : List (C × X)) :
    runList (stackReact layer) (lower ++ upper) inputs =
      ((runList (stackReact layer) lower inputs).1 ++
          (runList (stackReact layer) upper (runList (stackReact layer) lower inputs).2).1,
        (runList (stackReact layer) upper (runList (stackReact layer) lower inputs).2).2) := by
  induction inputs generalizing lower upper with
  | nil => rfl
  | cons input inputs ih =>
      have hhead : stackReact layer (lower ++ upper) input =
          ((stackReact layer lower input).1 ++
              (stackReact layer upper (stackReact layer lower input).2).1,
            (stackReact layer upper (stackReact layer lower input).2).2) := by
        simp only [stackReact, forward_append]
      rw [runList_cons, hhead, ih]
      rfl

/-- An empty stack hands everything on. -/
theorem runList_stackReact_nil (inputs : List (C × X)) :
    runList (stackReact layer) [] inputs = ([], inputs) := by
  induction inputs with
  | nil => rfl
  | cons input inputs ih => rw [runList_cons, stackReact, forward, ih]

/-- **Cutting a stack.** The pieces of a stack, one after the other, compute what the
whole stack computes. -/
theorem cascade_stackReact (pieces : ℕ → List (I × S)) (n : ℕ) (inputs : List (C × X)) :
    cascade (stackReact layer) pieces n inputs =
      (runList (stackReact layer) ((List.range n).flatMap pieces) inputs).2 := by
  induction n with
  | zero => rw [cascade, List.range_zero, List.flatMap_nil, runList_stackReact_nil]
  | succ n ih =>
      rw [cascade, ih, List.range_succ, List.flatMap_append, List.flatMap_singleton,
        runList_stackReact_append]

end LayerStack
