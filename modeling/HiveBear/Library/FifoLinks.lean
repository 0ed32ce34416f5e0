/-
# First-in first-out links between nodes

A network in which each ordered pair of nodes is connected by a link that neither
loses nor reorders messages. Messages of different links may overtake each other: the
order in which a node takes messages from its incoming links is not decided here.
-/

import HiveBear.Library.Run
import Mathlib.Data.List.Basic

namespace FifoLinks

/-- The messages on their way from one node to another, oldest first. -/
abbrev Links (N M : Type*) := N → N → List M

variable {N M : Type*} [DecidableEq N] (links : Links N M) (src dst : N)

/-- Replaces the content of one link. -/
def setLink (queue : List M) : Links N M :=
  fun a b => if a = src ∧ b = dst then queue else links a b

@[simp]
theorem setLink_self (queue : List M) : setLink links src dst queue src dst = queue :=
  if_pos ⟨rfl, rfl⟩

theorem setLink_of_ne {a b : N} (h : ¬ (a = src ∧ b = dst)) (queue : List M) :
    setLink links src dst queue a b = links a b :=
  if_neg h

/-- A message enters a link. -/
def post (message : M) : Links N M :=
  setLink links src dst (links src dst ++ [message])

@[simp]
theorem post_self (message : M) :
    post links src dst message src dst = links src dst ++ [message] :=
  setLink_self links src dst _

theorem post_of_ne {a b : N} (h : ¬ (a = src ∧ b = dst)) (message : M) :
    post links src dst message a b = links a b :=
  if_neg h

/-- A node sends messages, in order. -/
def postAll (sends : List (N × M)) : Links N M :=
  sends.foldl (fun links send => post links src send.1 send.2) links

@[simp]
theorem postAll_singleton (message : M) :
    postAll links src [(dst, message)] = post links src dst message := rfl

/-! ## Runs of lossless links -/

/-- A message enters a link, or is taken out at its end. -/
inductive Move (N M : Type*)
  | send (src dst : N) (message : M)
  | receive (src dst : N) (message : M)

/-- What the links allow. -/
inductive Step : Links N M → Move N M → Links N M → Prop
  | send (links : Links N M) (src dst : N) (message : M) :
      Step links (.send src dst message) (post links src dst message)
  | receive {links : Links N M} {src dst : N} {message : M} {rest : List M}
      (head : links src dst = message :: rest) :
      Step links (.receive src dst message) (setLink links src dst rest)

/-- What a move puts into a link. -/
def Move.sent (src dst : N) : Move N M → List M
  | .send a b message => if a = src ∧ b = dst then [message] else []
  | .receive _ _ _ => []

/-- What it takes out. -/
def Move.received (src dst : N) : Move N M → List M
  | .send _ _ _ => []
  | .receive a b message => if a = src ∧ b = dst then [message] else []

theorem Step.conservation {links links' : Links N M} {move : Move N M}
    (step : Step links move links') (src dst : N) :
    links src dst ++ move.sent src dst = move.received src dst ++ links' src dst := by
  cases step with
  | send a b message =>
      by_cases h : a = src ∧ b = dst
      · obtain ⟨rfl, rfl⟩ := h
        rw [post_self, Move.sent, if_pos ⟨rfl, rfl⟩]
        rfl
      · have hother : ¬ (src = a ∧ dst = b) := fun hsame => h ⟨hsame.1.symm, hsame.2.symm⟩
        rw [post_of_ne links a b hother, Move.sent, if_neg h, List.append_nil]
        rfl
  | @receive a b message rest head =>
      by_cases h : a = src ∧ b = dst
      · obtain ⟨rfl, rfl⟩ := h
        rw [setLink_self, head, Move.received, if_pos ⟨rfl, rfl⟩]
        exact List.append_nil _
      · have hother : ¬ (src = a ∧ dst = b) := fun hsame => h ⟨hsame.1.symm, hsame.2.symm⟩
        rw [setLink_of_ne links a b hother, Move.received, if_neg h]
        exact List.append_nil _

/-- **Nothing is lost and nothing overtakes.** What was in a link and what has been sent since is
what has been received and what is in it now, in this order. -/
theorem conservation {links links' : Links N M} {moves : List (Move N M)}
    (run : LabelledRun.Run Step links moves links') (src dst : N) :
    links src dst ++ moves.flatMap (Move.sent src dst) =
      moves.flatMap (Move.received src dst) ++ links' src dst := by
  induction run with
  | nil => exact List.append_nil _
  | snoc _ last ih =>
      rw [List.flatMap_append, List.flatMap_append, ← List.append_assoc, ih, List.append_assoc,
        List.flatMap_singleton, List.flatMap_singleton, last.conservation, ← List.append_assoc]

end FifoLinks
