/-
# Causal functions fed in pieces

A function on sequences is causal if it keeps the length of a sequence and what it computes
for an initial part does not depend on the rest. Such a function can be computed by feeding
the sequence in pieces to a machine with a memory: each call returns the rows that the
function computes for its piece. Composed machines compute the composed function, and a
whole run returns, piece by piece, what one pass over the whole sequence returns.

The usual causal function reads, at each position, one entry for every position up to it.
-/

import Mathlib.Data.List.Basic

namespace CausalStream

variable {Row : Type*}

/-! ## Causal functions -/

/-- A function on sequences whose result for an initial part is final. -/
structure IsCausal (f : List Row → List Row) : Prop where
  length_eq : ∀ rows, (f rows).length = rows.length
  initial : ∀ past rows, f past <+: f (past ++ rows)

/-- What a function computes for rows that follow `past`. -/
def newRows (f : List Row → List Row) (past rows : List Row) : List Row :=
  (f (past ++ rows)).drop past.length

variable {f g : List Row → List Row}

theorem IsCausal.append (hf : IsCausal f) (past rows : List Row) :
    f (past ++ rows) = f past ++ newRows f past rows := by
  obtain ⟨rest, hrest⟩ := hf.initial past rows
  rw [newRows, ← hrest, ← hf.length_eq past, List.drop_left]

theorem IsCausal.length_newRows (hf : IsCausal f) (past rows : List Row) :
    (newRows f past rows).length = rows.length := by
  rw [newRows, List.length_drop, hf.length_eq, List.length_append, Nat.add_sub_cancel_left]

theorem IsCausal.nil (hf : IsCausal f) : f [] = [] :=
  List.eq_nil_of_length_eq_zero (hf.length_eq [])

@[simp]
theorem newRows_nil (f : List Row → List Row) (rows : List Row) : newRows f [] rows = f rows :=
  rfl

theorem IsCausal.newRows_append (hf : IsCausal f) (past first rest : List Row) :
    newRows f past (first ++ rest) = newRows f past first ++ newRows f (past ++ first) rest := by
  apply (List.append_right_inj (f past)).mp
  rw [← hf.append, ← List.append_assoc, ← List.append_assoc, ← hf.append, ← hf.append]

theorem isCausal_id : IsCausal (id : List Row → List Row) where
  length_eq := fun _ => rfl
  initial := fun past rows => List.prefix_append past rows

theorem IsCausal.comp (hg : IsCausal g) (hf : IsCausal f) : IsCausal (g ∘ f) where
  length_eq := fun rows => (hg.length_eq _).trans (hf.length_eq rows)
  initial := fun past rows => by
    rw [Function.comp_apply, Function.comp_apply, hf.append]
    exact hg.initial _ _

theorem IsCausal.newRows_comp (hf : IsCausal f) (past rows : List Row) :
    newRows (g ∘ f) past rows = newRows g (f past) (newRows f past rows) := by
  rw [newRows, newRows, Function.comp_apply, hf.append, hf.length_eq]

/-! ## Functions that read entries -/

theorem map_mapIdx {α β γ : Type*} (f : ℕ → α → β) (g : β → γ) (l : List α) :
    (l.mapIdx f).map g = l.mapIdx fun i a => g (f i a) := by
  apply List.ext_getElem
  · rw [List.length_map, List.length_mapIdx, List.length_mapIdx]
  · intro i _ _
    rw [List.getElem_map, List.getElem_mapIdx, List.getElem_mapIdx]

theorem mapIdx_const {α β : Type*} (g : α → β) (l : List α) :
    (l.mapIdx fun _ a => g a) = l.map g := by
  apply List.ext_getElem
  · rw [List.length_map, List.length_mapIdx]
  · intro i _ _
    rw [List.getElem_map, List.getElem_mapIdx]

section Scan

variable {Entry : Type*} (entry : ℕ → Row → Entry) (output : ℕ → Row → List Entry → Row)

/-- Each position reads the entries of the positions up to it. -/
def scan (rows : List Row) : List Row :=
  rows.mapIdx fun i row => output i row ((rows.mapIdx entry).take (i + 1))

theorem isCausal_scan : IsCausal (scan entry output) where
  length_eq := fun rows => List.length_mapIdx
  initial := fun past rows => by
    rw [List.prefix_iff_getElem?]
    intro i hi
    rw [scan, List.length_mapIdx] at hi
    have htake : ((past ++ rows).mapIdx entry).take (i + 1) = (past.mapIdx entry).take (i + 1) := by
      rw [List.mapIdx_append]
      apply List.take_append_of_le_length
      rw [List.length_mapIdx]
      exact hi
    simp only [scan, List.getElem?_mapIdx, List.getElem?_append_left hi, htake,
      List.getElem_mapIdx, List.getElem?_eq_getElem hi, Option.map_some]

/-- The rows that follow `past` read its entries too. -/
theorem newRows_scan (past rows : List Row) :
    newRows (scan entry output) past rows =
      rows.mapIdx fun i row => output (past.length + i) row
        (((past ++ rows).mapIdx entry).take (past.length + i + 1)) := by
  rw [newRows, scan, List.mapIdx_append, List.drop_left' List.length_mapIdx]
  simp only [Nat.add_comm]

end Scan

/-! ## Machines -/

section Machine

variable {State ε : Type*}

/-- A piece of rows passes through the machines one after the other. -/
def pipe (call : State → List Row → ℕ → Except ε (List Row × State)) :
    List State → List Row → ℕ → Except ε (List Row × List State)
  | [], rows, _ => pure (rows, [])
  | state :: states, rows, position => do
      let (rows, state) ← call state rows position
      let (rows, states) ← pipe call states rows position
      pure (rows, state :: states)

/-- The pieces of a sequence are fed one after the other, each with the number of rows fed
before it. -/
def feed (call : State → List Row → ℕ → Except ε (List Row × State)) :
    State → ℕ → List (List Row) → Except ε (List (List Row) × State)
  | state, _, [] => pure ([], state)
  | state, fed, rows :: pieces => do
      let (out, state) ← call state rows fed
      let (outs, state) ← feed call state (fed + rows.length) pieces
      pure (out :: outs, state)

/-- A machine that computes a causal function piece by piece. `Holds` relates its memory to
the rows fed so far, and `Admits` says which pieces it takes: how many rows may follow how
many. -/
structure Streams (Admits : ℕ → ℕ → Prop)
    (call : State → List Row → ℕ → Except ε (List Row × State))
    (denote : State → List Row → List Row) (Holds : State → List Row → Prop) : Prop where
  causal : ∀ state, IsCausal (denote state)
  call_eq : ∀ {state past rows}, Holds state past → Admits past.length rows.length →
    ∃ next, call state rows past.length = .ok (newRows (denote state) past rows, next) ∧
      denote next = denote state ∧ Holds next (past ++ rows)

variable {Admits : ℕ → ℕ → Prop} {call : State → List Row → ℕ → Except ε (List Row × State)}
  {denote : State → List Row → List Row} {Holds : State → List Row → Prop}

/-- The composition of what the machines compute. -/
def denoteAll (denote : State → List Row → List Row) : List State → List Row → List Row
  | [], rows => rows
  | state :: states, rows => denoteAll denote states (denote state rows)

/-- Each machine has been fed what the machines before it return. -/
def HoldsAll (denote : State → List Row → List Row) (Holds : State → List Row → Prop) :
    List State → List Row → Prop
  | [], _ => True
  | state :: states, past => Holds state past ∧ HoldsAll denote Holds states (denote state past)

theorem denoteAll_append (first rest : List State) (rows : List Row) :
    denoteAll denote (first ++ rest) rows = denoteAll denote rest (denoteAll denote first rows) := by
  induction first generalizing rows with
  | nil => rfl
  | cons state states ih => exact ih _

theorem isCausal_denoteAll (hcausal : ∀ state, IsCausal (denote state)) (states : List State) :
    IsCausal (denoteAll denote states) := by
  induction states with
  | nil => exact isCausal_id
  | cons state states ih => exact ih.comp (hcausal state)

/-- Machines that may hold anything before they are fed may do so together. -/
theorem holdsAll_nil (hcausal : ∀ state, IsCausal (denote state))
    (hnil : ∀ state, Holds state []) (states : List State) : HoldsAll denote Holds states [] := by
  induction states with
  | nil => trivial
  | cons state states ih =>
      rw [HoldsAll, (hcausal state).nil]
      exact ⟨hnil state, ih⟩

/-- Composed machines compute the composed function. -/
theorem Streams.pipe (machine : Streams Admits call denote Holds) :
    Streams Admits (pipe call) (denoteAll denote) (HoldsAll denote Holds) where
  causal := isCausal_denoteAll machine.causal
  call_eq := fun {states past rows} hholds hadmits => by
    induction states generalizing past rows with
    | nil =>
        have hrows : newRows (denoteAll denote []) past rows = rows := List.drop_left
        exact ⟨[], by rw [hrows]; rfl, rfl, trivial⟩
    | cons state states ih =>
        obtain ⟨hfirst, hrest⟩ := hholds
        have hcausal := machine.causal state
        obtain ⟨next, hcall, hdenote, hnext⟩ := machine.call_eq hfirst hadmits
        have hpiece : Admits (denote state past).length (newRows (denote state) past rows).length := by
          rw [hcausal.length_eq, hcausal.length_newRows]
          exact hadmits
        obtain ⟨nexts, hpipe, hdenotes, hnexts⟩ := ih hrest hpiece
        rw [hcausal.length_eq] at hpipe
        rw [← hcausal.append] at hnexts
        refine ⟨next :: nexts, ?_, ?_, hnext, ?_⟩
        · rw [CausalStream.pipe, hcall]
          simp only [bind, Except.bind, hpipe]
          rw [show denoteAll denote (state :: states) = denoteAll denote states ∘ denote state from
            rfl, hcausal.newRows_comp]
          rfl
        · funext rows
          rw [denoteAll, denoteAll, hdenote, hdenotes]
        · rw [hdenote]
          exact hnexts

/-- Every piece may follow those before it. -/
def AdmitsAll (Admits : ℕ → ℕ → Prop) : ℕ → List (List Row) → Prop
  | _, [] => True
  | fed, rows :: pieces => Admits fed rows.length ∧ AdmitsAll Admits (fed + rows.length) pieces

/-- What a function computes for each of the pieces that follow `past`. -/
def outputs (f : List Row → List Row) : List Row → List (List Row) → List (List Row)
  | _, [] => []
  | past, rows :: pieces => newRows f past rows :: outputs f (past ++ rows) pieces

/-- Rows fed one by one are computed one by one. -/
theorem IsCausal.outputs_singletons {f : List Row → List Row} (hf : IsCausal f)
    (past rows : List Row) :
    outputs f past (rows.map fun row => [row]) = (newRows f past rows).map fun row => [row] := by
  induction rows generalizing past with
  | nil =>
      have hnil := hf.length_newRows past []
      rw [List.eq_nil_of_length_eq_zero hnil]
      rfl
  | cons row rows ih =>
      obtain ⟨out, hout⟩ := List.length_eq_one_iff.mp (hf.length_newRows past [row])
      have happend := hf.newRows_append past [row] rows
      rw [List.singleton_append, hout, List.singleton_append] at happend
      rw [happend, List.map_cons, List.map_cons, outputs, hout, ih]

/-- A run returns what the function computes for its pieces. -/
theorem Streams.feed (machine : Streams Admits call denote Holds) {state : State}
    {past : List Row} {pieces : List (List Row)} (hholds : Holds state past)
    (hadmits : AdmitsAll Admits past.length pieces) :
    ∃ next, feed call state past.length pieces = .ok (outputs (denote state) past pieces, next) ∧
      denote next = denote state ∧ Holds next (past ++ pieces.flatten) := by
  induction pieces generalizing state past with
  | nil =>
      rw [List.flatten_nil, List.append_nil]
      exact ⟨state, rfl, rfl, hholds⟩
  | cons rows pieces ih =>
      obtain ⟨next, hcall, hdenote, hnext⟩ := machine.call_eq hholds hadmits.1
      have hrest : AdmitsAll Admits (past ++ rows).length pieces := by
        rw [List.length_append]
        exact hadmits.2
      obtain ⟨last, hfeed, hdenoted, hlast⟩ := ih hnext hrest
      rw [List.length_append] at hfeed
      rw [List.flatten_cons, ← List.append_assoc]
      refine ⟨last, ?_, hdenoted.trans hdenote, hlast⟩
      rw [CausalStream.feed, hcall]
      simp only [bind, Except.bind, hfeed]
      rw [outputs, hdenote]
      rfl

end Machine

end CausalStream
