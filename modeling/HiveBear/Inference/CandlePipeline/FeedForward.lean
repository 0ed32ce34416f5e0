/-
# Feed-forward networks

The second half of a transformer block is either one feed-forward network or a mixture of
experts. A mixture routes every row to the experts with the largest routing weights: it
collects, for each expert, the rows that go to it, runs the expert on these rows together,
and adds the weighted results back to where the rows came from. The result of a row
depends on that row alone.

Arithmetic is exact: the numbers are a linearly ordered field with the functions the
network needs. An activation is the list of its rows, one for each position.
-/

import HiveBear.Library.StableSort
import Mathlib.Algebra.Field.Basic
import Mathlib.Algebra.BigOperators.Fin
import Mathlib.Order.Defs.LinearOrder

namespace HiveBear.Inference

open StableSort

/-- The functions on exact numbers that the forward pass applies. -/
class ElementaryFunctions (K : Type*) where
  exp : K → K
  sqrt : K → K

open ElementaryFunctions

variable {K : Type*} [Field K]

/-! ## Matrices and networks -/

/-- A matrix, with one row of weights for each output. -/
structure QMatMul (K : Type*) (inputs outputs : ℕ) where
  weight : Fin outputs → Fin inputs → K

variable {m n : ℕ}

/-- Product with one row. -/
def QMatMul.forwardRow (matrix : QMatMul K m n) (x : Fin m → K) : Fin n → K :=
  fun o => ∑ i, matrix.weight o i * x i

def QMatMul.forward (matrix : QMatMul K m n) (xs : List (Fin m → K)) : List (Fin n → K) :=
  xs.map matrix.forwardRow

/-- The sigmoid linear unit. -/
def silu [ElementaryFunctions K] (x : K) : K :=
  x / (1 + exp (-x))

structure Mlp (K : Type*) (n : ℕ) where
  hidden : ℕ
  feedForwardW1 : QMatMul K n hidden
  feedForwardW2 : QMatMul K hidden n
  feedForwardW3 : QMatMul K n hidden

namespace Mlp

variable [ElementaryFunctions K] (mlp : Mlp K n)

def forward (xs : List (Fin n → K)) : List (Fin n → K) :=
  let w1 := mlp.feedForwardW1.forward xs
  let w3 := mlp.feedForwardW3.forward xs
  mlp.feedForwardW2.forward (List.zipWith (fun a b => (fun i => silu (a i)) * b) w1 w3)

/-- What the network computes for one row. -/
def forwardRow (x : Fin n → K) : Fin n → K :=
  mlp.feedForwardW2.forwardRow
    ((fun i => silu (mlp.feedForwardW1.forwardRow x i)) * mlp.feedForwardW3.forwardRow x)

theorem forward_eq_map (xs : List (Fin n → K)) : mlp.forward xs = xs.map mlp.forwardRow := by
  rw [forward, QMatMul.forward, QMatMul.forward, QMatMul.forward, List.zipWith_map,
    List.zipWith_self, List.map_map]
  rfl

end Mlp

/-! ## Routing -/

/-- Softmax of a row of fixed width. -/
def softmaxLastDim [ElementaryFunctions K] (x : Fin n → K) : Fin n → K :=
  fun i => exp (x i) / ∑ j, exp (x j)

/-- The rows that go to each expert and the weights they go with. -/
structure Dispatch (K : Type*) (n : ℕ) where
  topX : Fin n → List ℕ
  selectedRws : Fin n → List K

section Routing

variable {α : Type*}

/-- One more element in the bucket of an expert. -/
def push (buckets : Fin n → List α) (expertIdx : Fin n) (a : α) : Fin n → List α :=
  Function.update buckets expertIdx (buckets expertIdx ++ [a])

theorem foldl_push {dst : List (Fin n)} (hnodup : dst.Nodup) (a : Fin n → α)
    (buckets : Fin n → List α) (expertIdx : Fin n) :
    dst.foldl (fun buckets e => push buckets e (a e)) buckets expertIdx =
      buckets expertIdx ++ if expertIdx ∈ dst then [a expertIdx] else [] := by
  induction dst generalizing buckets with
  | nil => simp
  | cons e dst ih =>
      obtain ⟨hfresh, hnodup⟩ := List.nodup_cons.mp hnodup
      rw [List.foldl_cons, ih hnodup, push]
      by_cases he : expertIdx = e
      · subst he
        rw [Function.update_self, if_neg hfresh, if_pos List.mem_cons_self, List.append_nil]
      · rw [Function.update_of_ne he]
        simp only [List.mem_cons, he, false_or]

variable [LinearOrder K] (nExpertUsed : ℕ)

/-- The experts with the largest routing weights, the largest first. -/
def selectExperts (rw : Fin n → K) : List (Fin n) :=
  (sortBy (fun i j => compare (rw j) (rw i)) (List.finRange n)).take nExpertUsed

omit [Field K] in
theorem nodup_selectExperts (rw : Fin n → K) : (selectExperts nExpertUsed rw).Nodup := by
  have hsorted := (perm_sortBy (fun i j => compare (rw j) (rw i)) (List.finRange n)).nodup_iff.mpr
    (List.nodup_finRange n)
  exact hsorted.sublist (List.take_sublist _ _)

/-- Sum of the routing weights of the selected experts. -/
def sumRoutingWeights (rw : Fin n → K) : K :=
  (selectExperts nExpertUsed rw).foldl (fun sum expertIdx => sum + rw expertIdx) 0

/-- One row is sent to its experts. -/
def routeRow (dispatch : Dispatch K n) (rowIdx : ℕ) (rw : Fin n → K) : Dispatch K n :=
  let dst := selectExperts nExpertUsed rw
  { topX := dst.foldl (fun topX expertIdx => push topX expertIdx rowIdx) dispatch.topX
    selectedRws := dst.foldl (fun selectedRws expertIdx => push selectedRws expertIdx
      (rw expertIdx / sumRoutingWeights nExpertUsed rw)) dispatch.selectedRws }

/-- All rows are sent to their experts. -/
def dispatchRows (routingWeights : List (Fin n → K)) : Dispatch K n :=
  routingWeights.zipIdx.foldl (fun dispatch row => routeRow nExpertUsed dispatch row.2 row.1)
    { topX := fun _ => [], selectedRws := fun _ => [] }

/-- The share of an expert in the result of a row. -/
def share (expertIdx : Fin n) (rw : Fin n → K) : K :=
  rw expertIdx / sumRoutingWeights nExpertUsed rw

theorem topX_routeRow (dispatch : Dispatch K n) (rowIdx : ℕ) (rw : Fin n → K)
    (expertIdx : Fin n) :
    (routeRow nExpertUsed dispatch rowIdx rw).topX expertIdx = dispatch.topX expertIdx ++
      if expertIdx ∈ selectExperts nExpertUsed rw then [rowIdx] else [] :=
  foldl_push (nodup_selectExperts nExpertUsed rw) (fun _ => rowIdx) dispatch.topX expertIdx

theorem selectedRws_routeRow (dispatch : Dispatch K n) (rowIdx : ℕ) (rw : Fin n → K)
    (expertIdx : Fin n) :
    (routeRow nExpertUsed dispatch rowIdx rw).selectedRws expertIdx =
      dispatch.selectedRws expertIdx ++
        if expertIdx ∈ selectExperts nExpertUsed rw then [share nExpertUsed expertIdx rw] else [] :=
  foldl_push (nodup_selectExperts nExpertUsed rw) (fun e => share nExpertUsed e rw)
    dispatch.selectedRws expertIdx

/-- The rows of an expert, with their positions. -/
def routedRows (expertIdx : Fin n) (routingWeights : List ((Fin n → K) × ℕ)) :
    List ((Fin n → K) × ℕ) :=
  routingWeights.filter fun row => expertIdx ∈ selectExperts nExpertUsed row.1

/-- What the loop over the rows adds to the buckets of an expert. -/
theorem foldl_routeRow (routingWeights : List ((Fin n → K) × ℕ)) (dispatch : Dispatch K n)
    (expertIdx : Fin n) :
    let routed := routingWeights.foldl
      (fun dispatch row => routeRow nExpertUsed dispatch row.2 row.1) dispatch
    routed.topX expertIdx =
        dispatch.topX expertIdx ++ (routedRows nExpertUsed expertIdx routingWeights).map Prod.snd ∧
      routed.selectedRws expertIdx = dispatch.selectedRws expertIdx ++
        (routedRows nExpertUsed expertIdx routingWeights).map
          fun row => share nExpertUsed expertIdx row.1 := by
  induction routingWeights generalizing dispatch with
  | nil => simp [routedRows]
  | cons row routingWeights ih =>
      obtain ⟨htop, hselected⟩ := ih (routeRow nExpertUsed dispatch row.2 row.1)
      rw [topX_routeRow, List.append_assoc] at htop
      rw [selectedRws_routeRow, List.append_assoc] at hselected
      rw [List.foldl_cons, routedRows]
      by_cases hmem : expertIdx ∈ selectExperts nExpertUsed row.1
      · rw [if_pos hmem] at htop hselected
        rw [List.filter_cons_of_pos (by simpa using hmem)]
        exact ⟨htop, hselected⟩
      · rw [if_neg hmem, List.nil_append] at htop hselected
        rw [List.filter_cons_of_neg (by simpa using hmem)]
        exact ⟨htop, hselected⟩

end Routing

/-! ## Mixture of experts -/

/-- Rows are added at their positions. -/
def indexAdd (ys : List (Fin n → K)) (topX : List ℕ) (rows : List (Fin n → K)) :
    List (Fin n → K) :=
  (topX.zip rows).foldl (fun ys row => ys.modify row.1 (· + row.2)) ys

theorem indexAdd_cons (front ys topRows : List (Fin n → K)) (y row : Fin n → K)
    (topX : List ℕ) :
    indexAdd (front ++ y :: ys) (front.length :: topX) (row :: topRows) =
      indexAdd (front ++ (y + row) :: ys) topX topRows := by
  have hmodify : (front ++ y :: ys).modify front.length (· + row) = front ++ (y + row) :: ys :=
    List.modifyTailIdx_add _ 0 front (y :: ys)
  rw [indexAdd, List.zip_cons_cons, List.foldl_cons, hmodify, indexAdd]

/-- Rows computed for the positions where a predicate holds are added there. -/
theorem indexAdd_filter_zipIdx {α : Type*} (p : α → Bool) (g : α → Fin n → K) (as : List α)
    (front ys : List (Fin n → K)) (hlength : ys.length = as.length) :
    indexAdd (front ++ ys) (((as.zipIdx front.length).filter fun a => p a.1).map Prod.snd)
        (((as.zipIdx front.length).filter fun a => p a.1).map fun a => g a.1) =
      front ++ List.zipWith (fun y a => if p a then y + g a else y) ys as := by
  induction as generalizing front ys with
  | nil =>
      rw [List.eq_nil_of_length_eq_zero hlength]
      rfl
  | cons a as ih =>
      obtain ⟨y, ys, rfl⟩ := List.exists_cons_of_length_eq_add_one hlength
      -- the rest is added behind a longer front, whatever row it ends with
      have hrest : ∀ y', indexAdd (front ++ y' :: ys)
          (((as.zipIdx (front.length + 1)).filter fun a => p a.1).map Prod.snd)
          (((as.zipIdx (front.length + 1)).filter fun a => p a.1).map fun a => g a.1) =
          front ++ y' :: List.zipWith (fun y a => if p a then y + g a else y) ys as := by
        intro y'
        have hrec := ih (front ++ [y']) ys (by simpa using hlength)
        rwa [List.length_append, List.length_singleton, List.append_assoc, List.append_assoc,
          List.singleton_append, List.singleton_append] at hrec
      rw [List.zipIdx_cons, List.zipWith_cons_cons]
      by_cases hp : p a = true
      · rw [List.filter_cons_of_pos (by exact hp), if_pos hp, List.map_cons, List.map_cons,
          indexAdd_cons]
        exact hrest (y + g a)
      · rw [List.filter_cons_of_neg (by exact hp), if_neg hp]
        exact hrest y

inductive MlpOrMoe (K : Type*) (n : ℕ)
  | mlp (mlp : Mlp K n)
  | moe (nExpert nExpertUsed : ℕ) (feedForwardGateInp : QMatMul K n nExpert)
      (experts : Fin nExpert → Mlp K n)

namespace MlpOrMoe

variable [LinearOrder K] [ElementaryFunctions K]

/-- One expert runs on the rows that were sent to it. -/
def runExpert {nExpert : ℕ} (experts : Fin nExpert → Mlp K n) (dispatch : Dispatch K nExpert)
    (xs ys : List (Fin n → K)) (expertIdx : Fin nExpert) : List (Fin n → K) :=
  let topX := dispatch.topX expertIdx
  if topX.isEmpty then
    ys
  else
    let currentState := topX.map fun rowIdx => xs.getD rowIdx 0
    let currentHiddenStates := (experts expertIdx).forward currentState
    indexAdd ys topX
      (List.zipWith (fun row rw => rw • row) currentHiddenStates (dispatch.selectedRws expertIdx))

def forward (network : MlpOrMoe K n) (xs : List (Fin n → K)) : List (Fin n → K) :=
  match network with
  | .mlp feedForward => feedForward.forward xs
  | .moe nExpert nExpertUsed feedForwardGateInp experts =>
      let routingWeights := (feedForwardGateInp.forward xs).map softmaxLastDim
      let dispatch := dispatchRows nExpertUsed routingWeights
      (List.finRange nExpert).foldl (runExpert experts dispatch xs) (xs.map fun _ => 0)

/-- What the network computes for one row. -/
def forwardRow (network : MlpOrMoe K n) (x : Fin n → K) : Fin n → K :=
  match network with
  | .mlp feedForward => feedForward.forwardRow x
  | .moe nExpert nExpertUsed feedForwardGateInp experts =>
      let rw := softmaxLastDim (feedForwardGateInp.forwardRow x)
      (List.finRange nExpert).foldl
        (fun y expertIdx =>
          if expertIdx ∈ selectExperts nExpertUsed rw then
            y + share nExpertUsed expertIdx rw • (experts expertIdx).forwardRow x
          else
            y) 0

variable {nExpert nExpertUsed : ℕ} {gate : QMatMul K n nExpert} {experts : Fin nExpert → Mlp K n}

/-- Routing weights of a row. -/
def routing (gate : QMatMul K n nExpert) (x : Fin n → K) : Fin nExpert → K :=
  softmaxLastDim (gate.forwardRow x)

/-- The rows that were sent to an expert, with their positions. -/
def sentRows (nExpertUsed : ℕ) (gate : QMatMul K n nExpert) (expertIdx : Fin nExpert)
    (xs : List (Fin n → K)) : List ((Fin n → K) × ℕ) :=
  xs.zipIdx.filter fun row => expertIdx ∈ selectExperts nExpertUsed (routing gate row.1)

variable (nExpertUsed gate) in
theorem dispatchRows_routing (xs : List (Fin n → K)) (expertIdx : Fin nExpert) :
    let dispatch := dispatchRows nExpertUsed (xs.map (routing gate))
    dispatch.topX expertIdx = (sentRows nExpertUsed gate expertIdx xs).map Prod.snd ∧
      dispatch.selectedRws expertIdx = (sentRows nExpertUsed gate expertIdx xs).map
        fun row => share nExpertUsed expertIdx (routing gate row.1) := by
  have hrouted : routedRows nExpertUsed expertIdx (xs.map (routing gate)).zipIdx =
      (sentRows nExpertUsed gate expertIdx xs).map (Prod.map (routing gate) id) := by
    rw [routedRows, List.zipIdx_map, List.filter_map]
    rfl
  obtain ⟨htop, hselected⟩ := foldl_routeRow nExpertUsed (xs.map (routing gate)).zipIdx
    { topX := fun _ => [], selectedRws := fun _ => [] } expertIdx
  rw [hrouted, List.map_map] at htop hselected
  exact ⟨htop, hselected⟩

/-- The rows that an expert reads are those that were sent to it. -/
theorem getD_sentRows (xs : List (Fin n → K)) (expertIdx : Fin nExpert) :
    ((sentRows nExpertUsed gate expertIdx xs).map Prod.snd).map (fun rowIdx => xs.getD rowIdx 0) =
      (sentRows nExpertUsed gate expertIdx xs).map Prod.fst := by
  rw [List.map_map]
  apply List.map_congr_left
  rintro ⟨row, rowIdx⟩ hrow
  have hget : xs[rowIdx]? = some row :=
    List.mk_mem_zipIdx_iff_getElem?.mp (List.mem_of_mem_filter hrow)
  rw [Function.comp_apply, List.getD_eq_getElem?_getD, hget, Option.getD_some]

omit [LinearOrder K] in
/-- An expert without rows adds nothing, as the loop that skips it does. -/
theorem runExpert_eq_indexAdd (dispatch : Dispatch K nExpert) (xs ys : List (Fin n → K))
    (expertIdx : Fin nExpert) :
    runExpert experts dispatch xs ys expertIdx =
      indexAdd ys (dispatch.topX expertIdx) (List.zipWith (fun row rw => rw • row)
        ((experts expertIdx).forward
          ((dispatch.topX expertIdx).map fun rowIdx => xs.getD rowIdx 0))
        (dispatch.selectedRws expertIdx)) := by
  rw [runExpert]
  split
  · rename_i hempty
    rw [List.isEmpty_iff.mp hempty]
    rfl
  · rfl

/-- An expert adds its share to the rows that were sent to it. -/
theorem runExpert_dispatchRows (xs : List (Fin n → K)) (y : (Fin n → K) → Fin n → K)
    (expertIdx : Fin nExpert) :
    runExpert experts (dispatchRows nExpertUsed (xs.map (routing gate))) xs (xs.map y) expertIdx =
      xs.map fun x =>
        if expertIdx ∈ selectExperts nExpertUsed (routing gate x) then
          y x + share nExpertUsed expertIdx (routing gate x) • (experts expertIdx).forwardRow x
        else
          y x := by
  obtain ⟨htop, hselected⟩ := dispatchRows_routing nExpertUsed gate xs expertIdx
  have hadd := indexAdd_filter_zipIdx
    (fun x => decide (expertIdx ∈ selectExperts nExpertUsed (routing gate x)))
    (fun x => share nExpertUsed expertIdx (routing gate x) • (experts expertIdx).forwardRow x)
    xs [] (xs.map y) (by rw [List.length_map])
  rw [List.zipWith_map_left, List.zipWith_self] at hadd
  simp only [List.nil_append, List.length_nil, decide_eq_true_eq] at hadd
  rw [← hadd, runExpert_eq_indexAdd, htop, hselected, getD_sentRows, Mlp.forward_eq_map,
    List.map_map, List.zipWith_map, List.zipWith_self]
  rfl

/-- A feed-forward network treats every row by itself. -/
theorem forward_eq_map (network : MlpOrMoe K n) (xs : List (Fin n → K)) :
    network.forward xs = xs.map network.forwardRow := by
  cases network with
  | mlp feedForward => exact feedForward.forward_eq_map xs
  | moe nExpert nExpertUsed gate experts =>
      have hrouting : (gate.forward xs).map softmaxLastDim = xs.map (routing gate) := by
        rw [QMatMul.forward, List.map_map]
        rfl
      -- the loop over the experts acts on each row by itself
      have hloop : ∀ (order : List (Fin nExpert)) (y : (Fin n → K) → Fin n → K),
          order.foldl (runExpert experts
              (dispatchRows nExpertUsed (xs.map (routing gate))) xs) (xs.map y) =
            xs.map fun x => order.foldl (fun y expertIdx =>
              if expertIdx ∈ selectExperts nExpertUsed (routing gate x) then
                y + share nExpertUsed expertIdx (routing gate x) • (experts expertIdx).forwardRow x
              else
                y) (y x) := by
        intro order
        induction order with
        | nil => exact fun y => rfl
        | cons expertIdx order ih =>
            intro y
            rw [List.foldl_cons, runExpert_dispatchRows, ih]
            rfl
      rw [forward, hrouting]
      exact hloop _ _

end MlpOrMoe

end HiveBear.Inference
