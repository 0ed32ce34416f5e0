/-
# The size of stages

The swarm-aware scheduler keeps so few peers that every stage could have its minimum of layers, and
raises every share but the last one to the minimum. What is left for the last peer, or cut down to
what is left for the one that reaches the end, may be less.

Stages are long enough just if the raised shares of the first peers never come close to the end of
the model without reaching it.
-/

import HiveBear.Mesh.Scheduler.SwarmAware

namespace HiveBear.Mesh.SwarmAwareScheduler

open IntervalTiling

variable {F : Type*} [FloatOps F]

/-- The shares of the first peers, raised to the minimum, end at the end of the model or behind it,
or leave at least the minimum. -/
def LeavesMinimum (scheduler : SwarmAwareScheduler F) (totalLayers : ℕ)
    (stages : List (PeerInfo F)) : Prop :=
  let demand := demandedLayers scheduler.minLayersPerStage totalLayers
    (stages.map PeerInfo.capacity).sum
  ∀ k < stages.length, prefixDemand demand stages k < totalLayers →
    prefixDemand demand stages k + scheduler.minLayersPerStage ≤ totalLayers

instance (scheduler : SwarmAwareScheduler F) (totalLayers : ℕ) (stages : List (PeerInfo F)) :
    Decidable (scheduler.LeavesMinimum totalLayers stages) :=
  inferInstanceAs (Decidable (∀ k < _, _ → _))

variable {scheduler : SwarmAwareScheduler F} {sessionId : Uuid} {modelId : String}
  {totalLayers : ℕ} {modelSizeBytes : UInt64} {peers : List (PeerInfo F)}
  {result : InferencePlan F}

theorem selectStages_ne_nil_of_plan
    (h : scheduler.plan sessionId modelId totalLayers modelSizeBytes peers = .ok result) :
    scheduler.selectStages totalLayers (peers.filter scheduler.withinHopLatency) ≠ [] := by
  obtain ⟨-, -, -, hassign⟩ := plan_eq_ok h
  intro hnone
  rw [hnone] at hassign
  cases hassign

/-- Every stage of a plan has the minimum of layers just if the shares leave it. -/
theorem le_size_of_plan_iff
    (h : scheduler.plan sessionId modelId totalLayers modelSizeBytes peers = .ok result) :
    (∀ a ∈ result.assignments, scheduler.minLayersPerStage ≤ a.layerRange.size) ↔
      scheduler.LeavesMinimum totalLayers
        (scheduler.selectStages totalLayers (peers.filter scheduler.withinHopLatency)) := by
  obtain ⟨-, -, -, hassign⟩ := plan_eq_ok h
  have hranges := layerRanges_assignLayers scheduler.minLayersPerStage totalLayers
    (modelSizeBytes.toNat / totalLayers) ((scheduler.selectStages totalLayers
      (peers.filter scheduler.withinHopLatency)).map PeerInfo.capacity).sum 0
    (scheduler.selectStages totalLayers (peers.filter scheduler.withinHopLatency))
  rw [← eq_assignLayers_of_assignProportionally hassign] at hranges
  have hsize : (∀ a ∈ result.assignments, scheduler.minLayersPerStage ≤ a.layerRange.size) ↔
      ∀ range ∈ result.assignments.map LayerAssignment.layerRange,
        scheduler.minLayersPerStage ≤ range.size := by
    rw [List.forall_mem_map]
  rw [hsize, hranges, List.forall_mem_map]
  refine (le_size_deal_iff _ totalLayers 0 (selectStages_ne_nil_of_plan h)
    fun p _ => le_max_right _ _).trans ?_
  simp only [Nat.zero_add]
  rfl

/-- **The minimum size of a stage.** A plan of the swarm-aware scheduler with two stages or more
has the minimum of layers in each if and only if the shares leave it. -/
theorem min_stage_size_iff (hmin : scheduler.minLayersPerStage ≤ totalLayers)
    (h : scheduler.plan sessionId modelId totalLayers modelSizeBytes peers = .ok result) :
    (2 ≤ result.assignments.length →
        ∀ a ∈ result.assignments, scheduler.minLayersPerStage ≤ a.layerRange.size) ↔
      scheduler.LeavesMinimum totalLayers
        (scheduler.selectStages totalLayers (peers.filter scheduler.withinHopLatency)) := by
  rw [← le_size_of_plan_iff h]
  refine ⟨fun hall => ?_, fun hall _ => hall⟩
  by_cases htwo : 2 ≤ result.assignments.length
  · exact hall htwo
  -- a stage of its own has the whole model
  intro a ha
  obtain ⟨-, -, -, hassign⟩ := plan_eq_ok h
  have htiles := tiles_of_assignProportionally (selectStages_ne_nil_of_plan h) hassign
  have hone : result.assignments = [a] := by
    match hassignments : result.assignments, ha, htwo with
    | [], ha, _ => exact absurd ha List.not_mem_nil
    | [b], ha, _ => rw [List.mem_singleton.mp ha]
    | _ :: _ :: _, _, htwo => exact absurd (by simp) htwo
  rw [hone] at htiles
  obtain ⟨hstart, -, hstop⟩ := htiles
  have hend : a.layerRange.stop = totalLayers := hstop
  rw [Range.size]
  omega

/-- A strong peer and a weak one share eight layers. -/
def skewedPeers : List (PeerInfo ℚ) := [PeerInfo.ramOnly 1 7, PeerInfo.ramOnly 2 1]

/-- Two equal peers share eight layers, four each. -/
theorem min_stage_size_equal_peers :
    ∃ result, (new : SwarmAwareScheduler ℚ).plan 7 "test-model" 8 1024
        [PeerInfo.ramOnly 1 4, PeerInfo.ramOnly 2 4] = .ok result ∧
      ((2 ≤ result.assignments.length →
          ∀ a ∈ result.assignments,
            (new : SwarmAwareScheduler ℚ).minLayersPerStage ≤ a.layerRange.size) ↔
        (new : SwarmAwareScheduler ℚ).LeavesMinimum 8
          ((new : SwarmAwareScheduler ℚ).selectStages 8
            ([PeerInfo.ramOnly 1 4, PeerInfo.ramOnly 2 4].filter
              (new : SwarmAwareScheduler ℚ).withinHopLatency))) := by
  obtain ⟨result, h⟩ := @exists_plan ℚ _ new 8 [PeerInfo.ramOnly 1 4, PeerInfo.ramOnly 2 4] 7
    "test-model" 1024 (by decide) (by decide) (by decide) (PeerInfo.ramOnly 1 4)
    List.mem_cons_self (by decide) (by decide)
  exact ⟨result, h, min_stage_size_iff (by decide) h⟩

/-- **The weak peer gets a single layer**, where every stage should have four. -/
theorem min_stage_size_skewed :
    ∃ result, (new : SwarmAwareScheduler ℚ).plan 7 "test-model" 8 1024 skewedPeers = .ok result ∧
      2 ≤ result.assignments.length ∧ ∃ a ∈ result.assignments,
        a.layerRange.size < (new : SwarmAwareScheduler ℚ).minLayersPerStage := by
  have hsizes : ((new : SwarmAwareScheduler ℚ).plan 7 "test-model" 8 1024
      skewedPeers).toOption.map (fun result => result.assignments.map fun a => a.layerRange.size) =
        some [7, 1] := by
    decide +kernel
  obtain ⟨result, hresult, hsizes⟩ := Option.map_eq_some_iff.mp hsizes
  have h : (new : SwarmAwareScheduler ℚ).plan 7 "test-model" 8 1024 skewedPeers = .ok result := by
    cases hplan : (new : SwarmAwareScheduler ℚ).plan 7 "test-model" 8 1024 skewedPeers with
    | error e =>
        rw [hplan] at hresult
        cases hresult
    | ok other =>
        rw [hplan] at hresult
        cases hresult
        rfl
  have hlength := congrArg List.length hsizes
  rw [List.length_map] at hlength
  have hlast : 1 ∈ result.assignments.map fun a => a.layerRange.size := by
    rw [hsizes]
    exact List.mem_cons_of_mem _ List.mem_cons_self
  obtain ⟨a, ha, hsize⟩ := List.mem_map.mp hlast
  refine ⟨result, h, hlength.ge, a, ha, ?_⟩
  rw [hsize]
  decide

end HiveBear.Mesh.SwarmAwareScheduler
