/-
# What a formed swarm guarantees

Every swarm that `form_swarms` returns was formed from an accepted group. The
layer ranges of its members come from the dealing loop over that group, so they
tile the model and the first member, who leads, holds the first range; the
members are a clique of the latency relation.

Two further bounds are checked on the group but not on the members emitted from
it: at least `MIN_SWARM_SIZE` members, and at least `min_layers_per_stage` layers
for each. They hold exactly for the groups whose demands fit the model, in the
sense of `Group.Fits`.
-/

import HiveBear.Mesh.Swarm.Formation

namespace HiveBear.Mesh.Formation

open IntervalTiling

variable {F : Type*} [FloatOps F] {config : FormationConfig F} {models : List ModelSizeClass}
  {swarmEligible : List (PeerInfo F)} {group : Group F} {swarmId : SwarmId}

/-! ## The swarm of a valid group -/

/-- What the candidates of a group ask for. -/
def Group.demand (config : FormationConfig F) (group : Group F) (candidate : Candidate F) : ℕ :=
  candidateDemand config group.model.totalLayers group.combinedCapacity candidate

/-- Peers and ranges of a group's stages come from the dealing loop. -/
theorem groupStages_eq_deal (config : FormationConfig F) (swarmEligible : List (PeerInfo F))
    (group : Group F) :
    (groupStages config swarmEligible group).map
        (fun stage => (stage.1.peerId, stage.2, stage.1.assignedLayers)) =
      (deal (group.demand config) group.model.totalLayers 0 group.sortedCandidates).map
        (fun x => (x.1.1.nodeId, x.1.2, x.2)) :=
  assignStages_eq_deal _ _ _ _ _ _ _ _

theorem Group.Valid.ne_nil (hvalid : group.Valid config models swarmEligible) :
    group.sortedCandidates ≠ [] := by
  intro hnil
  have htwo := hvalid.two_le
  rw [hnil] at htwo
  exact Nat.not_succ_le_zero 1 htwo

/-- The first stage leads and all others work. -/
theorem groupStages_roles (hvalid : group.Valid config models swarmEligible)
    (htotal : 0 < group.model.totalLayers) (hmin : 0 < config.minLayersPerStage) :
    ∃ leader workers, groupStages config swarmEligible group = leader :: workers ∧
      leader.1.role = .leader ∧ ∀ stage ∈ workers, stage.1.role = .worker := by
  have htwo := hvalid.two_le
  rw [groupStages]
  match group.sortedCandidates, htwo with
  | first :: second :: rest, _ =>
      exact assignStages_first _ config _ _ _ htotal hmin

/-- Every stage is active, whichever role it has. -/
theorem isActive_groupStages : ∀ stage ∈ groupStages config swarmEligible group,
    stage.1.isActive = true := by
  have hactive : ∀ (memberIdx layerCursor leaderIdx : ℕ) (candidates : List (Candidate F)),
      ∀ stage ∈ assignStages (buildLatencyMatrix swarmEligible) config group.model.totalLayers
        group.combinedCapacity leaderIdx memberIdx layerCursor candidates,
      stage.1.isActive = true := by
    intro memberIdx layerCursor leaderIdx candidates
    induction candidates generalizing memberIdx layerCursor with
    | nil => exact fun stage hstage => absurd hstage List.not_mem_nil
    | cons candidate rest ih =>
        rw [assignStages]
        dsimp only
        generalize (if rest.isEmpty = true then group.model.totalLayers - layerCursor
          else min _ (group.model.totalLayers - layerCursor)) = share
        split
        · exact ih (memberIdx + 1) layerCursor
        · rw [List.forall_mem_cons]
          refine ⟨?_, ih (memberIdx + 1) _⟩
          by_cases hmember : memberIdx = 0 <;> simp [SwarmMember.isActive, hmember]
  exact hactive _ _ _ _

theorem activeMembers_groupSwarm :
    (groupSwarm config swarmEligible swarmId group).activeMembers =
      (groupStages config swarmEligible group).map Prod.fst := by
  rw [groupSwarm, SwarmDefinition.activeMembers, SwarmDefinition.members_recalculateCapacity,
    List.filter_eq_self]
  intro m hm
  obtain ⟨stage, hstage, rfl⟩ := List.mem_map.mp hm
  exact isActive_groupStages stage hstage

/-- The ranges of the active members are those of the dealing loop. -/
theorem layerRanges_groupSwarm (config : FormationConfig F) (swarmEligible : List (PeerInfo F))
    (swarmId : SwarmId) (group : Group F) :
    (groupSwarm config swarmEligible swarmId group).activeMembers.map
        SwarmMember.assignedLayers =
      (deal (group.demand config) group.model.totalLayers 0 group.sortedCandidates).map
        Prod.snd := by
  have h := congrArg (List.map fun x => x.2.2) (groupStages_eq_deal config swarmEligible group)
  rw [List.map_map, List.map_map] at h
  rw [activeMembers_groupSwarm, List.map_map]
  exact h

/-- Two members whose latency, as the function looks it up, is at most the
maximum. -/
def WithinLatency (config : FormationConfig F) (swarmEligible : List (PeerInfo F))
    (first second : SwarmMember F) : Prop :=
  ∃ i j latency, swarmEligible[i]?.map PeerInfo.nodeId = some first.peerId ∧
    swarmEligible[j]?.map PeerInfo.nodeId = some second.peerId ∧
    buildLatencyMatrix swarmEligible (i, j) = some latency ∧
    FloatOps.le latency config.maxLatencyMs = true

/-- The matrix is symmetric, so the key under which a latency is looked up does
not matter. -/
theorem buildLatencyMatrix_latencyKey (i j : ℕ) :
    buildLatencyMatrix swarmEligible (latencyKey i j) = buildLatencyMatrix swarmEligible (i, j) := by
  unfold latencyKey
  split
  · rfl
  · rename_i hle
    unfold buildLatencyMatrix
    dsimp only
    by_cases hlt : j < i
    · rw [if_pos hlt, if_neg hle, if_pos hlt]
    · rw [if_neg hlt, if_neg hle, if_neg hle, if_neg hlt]

theorem withinLatency_of_close {i j : ℕ} {a b : PeerInfo F} {first second : SwarmMember F}
    (hfirst : swarmEligible[i]? = some a) (hsecond : swarmEligible[j]? = some b)
    (ha : a.nodeId = first.peerId) (hb : b.nodeId = second.peerId)
    (hclose : close (buildLatencyMatrix swarmEligible) config i j = true) :
    WithinLatency config swarmEligible first second := by
  rw [close, buildLatencyMatrix_latencyKey] at hclose
  cases hlatency : buildLatencyMatrix swarmEligible (i, j) with
  | none => simp [hlatency] at hclose
  | some latency =>
      refine ⟨i, j, latency, ?_, ?_, hlatency, by simpa [hlatency] using hclose⟩
      · rw [hfirst, Option.map_some, ha]
      · rw [hsecond, Option.map_some, hb]

/-- The members of a swarm are pairwise within the maximum latency. -/
theorem pairwise_withinLatency (hvalid : group.Valid config models swarmEligible) :
    (groupSwarm config swarmEligible swarmId group).activeMembers.Pairwise
      (WithinLatency config swarmEligible) := by
  have hstages : (groupStages config swarmEligible group).map
        (fun stage => (stage.1.peerId, stage.2)) =
      (deal (group.demand config) group.model.totalLayers 0 group.sortedCandidates).map
        (fun x => (x.1.1.nodeId, x.1.2)) := by
    have h := congrArg (List.map fun x => (x.1, x.2.1))
      (groupStages_eq_deal config swarmEligible group)
    rwa [List.map_map, List.map_map] at h
  have hsub := deal_sublist (group.demand config) group.model.totalLayers 0
    group.sortedCandidates
  -- the served candidates are still a clique of eligible peers
  have hclique := hvalid.clique.sublist hsub
  have heligible : ∀ c ∈ (deal (group.demand config) group.model.totalLayers 0
      group.sortedCandidates).map Prod.fst, swarmEligible[c.2]? = some c.1 :=
    fun c hc => hvalid.eligible c (hsub.subset hc)
  have hpairs : ((deal (group.demand config) group.model.totalLayers 0
      group.sortedCandidates).map fun x => (x.1.1.nodeId, x.1.2)).Pairwise
      fun x y => ∀ first second : SwarmMember F, first.peerId = x.1 → second.peerId = y.1 →
        WithinLatency config swarmEligible first second := by
    rw [List.pairwise_map] at hclique ⊢
    refine hclique.imp_of_mem fun {x y} hx hy hclose first second hfirst hsecond => ?_
    exact withinLatency_of_close (heligible x.1 (List.mem_map_of_mem hx))
      (heligible y.1 (List.mem_map_of_mem hy)) hfirst.symm hsecond.symm hclose
  rw [activeMembers_groupSwarm, List.pairwise_map]
  rw [← hstages, List.pairwise_map] at hpairs
  exact hpairs.imp fun {x y} h => h x.1 y.1 rfl rfl

/-- The layer ranges of the swarm tile the model of its group. -/
theorem tiles_groupSwarm (hvalid : group.Valid config models swarmEligible) :
    Tiles 0 ((groupSwarm config swarmEligible swarmId group).activeMembers.map
      SwarmMember.assignedLayers) group.model.totalLayers := by
  rw [layerRanges_groupSwarm]
  exact deal_tiles hvalid.ne_nil (Nat.zero_le _)

/-- A pipeline of the given model: consecutive nonempty ranges, one leader at the
front, and latencies within the maximum. -/
structure ValidPipeline (config : FormationConfig F) (swarmEligible : List (PeerInfo F))
    (model : ModelSizeClass) (swarm : SwarmDefinition F) : Prop where
  modelId : swarm.modelId = model.modelId
  tiles : Tiles 0 (swarm.activeMembers.map SwarmMember.assignedLayers) model.totalLayers
  one_leader : SwarmDefinition.OneLeader swarm.members
  leader_first : ∃ leader workers, swarm.activeMembers = leader :: workers ∧
    leader.role = .leader ∧ leader.assignedLayers.start = 0
  latency : swarm.activeMembers.Pairwise (WithinLatency config swarmEligible)

/-- The swarm of a valid group is a pipeline of its model. -/
theorem validPipeline_groupSwarm (hvalid : group.Valid config models swarmEligible)
    (htotal : 0 < group.model.totalLayers) (hmin : 0 < config.minLayersPerStage) :
    ValidPipeline config swarmEligible group.model
      (groupSwarm config swarmEligible swarmId group) := by
  obtain ⟨leader, workers, hstages, hleader, hworkers⟩ := groupStages_roles hvalid htotal hmin
  have hactive : (groupSwarm config swarmEligible swarmId group).activeMembers =
      leader.1 :: workers.map Prod.fst := by
    rw [activeMembers_groupSwarm, hstages, List.map_cons]
  have htiles : Tiles 0 ((groupSwarm config swarmEligible swarmId group).activeMembers.map
      SwarmMember.assignedLayers) group.model.totalLayers := tiles_groupSwarm hvalid
  refine ⟨rfl, htiles, ?_, ⟨leader.1, workers.map Prod.fst, hactive, hleader, ?_⟩,
    pairwise_withinLatency hvalid⟩
  · have hmembers : (groupSwarm config swarmEligible swarmId group).members =
        leader.1 :: workers.map Prod.fst := by
      rw [← List.map_cons, ← hstages]
      rfl
    have hothers : (workers.map Prod.fst).countP SwarmMember.isLeader = 0 := by
      rw [List.countP_eq_zero]
      intro m hm
      obtain ⟨stage, hstage, rfl⟩ := List.mem_map.mp hm
      simp [SwarmMember.isLeader, hworkers stage hstage]
    rw [SwarmDefinition.OneLeader, hmembers,
      List.countP_cons_of_pos (by simp [SwarmMember.isLeader, hleader]), hothers]
  · rw [hactive, List.map_cons] at htiles
    exact htiles.head_start

/-- A swarm of the right size: enough members, not too many, and none with too few
layers. -/
structure SizeBounds (config : FormationConfig F) (swarm : SwarmDefinition F) : Prop where
  min_members : minSwarmSize ≤ swarm.activeMemberCount
  max_members : swarm.activeMemberCount ≤ config.maxPipelineDepth
  min_layers : ∀ m ∈ swarm.activeMembers, config.minLayersPerStage ≤ m.assignedLayers.size

/-- The demands of a group leave layers over for a second stage, and they never
leave fewer layers than a stage must have. -/
def Group.Fits (config : FormationConfig F) (group : Group F) : Prop :=
  (∃ k < group.sortedCandidates.length,
    0 < prefixDemand (group.demand config) group.sortedCandidates k ∧
      prefixDemand (group.demand config) group.sortedCandidates k < group.model.totalLayers) ∧
  ∀ k < group.sortedCandidates.length,
    prefixDemand (group.demand config) group.sortedCandidates k < group.model.totalLayers →
      prefixDemand (group.demand config) group.sortedCandidates k + config.minLayersPerStage ≤
        group.model.totalLayers

instance (config : FormationConfig F) (group : Group F) : Decidable (group.Fits config) :=
  inferInstanceAs (Decidable (_ ∧ _))

/-- The swarm of a valid group has the right size exactly when its demands fit. -/
theorem sizeBounds_groupSwarm_iff (hvalid : group.Valid config models swarmEligible)
    (hdepth : 0 < config.maxPipelineDepth) :
    SizeBounds config (groupSwarm config swarmEligible swarmId group) ↔ group.Fits config := by
  have hranges := layerRanges_groupSwarm config swarmEligible swarmId group
  have hcount : (groupSwarm config swarmEligible swarmId group).activeMemberCount =
      (deal (group.demand config) group.model.totalLayers 0 group.sortedCandidates).length := by
    have hlength := congrArg List.length hranges
    rwa [List.length_map, List.length_map] at hlength
  have hmax : (groupSwarm config swarmEligible swarmId group).activeMemberCount ≤
      config.maxPipelineDepth := by
    have hsub := (deal_sublist (group.demand config) group.model.totalLayers 0
      group.sortedCandidates).length_le
    rw [List.length_map, ← hcount] at hsub
    exact le_trans hsub (hvalid.le_depth hdepth)
  have hmin : (∀ m ∈ (groupSwarm config swarmEligible swarmId group).activeMembers,
        config.minLayersPerStage ≤ m.assignedLayers.size) ↔
      ∀ x ∈ deal (group.demand config) group.model.totalLayers 0 group.sortedCandidates,
        config.minLayersPerStage ≤ x.2.size := by
    rw [← List.forall_mem_map (f := SwarmMember.assignedLayers)
        (P := fun range => config.minLayersPerStage ≤ range.size), hranges, List.forall_mem_map]
  have htwo := two_le_length_deal_iff (group.demand config) group.model.totalLayers 0
    hvalid.ne_nil
  have hdemand : ∀ c ∈ group.sortedCandidates, config.minLayersPerStage ≤ group.demand config c :=
    fun _ _ => le_max_right _ _
  have hsize := le_size_deal_iff (group.demand config) group.model.totalLayers 0 hvalid.ne_nil
    hdemand
  simp only [Nat.zero_add] at htwo hsize
  rw [Group.Fits, ← htwo, ← hsize, ← hmin, ← hcount]
  exact ⟨fun h => ⟨h.min_members, h.min_layers⟩, fun h => ⟨h.1, hmax, h.2⟩⟩

/-! ## Every formed swarm comes from an accepted group -/

section Loop

variable {swarmIds : ℕ → SwarmId}

/-- The swarms formed so far are those of the groups accepted so far. -/
theorem mem_swarms_formLoop {n : ℕ} {swarm : SwarmDefinition F} :
    swarm ∈ (formLoop config models swarmEligible swarmIds n).swarms ↔
      ∃ i < n, ∃ group,
        acceptedGroup config models swarmEligible
          (formLoop config models swarmEligible swarmIds i).assigned i = some group ∧
        swarm = groupSwarm config swarmEligible
          (swarmIds (formLoop config models swarmEligible swarmIds i).swarms.length) group := by
  induction n with
  | zero => simp [formLoop]
  | succ n ih =>
      have hstep : formLoop config models swarmEligible swarmIds (n + 1) =
          formStep config models swarmEligible swarmIds
            (formLoop config models swarmEligible swarmIds n) n := by
        rw [formLoop, List.range_succ, List.foldl_concat, formLoop]
      simp only [Nat.lt_succ_iff_lt_or_eq, or_and_right, exists_or, exists_eq_left, ← ih]
      rw [hstep, formStep]
      cases hgroup : acceptedGroup config models swarmEligible
        (formLoop config models swarmEligible swarmIds n).assigned n with
      | none => simp
      | some group => simp

/-- **Formed swarms are valid pipelines.** For every list of peers, every latency
relation and every float arithmetic, if all models have layers and stages must
have some, then every swarm formed is a pipeline of one of the models. -/
theorem formed_swarms_valid {peers : List (PeerInfo F)} {result : FormationResult F}
    (hmodels : ∀ model ∈ models, 0 < model.totalLayers) (hmin : 1 ≤ config.minLayersPerStage)
    (h : formSwarms swarmIds peers config models = .ok result) :
    ∀ swarm ∈ result.swarms, ∃ model ∈ models,
      ValidPipeline config (eligiblePeers config peers) model swarm := by
  intro swarm hswarm
  rw [formSwarms] at h
  split at h
  · cases h
    cases hswarm
  · cases h
    obtain ⟨i, _, group, hgroup, rfl⟩ := mem_swarms_formLoop.mp hswarm
    have hvalid := Group.valid_of_accepted hgroup
    exact ⟨group.model, hvalid.model_mem,
      validPipeline_groupSwarm hvalid (hmodels _ hvalid.model_mem) hmin⟩

/-- **When formed swarms have the right size.** If the depth allows for
`MIN_SWARM_SIZE` stages, then all swarms formed keep the bounds on members and
layers exactly when the demands of every accepted group fit its model. -/
theorem formed_swarms_size_bounds_iff {peers : List (PeerInfo F)} {result : FormationResult F}
    (hdepth : minSwarmSize ≤ config.maxPipelineDepth)
    (h : formSwarms swarmIds peers config models = .ok result) :
    (∀ swarm ∈ result.swarms, SizeBounds config swarm) ↔
      ∀ i < (eligiblePeers config peers).length, ∀ group,
        acceptedGroup config models (eligiblePeers config peers)
          (formLoop config models (eligiblePeers config peers) swarmIds i).assigned i =
            some group →
        group.Fits config := by
  rw [formSwarms] at h
  split at h
  · rename_i hempty
    cases h
    rw [List.isEmpty_iff.mp hempty]
    exact ⟨fun _ i hi => absurd hi (Nat.not_lt_zero i), fun _ swarm hswarm => nomatch hswarm⟩
  cases h
  have hpos : 0 < config.maxPipelineDepth := lt_of_lt_of_le (Nat.succ_pos 1) hdepth
  refine ⟨fun hbounds i hi group hgroup => ?_, fun hfits swarm hswarm => ?_⟩
  · have hswarm := hbounds _ (mem_swarms_formLoop.mpr ⟨i, hi, group, hgroup, rfl⟩)
    exact (sizeBounds_groupSwarm_iff (Group.valid_of_accepted hgroup) hpos).mp hswarm
  · obtain ⟨i, hi, group, hgroup, rfl⟩ := mem_swarms_formLoop.mp hswarm
    exact (sizeBounds_groupSwarm_iff (Group.valid_of_accepted hgroup) hpos).mpr
      (hfits i hi group hgroup)

end Loop

/-! ## Concrete formations -/

/-- The default configuration. -/
def defaultConfig : FormationConfig ℚ where
  maxLatencyMs := 50
  maxPipelineDepth := 4
  minLayersPerStage := 4
  minPeerCapacityBytes := 2 * gb
  minDrafterCapacityBytes := 512 * 1024 * 1024

/-- A model of 4 GiB with 32 layers. -/
def mistral : ModelSizeClass := ⟨"mistral-7b-q4_k_m", 4 * gb, 32⟩

/-- Swarm identities drawn in order. -/
def countedIds (n : ℕ) : SwarmId := ⟨BitVec.ofNat 128 n⟩

/-- Two peers of 8 GiB. -/
def evenPeers : List (PeerInfo ℚ) := [PeerInfo.ramOnly 1 (8 * gb), PeerInfo.ramOnly 2 (8 * gb)]

/-- Two even peers form valid pipelines only. -/
theorem formed_swarms_valid_even_peers :
    ∃ result, formSwarms countedIds evenPeers defaultConfig [mistral] = .ok result ∧
      ∀ swarm ∈ result.swarms, ∃ model ∈ [mistral],
        ValidPipeline defaultConfig (eligiblePeers defaultConfig evenPeers) model swarm :=
  ⟨_, rfl, formed_swarms_valid (by decide) (by decide) rfl⟩

/-- Two even peers form swarms of the right size if their demands fit. -/
theorem formed_swarms_size_bounds_iff_even_peers :
    ∃ result, formSwarms countedIds evenPeers defaultConfig [mistral] = .ok result ∧
      ((∀ swarm ∈ result.swarms, SizeBounds defaultConfig swarm) ↔
        ∀ i < (eligiblePeers defaultConfig evenPeers).length, ∀ group,
          acceptedGroup defaultConfig [mistral] (eligiblePeers defaultConfig evenPeers)
            (formLoop defaultConfig [mistral] (eligiblePeers defaultConfig evenPeers)
              countedIds i).assigned i = some group →
          group.Fits defaultConfig) :=
  ⟨_, rfl, formed_swarms_size_bounds_iff (by decide) rfl⟩

/-- A peer of 126 GiB and one of 2 GiB. -/
def skewedPeers : List (PeerInfo ℚ) :=
  [PeerInfo.ramOnly 1 (126 * gb), PeerInfo.ramOnly 2 (2 * gb)]

/-- The share of the large peer, `126 / 128 * 32 = 31.5`, rounds to all 32 layers:
the group of two becomes a swarm of one. -/
theorem skewed_group_forms_single_member :
    ∃ result, formSwarms countedIds skewedPeers defaultConfig [mistral] = .ok result ∧
      ∃ swarm ∈ result.swarms, swarm.activeMemberCount = 1 ∧ ¬ SizeBounds defaultConfig swarm := by
  refine ⟨_, rfl, ?_⟩
  have hcounts : (formLoop defaultConfig [mistral] (eligiblePeers defaultConfig skewedPeers)
      countedIds (eligiblePeers defaultConfig skewedPeers).length).swarms.map
        SwarmDefinition.activeMemberCount = [1] := by decide +kernel
  have hone := hcounts ▸ List.mem_singleton_self 1
  obtain ⟨swarm, hswarm, hcount⟩ := List.mem_map.mp hone
  refine ⟨swarm, hswarm, hcount, fun hbounds => ?_⟩
  have hmin := hbounds.min_members
  rw [hcount] at hmin
  exact absurd hmin (by decide)

end HiveBear.Mesh.Formation
