/-
# Forming swarms

`form_swarms` ranks the peers that are strong enough, gathers around each
unassigned one the unassigned peers that are close to everyone gathered so far,
matches the group with the largest model it can hold, and splits the layers of
that model over the group in proportion to capacity.

The clustering only ever compares a newcomer with the whole group, so a group is
a clique of the latency relation, whatever the measurements are. The split is the
dealing loop once more. It always tiles the model, so every formed swarm is a
valid pipeline; but a share can use up the layers early or leave too few for the
last stage, so the minimum number of members and the minimum size of a stage hold
only under a condition on the shares.
-/

import HiveBear.Mesh.Scheduler.Assign
import HiveBear.Mesh.Swarm.Basic

namespace HiveBear.Mesh.Formation

open IntervalTiling

/-- Model size class for matching swarm capacity to appropriate models. -/
structure ModelSizeClass where
  modelId : String
  /-- Total model weight size in bytes. -/
  sizeBytes : UInt64
  /-- Number of transformer layers. -/
  totalLayers : ℕ

/-- A peer's ability to run a small draft model for speculative decoding. -/
structure DraftCapability (F : Type*) where
  draftModelId : String
  draftModelSizeBytes : UInt64
  estimatedDraftTokS : F

/-- Configuration for swarm formation. -/
structure FormationConfig (F : Type*) where
  /-- Maximum pairwise latency (ms) between swarm members. -/
  maxLatencyMs : F
  /-- Maximum pipeline stages per swarm. -/
  maxPipelineDepth : ℕ
  /-- Minimum layers each stage must process. -/
  minLayersPerStage : ℕ
  /-- Minimum memory (bytes) for a peer to join a swarm (not as drafter). -/
  minPeerCapacityBytes : UInt64
  /-- Minimum memory (bytes) for a peer to serve as a drafter. -/
  minDrafterCapacityBytes : UInt64

/-- Result of the swarm formation process. -/
structure FormationResult (F : Type*) where
  /-- Swarms that were successfully formed. -/
  swarms : List (SwarmDefinition F)
  /-- Peers assigned as speculative decoding drafters. -/
  drafters : List (NodeId × DraftCapability F)
  /-- Peers that could not be placed in any swarm or drafter role. -/
  unplaced : List NodeId

variable {F : Type*} [FloatOps F]

/-! ## The source functions -/

/-- A gibibyte. -/
def gb : UInt64 := 1024 * 1024 * 1024

/-- The larger of two models by size, the later one if they are equal. -/
def laterMax (best : Option ModelSizeClass) (model : ModelSizeClass) : Option ModelSizeClass :=
  match best with
  | none => some model
  | some best => if best.sizeBytes ≤ model.sizeBytes then some model else some best

variable (F) in
/-- Find the largest model that fits within the given combined capacity, of which
15% are reserved. -/
def bestModelForCapacity (capacityBytes : UInt64) (models : List ModelSizeClass) :
    Option ModelSizeClass :=
  let usable := FloatOps.truncU64
    ((FloatOps.ofNat capacityBytes.toNat : F) * FloatOps.literal (85 / 100))
  (models.filter fun m => m.sizeBytes.toNat ≤ usable).foldl laterMax none

/-- Determine if a peer is too weak for swarm membership but can serve as a
drafter. -/
def classifyAsDrafter (peer : PeerInfo F) (config : FormationConfig F) :
    Option (DraftCapability F) :=
  if peer.capacity < config.minDrafterCapacityBytes then none
  else if config.minPeerCapacityBytes ≤ peer.capacity then none
  else if 2 * gb ≤ peer.capacity then
    some ⟨"phi-3-mini-3.8b-q4_k_m",
      .ofNat (FloatOps.truncU64 ((FloatOps.literal (23 / 10) : F) * FloatOps.ofNat gb.toNat)),
      FloatOps.literal 5⟩
  else
    some ⟨"tinyllama-1.1b-q4_k_m",
      .ofNat (FloatOps.truncU64 ((FloatOps.literal (7 / 10) : F) * FloatOps.ofNat gb.toNat)),
      FloatOps.literal 10⟩

/-- The latency between two peers: measured by the first, else by the second, else
the average of their latencies to the coordinator. -/
def pairLatency (a b : PeerInfo F) : F :=
  match (a.latencyMap.lookup b.nodeId).or (b.latencyMap.lookup a.nodeId) with
  | some latency => latency
  | none =>
      (a.latencyMs.getD (FloatOps.literal 50) + b.latencyMs.getD (FloatOps.literal 50)) /
        FloatOps.literal 2

/-- The pairwise latency matrix, with an entry for every two different indices. -/
def buildLatencyMatrix (peers : List (PeerInfo F)) (key : ℕ × ℕ) : Option F :=
  if key.1 < key.2 then
    peers[key.1]?.bind fun a => peers[key.2]?.map fun b => pairLatency a b
  else if key.2 < key.1 then
    peers[key.2]?.bind fun a => peers[key.1]?.map fun b => pairLatency a b
  else none

/-- The key under which two peers are looked up. -/
def latencyKey (i j : ℕ) : ℕ × ℕ := if i < j then (i, j) else (j, i)

/-- An eligible peer with its index. -/
abbrev Candidate (F : Type*) := PeerInfo F × ℕ

section Group

variable (matrix : ℕ × ℕ → Option F) (config : FormationConfig F)

/-- Two peers have acceptable latency; a missing entry is not acceptable. -/
def close (member newcomer : ℕ) : Bool :=
  ((matrix (latencyKey member newcomer)).map fun latency =>
    FloatOps.le latency config.maxLatencyMs).getD false

/-- Walk the eligible peers and add those that are unassigned and close to all
candidates so far, up to the maximum depth. -/
def gatherCandidates (assigned : ℕ → Bool) (i : ℕ) :
    List (Candidate F) → List (Candidate F) → List (Candidate F)
  | candidates, [] => candidates
  | candidates, newcomer :: rest =>
      let admitted := !(i == newcomer.2 || assigned newcomer.2) &&
        candidates.all (fun member => close matrix config member.2 newcomer.2) &&
        decide (candidates.length < config.maxPipelineDepth)
      gatherCandidates assigned i
        (if admitted then candidates ++ [newcomer] else candidates) rest

/-- Capacity descending. -/
def compareCandidates (a b : Candidate F) : Ordering := compare b.1.capacity a.1.capacity

/-- Assign layers proportional to capacity; zero shares are skipped. Each member is
paired with the index of its peer. -/
def assignStages (totalLayers : ℕ) (totalCap : UInt64) (leaderIdx : ℕ) :
    ℕ → ℕ → List (Candidate F) → List (SwarmMember F × ℕ)
  | _, _, [] => []
  | memberIdx, layerCursor, (peer, peerIdx) :: rest =>
      let share :=
        if rest.isEmpty then totalLayers - layerCursor
        else min (max (rawShare (F := F) peer.capacity totalCap totalLayers)
          config.minLayersPerStage) (totalLayers - layerCursor)
      if share = 0 then
        assignStages totalLayers totalCap leaderIdx (memberIdx + 1) layerCursor rest
      else
        let role := if memberIdx = 0 then SwarmRole.leader else .worker
        let latencyToLeader :=
          if memberIdx = 0 then FloatOps.literal 0
          else (matrix (latencyKey leaderIdx peerIdx)).getD (FloatOps.literal 10)
        (⟨peer.nodeId, role, ⟨layerCursor, layerCursor + share⟩, peer.capacity,
            latencyToLeader⟩, peerIdx) ::
          assignStages totalLayers totalCap leaderIdx (memberIdx + 1) (layerCursor + share) rest

end Group

/-- A group of peers that a swarm is formed from: strongest first, with the model
they serve. -/
structure Group (F : Type*) where
  model : ModelSizeClass
  sortedCandidates : List (Candidate F)
  combinedCapacity : UInt64

/-- What the formation loop carries from one peer to the next. -/
structure FormationState (F : Type*) where
  assigned : ℕ → Bool
  swarms : List (SwarmDefinition F)

section Loop

variable (config : FormationConfig F) (models : List ModelSizeClass)
  (swarmEligible : List (PeerInfo F))

/-- The group formed around the peer with index `i`, if it is large enough, has
enough capacity, and there is a model for it. -/
def acceptedGroup (assigned : ℕ → Bool) (i : ℕ) : Option (Group F) :=
  if assigned i then none
  else
    swarmEligible[i]?.bind fun peer =>
      let candidates := gatherCandidates (buildLatencyMatrix swarmEligible) config assigned i
        [(peer, i)] swarmEligible.zipIdx
      if candidates.length < minSwarmSize then none
      else
        let combinedCapacity := (candidates.map fun c => c.1.capacity).sum
        if combinedCapacity < minSwarmCapacityBytes then none
        else
          (bestModelForCapacity F combinedCapacity models).bind fun model =>
            let maxStages := candidates.length
            if model.totalLayers <
                MachineWord.mulU32 config.minLayersPerStage (min maxStages minSwarmSize) then none
            else some ⟨model, StableSort.sortBy compareCandidates candidates, combinedCapacity⟩

/-- The members of the swarm a group forms, each with the index of its peer. -/
def groupStages (group : Group F) : List (SwarmMember F × ℕ) :=
  let leaderIdx := (group.sortedCandidates.head?.map Prod.snd).getD 0
  assignStages (buildLatencyMatrix swarmEligible) config group.model.totalLayers
    group.combinedCapacity leaderIdx 0 0 group.sortedCandidates

/-- The swarm a group forms. -/
def groupSwarm (swarmId : SwarmId) (group : Group F) : SwarmDefinition F :=
  { SwarmDefinition.new swarmId group.model.modelId with
    members := (groupStages config swarmEligible group).map Prod.fst
    status := .forming }.recalculateCapacity

/-- One iteration of the formation loop. -/
def formStep (swarmIds : ℕ → SwarmId) (state : FormationState F) (i : ℕ) : FormationState F :=
  match acceptedGroup config models swarmEligible state.assigned i with
  | none => state
  | some group =>
      { assigned := fun j => state.assigned j ||
          (groupStages config swarmEligible group).any fun stage => stage.2 == j
        swarms := state.swarms ++
          [groupSwarm config swarmEligible (swarmIds state.swarms.length) group] }

/-- The loop state before iteration `n`. -/
def formLoop (swarmIds : ℕ → SwarmId) (n : ℕ) : FormationState F :=
  (List.range n).foldl (formStep config models swarmEligible swarmIds) ⟨fun _ => false, []⟩

end Loop

/-- The peers that are strong enough for a swarm, strongest first. -/
def eligiblePeers (config : FormationConfig F) (peers : List (PeerInfo F)) : List (PeerInfo F) :=
  StableSort.sortBy (fun a b => compare b.capacity a.capacity)
    (peers.filter fun peer => config.minPeerCapacityBytes ≤ peer.capacity)

/-- Form swarms from a set of available peers. The swarm identities are the
freshly drawn ones, in order. -/
def formSwarms (swarmIds : ℕ → SwarmId) (peers : List (PeerInfo F))
    (config : FormationConfig F) (models : List ModelSizeClass) :
    Except MeshError (FormationResult F) :=
  if peers.isEmpty then .ok ⟨[], [], []⟩
  else
    let weak := peers.filter fun peer => !(config.minPeerCapacityBytes ≤ peer.capacity : Bool)
    let drafters := weak.filterMap fun peer =>
      (classifyAsDrafter peer config).map fun draftCap => (peer.nodeId, draftCap)
    let tooWeak := (weak.filter fun peer => (classifyAsDrafter peer config).isNone).map
      PeerInfo.nodeId
    let swarmEligible := eligiblePeers config peers
    let final := formLoop config models swarmEligible swarmIds swarmEligible.length
    let unplaced := (swarmEligible.zipIdx.filter fun c => !final.assigned c.2).map
      fun c => c.1.nodeId
    .ok ⟨final.swarms, drafters, tooWeak ++ unplaced⟩

/-! ## The split of the layers -/

/-- What a candidate asks for: its rounded share, at least the minimum. -/
def candidateDemand (config : FormationConfig F) (totalLayers : ℕ) (totalCap : UInt64)
    (candidate : Candidate F) : ℕ :=
  max (rawShare (F := F) candidate.1.capacity totalCap totalLayers) config.minLayersPerStage

section Stages

variable (matrix : ℕ × ℕ → Option F) (config : FormationConfig F) (totalLayers : ℕ)
  (totalCap : UInt64) (leaderIdx : ℕ)

/-- Once the layers are used up all shares are zero. -/
theorem assignStages_of_le {layerCursor : ℕ} (h : totalLayers ≤ layerCursor) (memberIdx : ℕ)
    (candidates : List (Candidate F)) :
    assignStages matrix config totalLayers totalCap leaderIdx memberIdx layerCursor candidates =
      [] := by
  induction candidates generalizing memberIdx with
  | nil => rfl
  | cons candidate rest ih =>
      have hleft : totalLayers - layerCursor = 0 := Nat.sub_eq_zero_of_le h
      rw [assignStages, hleft]
      simp only [Nat.min_zero, ite_self, if_true]
      exact ih (memberIdx + 1)

/-- What a stage has from its candidate and its range is what the general dealing loop deals out. -/
theorem map_assignStages {β : Type*} {f : SwarmMember F × ℕ → β} {g : Candidate F × Range → β}
    (hfg : ∀ (candidate : Candidate F) (role : SwarmRole) (range : Range) (latency : F),
      f (⟨candidate.1.nodeId, role, range, candidate.1.capacity, latency⟩, candidate.2) =
        g (candidate, range))
    (memberIdx layerCursor : ℕ) (candidates : List (Candidate F)) :
    (assignStages matrix config totalLayers totalCap leaderIdx memberIdx layerCursor
        candidates).map f =
      (deal (candidateDemand config totalLayers totalCap) totalLayers layerCursor
        candidates).map g := by
  induction candidates generalizing memberIdx layerCursor with
  | nil => rfl
  | cons candidate rest ih =>
      by_cases hle : totalLayers ≤ layerCursor
      · rw [assignStages_of_le matrix config totalLayers totalCap leaderIdx hle, deal_of_le hle]
        rfl
      · rw [assignStages, deal, if_neg hle]
        dsimp only [candidateDemand]
        generalize (if rest.isEmpty = true then totalLayers - layerCursor
          else min _ (totalLayers - layerCursor)) = share
        split
        · exact ih (memberIdx + 1) layerCursor
        · rw [List.map_cons, List.map_cons, ih, hfg candidate]

/-- Peers and ranges of the stages are those of the general dealing loop. -/
theorem assignStages_eq_deal (memberIdx layerCursor : ℕ) (candidates : List (Candidate F)) :
    (assignStages matrix config totalLayers totalCap leaderIdx memberIdx layerCursor
        candidates).map (fun stage => (stage.1.peerId, stage.2, stage.1.assignedLayers)) =
      (deal (candidateDemand config totalLayers totalCap) totalLayers layerCursor
        candidates).map (fun x => (x.1.1.nodeId, x.1.2, x.2)) :=
  map_assignStages matrix config totalLayers totalCap leaderIdx (fun _ _ _ _ => rfl) _ _ _

/-- Everyone behind the first candidate is a worker. -/
theorem role_assignStages {memberIdx : ℕ} (hmember : memberIdx ≠ 0) (layerCursor : ℕ)
    (candidates : List (Candidate F)) :
    ∀ stage ∈ assignStages matrix config totalLayers totalCap leaderIdx memberIdx layerCursor
      candidates, stage.1.role = .worker := by
  induction candidates generalizing memberIdx layerCursor with
  | nil => exact fun stage hstage => absurd hstage List.not_mem_nil
  | cons candidate rest ih =>
      rw [assignStages]
      dsimp only
      generalize (if rest.isEmpty = true then totalLayers - layerCursor
        else min _ (totalLayers - layerCursor)) = share
      split
      · exact ih (Nat.succ_ne_zero memberIdx) layerCursor
      · rw [List.forall_mem_cons]
        exact ⟨rfl, ih (Nat.succ_ne_zero memberIdx) _⟩

/-- The first candidate of a group leads, unless it asks for nothing. -/
theorem assignStages_first {first second : Candidate F} {rest : List (Candidate F)}
    (htotal : 0 < totalLayers) (hmin : 0 < config.minLayersPerStage) :
    ∃ leader workers,
      assignStages matrix config totalLayers totalCap leaderIdx 0 0 (first :: second :: rest) =
        leader :: workers ∧ leader.1.role = .leader ∧
      ∀ stage ∈ workers, stage.1.role = .worker := by
  have hshare : min (max (rawShare (F := F) first.1.capacity totalCap totalLayers)
      config.minLayersPerStage) (totalLayers - 0) ≠ 0 := by omega
  rw [assignStages]
  simp only [List.isEmpty_cons, Bool.false_eq_true, if_false, hshare, if_true]
  exact ⟨_, _, rfl, rfl, role_assignStages matrix config totalLayers totalCap leaderIdx
    (Nat.succ_ne_zero 0) _ _⟩

end Stages

/-! ## Groups are cliques of eligible peers -/

/-- What is kept is one of the candidates or was kept before. -/
theorem mem_of_foldl_laterMax {candidates : List ModelSizeClass} {best : Option ModelSizeClass}
    {model : ModelSizeClass} (h : candidates.foldl laterMax best = some model) :
    model ∈ candidates ∨ best = some model := by
  induction candidates generalizing best with
  | nil => exact Or.inr h
  | cons candidate rest ih =>
      rcases ih h with hmem | hlater
      · exact Or.inl (List.mem_cons_of_mem _ hmem)
      · cases best with
        | none =>
            cases hlater
            exact Or.inl List.mem_cons_self
        | some best =>
            simp only [laterMax] at hlater
            split at hlater
            · cases hlater
              exact Or.inl List.mem_cons_self
            · exact Or.inr hlater

/-- Models are only ever taken from the given list. -/
theorem mem_of_bestModelForCapacity {capacityBytes : UInt64} {models : List ModelSizeClass}
    {model : ModelSizeClass} (h : bestModelForCapacity F capacityBytes models = some model) :
    model ∈ models := by
  rcases mem_of_foldl_laterMax h with hmem | hnone
  · exact List.mem_of_mem_filter hmem
  · cases hnone

section Gather

variable {matrix : ℕ × ℕ → Option F} {config : FormationConfig F} {assigned : ℕ → Bool} {i : ℕ}

theorem latencyKey_comm (i j : ℕ) : latencyKey i j = latencyKey j i := by
  unfold latencyKey
  split <;> split <;> first | rfl | (congr 1 <;> omega)

theorem close_comm (member newcomer : ℕ) :
    close matrix config member newcomer = close matrix config newcomer member := by
  rw [close, close, latencyKey_comm]

/-- Gathering keeps a group a clique. -/
theorem pairwise_gatherCandidates {candidates : List (Candidate F)}
    (h : candidates.Pairwise fun a b => close matrix config a.2 b.2 = true)
    (newcomers : List (Candidate F)) :
    (gatherCandidates matrix config assigned i candidates newcomers).Pairwise
      fun a b => close matrix config a.2 b.2 = true := by
  induction newcomers generalizing candidates with
  | nil => exact h
  | cons newcomer rest ih =>
      rw [gatherCandidates]
      apply ih
      split
      · rename_i hadmitted
        simp only [Bool.and_eq_true, List.all_eq_true] at hadmitted
        rw [List.pairwise_append]
        refine ⟨h, List.pairwise_singleton _ _, fun a ha b hb => ?_⟩
        rw [List.mem_singleton.mp hb]
        exact hadmitted.1.2 a ha
      · exact h

/-- Everyone gathered was there before or is a newcomer. -/
theorem mem_gatherCandidates {candidates newcomers : List (Candidate F)} {c : Candidate F}
    (h : c ∈ gatherCandidates matrix config assigned i candidates newcomers) :
    c ∈ candidates ∨ c ∈ newcomers := by
  induction newcomers generalizing candidates with
  | nil => exact Or.inl h
  | cons newcomer rest ih =>
      rw [gatherCandidates] at h
      rcases ih h with hold | hnew
      · split at hold
        · rcases List.mem_append.mp hold with hold | hnewcomer
          · exact Or.inl hold
          · rw [List.mem_singleton.mp hnewcomer]
            exact Or.inr List.mem_cons_self
        · exact Or.inl hold
      · exact Or.inr (List.mem_cons_of_mem _ hnew)

/-- Gathering respects the maximum depth. -/
theorem length_gatherCandidates_le {candidates : List (Candidate F)}
    (h : candidates.length ≤ config.maxPipelineDepth) (newcomers : List (Candidate F)) :
    (gatherCandidates matrix config assigned i candidates newcomers).length ≤
      config.maxPipelineDepth := by
  induction newcomers generalizing candidates with
  | nil => exact h
  | cons newcomer rest ih =>
      rw [gatherCandidates]
      apply ih
      split
      · rename_i hadmitted
        simp only [Bool.and_eq_true, decide_eq_true_eq] at hadmitted
        rw [List.length_append, List.length_singleton]
        exact hadmitted.2
      · exact h

end Gather

section Accepted

variable {config : FormationConfig F} {models : List ModelSizeClass}
  {swarmEligible : List (PeerInfo F)}

/-- What the formation loop relies on when it splits the layers over a group. -/
structure Group.Valid (config : FormationConfig F) (models : List ModelSizeClass)
    (swarmEligible : List (PeerInfo F)) (group : Group F) : Prop where
  model_mem : group.model ∈ models
  two_le : minSwarmSize ≤ group.sortedCandidates.length
  le_depth : 0 < config.maxPipelineDepth →
    group.sortedCandidates.length ≤ config.maxPipelineDepth
  eligible : ∀ c ∈ group.sortedCandidates, swarmEligible[c.2]? = some c.1
  clique : group.sortedCandidates.Pairwise fun a b =>
    close (buildLatencyMatrix swarmEligible) config a.2 b.2 = true

/-- Accepted groups are valid, whatever the assignments so far. -/
theorem Group.valid_of_accepted {assigned : ℕ → Bool} {i : ℕ} {group : Group F}
    (h : acceptedGroup config models swarmEligible assigned i = some group) :
    group.Valid config models swarmEligible := by
  rw [acceptedGroup] at h
  split at h
  · cases h
  obtain ⟨peer, hpeer, h⟩ := Option.bind_eq_some_iff.mp h
  dsimp only at h
  generalize hgather : gatherCandidates (buildLatencyMatrix swarmEligible) config assigned i
    [(peer, i)] swarmEligible.zipIdx = candidates at h
  split at h
  · cases h
  rename_i hsize
  split at h
  · cases h
  obtain ⟨model, hmodel, h⟩ := Option.bind_eq_some_iff.mp h
  split at h
  · cases h
  cases h
  have hperm := StableSort.perm_sortBy compareCandidates candidates
  have hsymm : ∀ a b : Candidate F,
      close (buildLatencyMatrix swarmEligible) config a.2 b.2 = true →
      close (buildLatencyMatrix swarmEligible) config b.2 a.2 = true :=
    fun a b hab => (close_comm b.2 a.2).trans hab
  exact {
    model_mem := mem_of_bestModelForCapacity hmodel
    two_le := by
      rw [StableSort.length_sortBy]
      exact Nat.not_lt.mp hsize
    le_depth := fun hdepth => by
      rw [StableSort.length_sortBy, ← hgather]
      apply length_gatherCandidates_le
      exact Nat.succ_le_of_lt hdepth
    eligible := fun c hc => by
      rw [StableSort.mem_sortBy, ← hgather] at hc
      rcases mem_gatherCandidates hc with hfirst | hnewcomer
      · rw [List.mem_singleton.mp hfirst]
        exact hpeer
      · exact List.mem_zipIdx_iff_getElem?.mp hnewcomer
    clique := by
      rw [hperm.pairwise_iff (hsymm _ _), ← hgather]
      exact pairwise_gatherCandidates (List.pairwise_singleton _ _) _ }

end Accepted

end HiveBear.Mesh.Formation
