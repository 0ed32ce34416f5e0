/-
# The swarm a request goes to

A request is routed in one pass over the swarms of its model. A swarm that does not serve or
is at its limit is passed over, and of the others the one with the highest score is kept. The
health of a busy swarm counts as zero, so that a busy swarm is chosen only when no ready one
can take the request.

The float operations are those of the carrier; what the choice is worth is stated for exact
arithmetic.
-/

import HiveBear.Library.Selection
import HiveBear.Mesh.Swarm.Router
import Mathlib.Algebra.Order.Field.Rat
import Mathlib.Tactic.Positivity

namespace HiveBear.Mesh

open Selection

variable {F : Type*}

/-- Why no swarm was selected. -/
inductive RoutingError
  | auth (message : String)
  | noPeersAvailable (modelId : String)
  deriving DecidableEq, Repr

instance : ToString RoutingError where
  toString
    | .auth message => s!"Authentication failed: {message}"
    | .noPeersAvailable modelId => s!"No peers available for model '{modelId}'"

/-- The router together with its limit and the peers that may use it. -/
structure RequestRouter (F : Type*) extends SwarmRouter F where
  /-- Maximum concurrent requests per swarm. -/
  maxRequestsPerSwarm : UInt32
  /-- Set of currently contributing peers, by the bytes of their keys. -/
  contributingPeers : List UInt8 → Option Bool

namespace RequestRouter

/-- A router with these limits, without swarms and peers. -/
def withLimits (maxRequestsPerSwarm : UInt32) : RequestRouter F where
  toSwarmRouter := SwarmRouter.new
  maxRequestsPerSwarm := maxRequestsPerSwarm
  contributingPeers _ := none

/-- Mark a peer as contributing, or as not. -/
def setContributing (router : RequestRouter F) (peerId : NodeId) (contributing : Bool) :
    RequestRouter F :=
  { router with
    contributingPeers := Function.update router.contributingPeers peerId.bytes
      (if contributing then some true else none) }

/-- Check if a peer is currently contributing. -/
def isContributing (router : RequestRouter F) (peerId : NodeId) : Bool :=
  (router.contributingPeers peerId.bytes).isSome

/-- The requests a swarm is serving, none if it is not counted. -/
def loadOf (router : RequestRouter F) (swarm : SwarmDefinition F) : UInt32 :=
  (router.getLoad swarm.swarmId).getD 0

section Score

variable [FloatOps F]

/-- What the status of a swarm is worth. -/
def healthFactor (status : SwarmStatus) : F :=
  match status with
  | .ready => FloatOps.literal 1
  | .degraded => FloatOps.literal (1 / 2)
  | _ => FloatOps.literal 0

/-- What a swarm is worth under this load. -/
def score (load : UInt32) (swarm : SwarmDefinition F) : F :=
  let throughput := FloatOps.max swarm.estimatedTokS (FloatOps.literal 1)
  FloatOps.literal 1 / (FloatOps.ofNat load.toNat + FloatOps.literal 1) * throughput *
    healthFactor swarm.status

/-- One swarm against the best so far. -/
def consider (router : RequestRouter F) (best : Option (SwarmDefinition F × F))
    (swarm : SwarmDefinition F) : Option (SwarmDefinition F × F) :=
  if swarm.status = .ready ∨ swarm.status = .busy then
    let load := router.loadOf swarm
    if router.maxRequestsPerSwarm ≤ load then
      best -- at capacity
    else
      match best with
      | some (_, bestScore) =>
          if FloatOps.le (score load swarm) bestScore then best
          else some (swarm, score load swarm)
      | none => some (swarm, score load swarm)
  else best

/-- Select the best swarm for a given model and requesting peer. -/
def selectSwarm (router : RequestRouter F) (modelId : String) (requester : NodeId) :
    Except RoutingError (SwarmDefinition F) :=
  if router.isContributing requester then
    match (router.swarms modelId).foldl router.consider none with
    | some (swarm, _) => .ok swarm
    | none => .error (.noPeersAvailable modelId)
  else
    .error (.auth
      "You must contribute to use the network. Run `hivebear contribute` to join.")

end Score

/-- The swarm serves and is below its limit. -/
def Admits (router : RequestRouter F) (swarm : SwarmDefinition F) : Prop :=
  (swarm.status = .ready ∨ swarm.status = .busy) ∧
    router.loadOf swarm < router.maxRequestsPerSwarm

instance (router : RequestRouter F) (swarm : SwarmDefinition F) : Decidable (router.Admits swarm) :=
  inferInstanceAs (Decidable (_ ∧ _))

/-- A swarm of the model that can take a request. -/
def Qualifies (router : RequestRouter F) (modelId : String) (swarm : SwarmDefinition F) : Prop :=
  swarm ∈ router.swarms modelId ∧ router.Admits swarm

/-- What a swarm gives each of its requests, and one more. -/
def throughputShare (router : RequestRouter ℚ) (swarm : SwarmDefinition ℚ) : ℚ :=
  max swarm.estimatedTokS 1 / ((router.loadOf swarm).toNat + 1)

/-- No swarm of the model is a better choice. -/
structure BestChoice (router : RequestRouter ℚ) (modelId : String) (swarm : SwarmDefinition ℚ) :
    Prop where
  qualifies : router.Qualifies modelId swarm
  ready : ∀ other, router.Qualifies modelId other → other.status = .ready → swarm.status = .ready
  greatest : ∀ other, router.Qualifies modelId other → other.status = .ready →
    router.throughputShare other ≤ router.throughputShare swarm

/-- Who contributes after a peer was marked. -/
theorem isContributing_setContributing (router : RequestRouter F) (peerId other : NodeId)
    (contributing : Bool) :
    (router.setContributing peerId contributing).isContributing other =
      if other = peerId then contributing else router.isContributing other := by
  have hpeers : (router.setContributing peerId contributing).contributingPeers =
      Function.update router.contributingPeers peerId.bytes
        (if contributing then some true else none) := rfl
  rw [isContributing, hpeers]
  by_cases hsame : other = peerId
  · subst hsame
    rw [if_pos rfl, Function.update_self]
    cases contributing <;> rfl
  · have hbytes : other.bytes ≠ peerId.bytes := mt NodeId.eq_of_bytes hsame
    rw [if_neg hsame, Function.update_of_ne hbytes, isContributing]

/-! ## The score in exact arithmetic -/

variable {router : RequestRouter ℚ} {modelId : String} {swarm : SwarmDefinition ℚ}

theorem throughputShare_pos (router : RequestRouter ℚ) (swarm : SwarmDefinition ℚ) :
    0 < router.throughputShare swarm := by
  have hthroughput : 0 < max swarm.estimatedTokS 1 := lt_max_of_lt_right zero_lt_one
  rw [throughputShare]
  positivity

/-- The score of a swarm is what it gives, times its health. -/
theorem score_eq (router : RequestRouter ℚ) (swarm : SwarmDefinition ℚ) :
    score (router.loadOf swarm) swarm =
      router.throughputShare swarm * healthFactor swarm.status := by
  have hthroughput : FloatOps.max swarm.estimatedTokS (FloatOps.literal 1) =
      max swarm.estimatedTokS 1 := (max_def _ _).symm
  have hload : (FloatOps.literal 1 / (FloatOps.ofNat (router.loadOf swarm).toNat +
      FloatOps.literal 1) : ℚ) = 1 / ((router.loadOf swarm).toNat + 1) := rfl
  rw [score, hthroughput, hload, throughputShare, one_div_mul_eq_div]

theorem score_of_ready (h : swarm.status = .ready) :
    score (router.loadOf swarm) swarm = router.throughputShare swarm := by
  rw [score_eq, h]
  exact mul_one _

theorem score_of_busy (h : swarm.status = .busy) : score (router.loadOf swarm) swarm = 0 := by
  rw [score_eq, h]
  exact mul_zero _

/-- A swarm that is passed over changes nothing, and the others challenge the best so far. -/
theorem foldl_consider (router : RequestRouter ℚ) (swarms : List (SwarmDefinition ℚ)) :
    swarms.foldl router.consider none =
      (swarms.filter fun swarm => router.Admits swarm).foldl
        (challenge fun swarm => score (router.loadOf swarm) swarm) none := by
  rw [List.foldl_filter]
  apply congrArg fun step => swarms.foldl step none
  funext best swarm
  by_cases hserves : swarm.status = .ready ∨ swarm.status = .busy
  · by_cases hfull : router.maxRequestsPerSwarm ≤ router.loadOf swarm
    · have hpassed : ¬ router.Admits swarm := fun h => absurd hfull (UInt32.not_le.mpr h.2)
      rw [consider, if_pos hserves, if_pos hfull, if_neg (decide_eq_true_iff.not.mpr hpassed)]
    · have hadmits : router.Admits swarm := ⟨hserves, UInt32.not_le.mp hfull⟩
      rw [consider, if_pos hserves, if_neg hfull, if_pos (decide_eq_true_iff.mpr hadmits)]
      cases best with
      | none => rfl
      | some best => exact if_congr decide_eq_true_iff rfl rfl
  · have hpassed : ¬ router.Admits swarm := fun h => hserves h.1
    rw [consider, if_neg hserves, if_neg (decide_eq_true_iff.not.mpr hpassed)]

theorem mem_admitted :
    swarm ∈ (router.swarms modelId).filter (fun swarm => router.Admits swarm) ↔
      router.Qualifies modelId swarm := by
  rw [List.mem_filter, decide_eq_true_iff, Qualifies]

/-- A swarm with the highest score is the best choice. -/
theorem bestChoice_of_score (hswarm : router.Qualifies modelId swarm)
    (hgreatest : ∀ other, router.Qualifies modelId other →
      score (router.loadOf other) other ≤ score (router.loadOf swarm) swarm) :
    router.BestChoice modelId swarm := by
  have hready : ∀ other, router.Qualifies modelId other → other.status = .ready →
      swarm.status = .ready := by
    intro other hother hstatus
    rcases hswarm.2.1 with h | h
    · exact h
    · -- a busy swarm scores zero, less than any ready one
      have hle := hgreatest other hother
      rw [score_of_ready hstatus, score_of_busy h] at hle
      exact absurd (router.throughputShare_pos other) (not_lt.mpr hle)
  refine ⟨hswarm, hready, ?_⟩
  intro other hother hstatus
  have hle := hgreatest other hother
  rwa [score_of_ready hstatus, score_of_ready (hready other hother hstatus)] at hle

/-- What selecting a swarm comes to. -/
theorem selectSwarm_cases (router : RequestRouter ℚ) (modelId : String) (requester : NodeId) :
    router.isContributing requester = false ∧ router.selectSwarm modelId requester =
        .error (.auth
          "You must contribute to use the network. Run `hivebear contribute` to join.") ∨
      router.isContributing requester = true ∧ (∀ swarm, ¬ router.Qualifies modelId swarm) ∧
        router.selectSwarm modelId requester = .error (.noPeersAvailable modelId) ∨
      router.isContributing requester = true ∧ ∃ swarm, router.BestChoice modelId swarm ∧
        router.selectSwarm modelId requester = .ok swarm := by
  rw [selectSwarm, foldl_consider]
  cases hcontributing : router.isContributing requester with
  | false => exact Or.inl ⟨rfl, rfl⟩
  | true =>
      apply Or.inr
      by_cases hnone : (router.swarms modelId).filter (fun swarm => router.Admits swarm) = []
      · refine Or.inl ⟨rfl, ?_, ?_⟩
        · intro swarm hswarm
          rw [← mem_admitted, hnone] at hswarm
          cases hswarm
        · rw [hnone]
          rfl
      · obtain ⟨swarm, hmem, hfold, hgreatest⟩ :=
          @foldl_challenge _ _ _ _ (fun swarm => score (router.loadOf swarm) swarm) hnone
        refine Or.inr ⟨rfl, swarm, ?_, ?_⟩
        · exact bestChoice_of_score (mem_admitted.mp hmem) fun other hother =>
            hgreatest other (mem_admitted.mpr hother)
        · rw [hfold]
          rfl

/-- **The selection is optimal.** It succeeds just if the requester contributes and some swarm
of the model can take the request, and then no swarm is a better choice. -/
theorem selectSwarm_optimal (router : RequestRouter ℚ) (modelId : String) (requester : NodeId) :
    ((∃ swarm, router.selectSwarm modelId requester = .ok swarm) ↔
        router.isContributing requester = true ∧ ∃ swarm, router.Qualifies modelId swarm) ∧
      ∀ swarm, router.selectSwarm modelId requester = .ok swarm →
        router.BestChoice modelId swarm := by
  obtain ⟨hnot, hselect⟩ | ⟨hcontributing, hnone, hselect⟩ |
      ⟨hcontributing, best, hbest, hselect⟩ :=
    router.selectSwarm_cases modelId requester <;> rw [hselect]
  · simp [hnot]
  · simp [hnone]
  · refine ⟨iff_of_true ⟨best, rfl⟩ ⟨hcontributing, best, hbest.qualifies⟩, ?_⟩
    intro swarm hswarm
    cases hswarm
    exact hbest

end RequestRouter

end HiveBear.Mesh
