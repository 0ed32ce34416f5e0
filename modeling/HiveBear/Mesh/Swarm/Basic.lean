/-
# Swarms

A swarm is a small group of peers that serves one model as a pipeline. Its
members carry their roles and layer ranges themselves, so a membership change
and a change of ranges are edits of the same list; everything else in the record
follows it.
-/

import HiveBear.Mesh.Scheduler.Plan

namespace HiveBear.Mesh

open IntervalTiling

/-- Unique identifier for a swarm. -/
structure SwarmId where
  uuid : Uuid
  deriving DecidableEq

/-- Role of a peer within a swarm. -/
inductive SwarmRole
  /-- Manages the pipeline, receives and routes inference requests. -/
  | leader
  /-- Holds assigned layers and processes activations. -/
  | worker
  /-- Ready to replace a failed member. -/
  | standby
  deriving DecidableEq, Repr

/-- Lifecycle status of a swarm. -/
inductive SwarmStatus
  | forming
  | ready
  | busy
  | degraded
  | disbanded
  deriving DecidableEq, Repr

/-- A peer participating in a swarm. -/
structure SwarmMember (F : Type*) where
  peerId : NodeId
  role : SwarmRole
  assignedLayers : Range
  capacityBytes : UInt64
  latencyToLeaderMs : F

/-- A group of low-latency peers that collectively serve one model instance. -/
structure SwarmDefinition (F : Type*) where
  swarmId : SwarmId
  modelId : String
  members : List (SwarmMember F)
  pipelinePlan : Option (InferencePlan F)
  aggregateCapacityBytes : UInt64
  estimatedTokS : F
  status : SwarmStatus

/-- Minimum peers for a swarm to be functional. -/
def minSwarmSize : ℕ := 2

/-- Minimum combined capacity (bytes) for a swarm to serve any model. -/
def minSwarmCapacityBytes : UInt64 := 3 * 1024 * 1024 * 1024

variable {F : Type*}

namespace SwarmMember

/-- Members that hold layers: everyone but the standbys. -/
def isActive (member : SwarmMember F) : Bool := member.role ≠ .standby

/-- The member leads the swarm. -/
def isLeader (member : SwarmMember F) : Bool := member.role = .leader

/-- A leader is never a standby. -/
theorem isActive_of_isLeader {member : SwarmMember F} (h : member.isLeader = true) :
    member.isActive = true := by
  simp only [isLeader, decide_eq_true_eq] at h
  simp [isActive, h]

end SwarmMember

namespace SwarmDefinition

/-- A swarm that is still gathering members. -/
def new [FloatOps F] (swarmId : SwarmId) (modelId : String) : SwarmDefinition F where
  swarmId := swarmId
  modelId := modelId
  members := []
  pipelinePlan := none
  aggregateCapacityBytes := 0
  estimatedTokS := FloatOps.literal 0
  status := .forming

/-- The active (non-standby) members, in member order. -/
def activeMembers (swarm : SwarmDefinition F) : List (SwarmMember F) :=
  swarm.members.filter SwarmMember.isActive

/-- Number of active (non-standby) members. -/
def activeMemberCount (swarm : SwarmDefinition F) : ℕ := swarm.activeMembers.length

/-- The swarm leader, if any. -/
def leader (swarm : SwarmDefinition F) : Option (SwarmMember F) :=
  swarm.members.find? SwarmMember.isLeader

/-- Recalculate aggregate capacity from members. -/
def recalculateCapacity (swarm : SwarmDefinition F) : SwarmDefinition F :=
  { swarm with
    aggregateCapacityBytes := (swarm.activeMembers.map SwarmMember.capacityBytes).sum }

@[simp]
theorem members_recalculateCapacity (swarm : SwarmDefinition F) :
    swarm.recalculateCapacity.members = swarm.members := rfl

/-- Exactly one member has role Leader. -/
def OneLeader (members : List (SwarmMember F)) : Prop :=
  members.countP SwarmMember.isLeader = 1

instance (members : List (SwarmMember F)) : Decidable (OneLeader members) :=
  inferInstanceAs (Decidable (_ = _))

end SwarmDefinition

end HiveBear.Mesh
