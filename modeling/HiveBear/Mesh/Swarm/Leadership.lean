/-
# One leader

A swarm must have exactly one leader after every membership event. Layer
redistribution never touches a role, so the question is one about the membership
change alone, and there the answer depends on who departs.

A departing leader or worker is replaced correctly wherever it stands. A departing
standby should change nobody's role, but the index of the first standby is
computed before the removal and used after it: the change overwrites the role of
the first standby that stays or of the member behind the one that leaves.
`SafeDeparture` is exactly the condition under which that write changes nothing,
and the run theorem holds for the runs whose departures are all safe.
-/

import HiveBear.Library.Run
import HiveBear.Mesh.Swarm.Rebalance

namespace HiveBear.Mesh.SwarmDefinition

open LabelledRun

variable {F : Type*}

/-- Who the members are and which roles they have. -/
def roles (members : List (SwarmMember F)) : List (NodeId × SwarmRole) :=
  members.map fun m => (m.peerId, m.role)

/-- The number of leaders can be read off the roles. -/
theorem countP_isLeader (members : List (SwarmMember F)) :
    members.countP SwarmMember.isLeader =
      (roles members).countP fun x => x.2 = SwarmRole.leader := by
  rw [roles, List.countP_map]
  rfl

/-- Members with the same roles have as many leaders. -/
theorem oneLeader_congr {first second : List (SwarmMember F)} (h : roles first = roles second) :
    OneLeader first ↔ OneLeader second := by
  rw [OneLeader, OneLeader, countP_isLeader, countP_isLeader, h]

theorem needsNewLeader_iff (members : List (SwarmMember F)) :
    needsNewLeader members = true ↔ members.countP SwarmMember.isLeader = 0 := by
  rw [needsNewLeader, Option.isNone_iff_eq_none, List.find?_eq_none, List.countP_eq_zero]

/-! ## Membership changes -/

/-- Promoting a member that does not lead yet leaves exactly one leader. -/
theorem oneLeader_promote {front back : List (SwarmMember F)} {next : SwarmMember F}
    (hnext : next.isLeader = false)
    (hle : (front ++ next :: back).countP SwarmMember.isLeader ≤ 1) :
    OneLeader (front ++ promote (front ++ next :: back) next :: back) := by
  have hcount : (front ++ next :: back).countP SwarmMember.isLeader =
      front.countP SwarmMember.isLeader + back.countP SwarmMember.isLeader := by
    rw [List.countP_append, List.countP_cons_of_neg (by simp [hnext])]
  rw [OneLeader, List.countP_append]
  cases hneeds : needsNewLeader (front ++ next :: back) with
  | true =>
      have hleads : (promote (front ++ next :: back) next).isLeader = true := by
        simp [promote, hneeds, SwarmMember.isLeader]
      rw [needsNewLeader_iff] at hneeds
      rw [List.countP_cons_of_pos hleads]
      omega
  | false =>
      have hworks : ¬ (promote (front ++ next :: back) next).isLeader = true := by
        simp [promote, hneeds, SwarmMember.isLeader]
      have hsome : (front ++ next :: back).countP SwarmMember.isLeader ≠ 0 := by
        rw [ne_eq, ← needsNewLeader_iff, hneeds]
        exact Bool.false_ne_true
      rw [List.countP_cons_of_neg hworks]
      omega

/-- The first member takes over when there is no leader. -/
theorem oneLeader_promoteFirst {members : List (SwarmMember F)} (hne : members ≠ [])
    (hle : members.countP SwarmMember.isLeader ≤ 1) : OneLeader (promoteFirst members) := by
  cases members with
  | nil => exact absurd rfl hne
  | cons first rest =>
      rw [promoteFirst]
      split
      · rename_i hneeds
        rw [needsNewLeader_iff, List.countP_eq_zero, List.forall_mem_cons] at hneeds
        rw [OneLeader, List.countP_cons_of_pos rfl, List.countP_eq_zero.mpr hneeds.2]
      · rename_i hneeds
        rw [needsNewLeader_iff] at hneeds
        exact le_antisymm hle (Nat.one_le_iff_ne_zero.mpr hneeds)

theorem promoteFirst_of_leader {members : List (SwarmMember F)}
    (h : needsNewLeader members = false) : promoteFirst members = members := by
  cases members with
  | nil => rfl
  | cons first rest => rw [promoteFirst, h]; rfl

/-- The departing peer is a standby. -/
def StandbyDeparts (members : List (SwarmMember F)) (departingPeer : NodeId) : Prop :=
  ∃ departing, members.find? (fun m => m.peerId = departingPeer) = some departing ∧
    departing.isActive = false

/-- The departing peer is active, or it is the first standby and the member
behind it, if any, is a worker. -/
def SafeDeparture (members : List (SwarmMember F)) (departingPeer : NodeId) : Prop :=
  match members.find? fun m => m.peerId = departingPeer,
    members.dropWhile SwarmMember.isActive with
  | some departing, standby :: after =>
      departing.isActive = true ∨
        standby.peerId = departingPeer ∧ ∀ next ∈ after.head?, next.role = .worker
  | _, _ => True

instance (members : List (SwarmMember F)) (departingPeer : NodeId) :
    Decidable (SafeDeparture members departingPeer) := by
  unfold SafeDeparture
  split <;> infer_instance

variable {members : List (SwarmMember F)} {departingPeer : NodeId}

/-- A standby that departs does not stand before the first standby. -/
theorem not_mem_before_of_standbyDeparts {before after : List (SwarmMember F)}
    {standby : SwarmMember F} (hbefore : ∀ m ∈ before, m.isActive = true)
    (hdeparts : StandbyDeparts (before ++ standby :: after) departingPeer) :
    ∀ m ∈ before, m.peerId ≠ departingPeer := by
  obtain ⟨departing, hfind, hinactive⟩ := hdeparts
  intro m hm hid
  rw [List.find?_append] at hfind
  cases hfirst : before.find? fun m => m.peerId = departingPeer with
  | none => exact absurd hid (by simpa using List.find?_eq_none.mp hfirst m hm)
  | some first =>
      rw [hfirst, Option.some_or, Option.some_inj] at hfind
      subst hfind
      rw [hbefore first (List.mem_of_find?_eq_some hfirst)] at hinactive
      cases hinactive

/-- A departing standby changes nobody's role exactly when its departure is
safe. -/
theorem roles_replaceDeparted_iff (hone : OneLeader members)
    (hdeparts : StandbyDeparts members departingPeer) :
    roles (replaceDeparted members departingPeer).1 = roles (removeMember members departingPeer) ↔
      SafeDeparture members departingPeer := by
  obtain ⟨departing, hfind, hinactive⟩ := hdeparts
  have hsplit := exists_first_standby members
  rcases hsplit with hactive | ⟨before, standby, after, rfl, hbefore, hstandby⟩
  · rw [hactive departing (List.mem_of_find?_eq_some hfind)] at hinactive
    cases hinactive
  have hnotMem := not_mem_before_of_standbyDeparts hbefore ⟨departing, hfind, hinactive⟩
  have hnotLeader : standby.isLeader = false := by
    by_contra hleader
    rw [SwarmMember.isActive_of_isLeader (by simpa using hleader)] at hstandby
    cases hstandby
  have hsafe : SafeDeparture (before ++ standby :: after) departingPeer ↔
      standby.peerId = departingPeer ∧ ∀ next ∈ after.head?, next.role = .worker := by
    simp [SafeDeparture, hfind, dropWhile_isActive hbefore hstandby, hinactive]
  rw [hsafe]
  by_cases hleaves : standby.peerId = departingPeer
  · obtain ⟨hremove, hreplace⟩ := replaceDeparted_of_leaves after hbefore hstandby
      hnotMem hleaves
    have hled : needsNewLeader (before ++ after) = false := by
      rw [← Bool.not_eq_true, needsNewLeader_iff]
      rw [OneLeader, List.countP_append, List.countP_cons_of_neg (by simp [hnotLeader]),
        ← List.countP_append] at hone
      omega
    rw [hremove, hreplace]
    cases after with
    | nil =>
        rw [List.append_nil] at hled
        simp [promoteFirst_of_leader hled, hleaves]
    | cons next later =>
        simp [roles, promote, hled, hleaves, eq_comm]
  · obtain ⟨hremove, hreplace⟩ := replaceDeparted_of_stays after hbefore hstandby
      hnotMem hleaves
    rw [hremove, hreplace]
    have hrole : standby.role = .standby := by simpa [SwarmMember.isActive] using hstandby
    simp only [roles, promote, hleaves, false_and, iff_false]
    simp only [List.map_append, List.map_cons, hrole]
    intro hsame
    have hhead := (List.cons.inj (List.append_cancel_left hsame)).1
    split at hhead <;> cases hhead

/-- A safe departure that leaves a member behind leaves exactly one leader. -/
theorem oneLeader_replaceDeparted (hone : OneLeader members)
    (hsafe : SafeDeparture members departingPeer)
    (hne : (replaceDeparted members departingPeer).1 ≠ []) :
    OneLeader (replaceDeparted members departingPeer).1 := by
  have hle : (removeMember members departingPeer).countP SwarmMember.isLeader ≤ 1 := by
    rw [removeMember_eq_eraseP, ← hone]
    exact List.eraseP_sublist.countP_le
  rcases exists_first_standby members with
    hactive | ⟨before, standby, after, rfl, hbefore, hstandby⟩
  · rw [replaceDeparted_of_no_standby hactive] at hne ⊢
    refine oneLeader_promoteFirst (fun hnil => hne ?_) hle
    rw [hnil]
    rfl
  have hnotLeader : standby.isLeader = false := by
    by_contra hleader
    rw [SwarmMember.isActive_of_isLeader (by simpa using hleader)] at hstandby
    cases hstandby
  by_cases hmem : ∃ m ∈ before, m.peerId = departingPeer
  · obtain ⟨hremove, hreplace⟩ := replaceDeparted_of_mem_before after hbefore
      hstandby hmem
    rw [hremove] at hle
    rw [hreplace]
    exact oneLeader_promote hnotLeader hle
  have hnotMem : ∀ m ∈ before, m.peerId ≠ departingPeer := fun m hm hid => hmem ⟨m, hm, hid⟩
  by_cases hleaves : standby.peerId = departingPeer
  · obtain ⟨hremove, hreplace⟩ := replaceDeparted_of_leaves after hbefore hstandby
      hnotMem hleaves
    have hdeparts : StandbyDeparts (before ++ standby :: after) departingPeer := by
      refine ⟨standby, ?_, hstandby⟩
      rw [List.find?_append, List.find?_eq_none.mpr (by simpa using hnotMem), Option.none_or,
        List.find?_cons_of_pos (by simpa using hleaves)]
    -- nobody's role changes, and the departed standby was not the leader
    have hroles := (roles_replaceDeparted_iff hone hdeparts).mpr hsafe
    rw [oneLeader_congr hroles, hremove, OneLeader, List.countP_append]
    rw [OneLeader, List.countP_append, List.countP_cons_of_neg (by simp [hnotLeader])] at hone
    exact hone
  · obtain ⟨hremove, hreplace⟩ := replaceDeparted_of_stays after hbefore hstandby
      hnotMem hleaves
    rw [hremove] at hle
    rw [hreplace]
    exact oneLeader_promote hnotLeader hle

/-! ## Redistribution keeps the roles -/

section Redistribution

variable [FloatOps F]

theorem roles_redistributeLoop (totalCapacity : UInt64) (totalLayers layerCursor : ℕ)
    (members : List (SwarmMember F)) :
    roles (redistributeLoop totalCapacity totalLayers layerCursor members).1 = roles members :=
  map_redistributeLoop (fun _ _ => rfl) totalCapacity totalLayers layerCursor members

variable {swarm : SwarmDefinition F} {reason : RebalanceReason} {totalLayers : ℕ}
  {action : RebalanceAction}

/-- Only a disbanding reports no assignments. -/
theorem exists_newAssignments (h : action ≠ .disbanded) :
    ∃ newAssignments, action.newAssignments = some newAssignments := by
  cases action with
  | redistributed newAssignments => exact ⟨newAssignments, rfl⟩
  | standbyPromoted promotedPeer newAssignments => exact ⟨newAssignments, rfl⟩
  | disbanded => exact absurd rfl h

/-- After a rebalance that neither fails nor disbands, the roles are those of the
membership change, and there are members left. -/
theorem roles_rebalance (h : (rebalance swarm reason totalLayers).1 = .ok action)
    (hserves : action ≠ .disbanded) :
    changedMembers swarm.members reason ≠ [] ∧
      roles (rebalance swarm reason totalLayers).2.members =
        roles (changedMembers swarm.members reason) := by
  obtain ⟨newAssignments, hnew⟩ := exists_newAssignments hserves
  obtain ⟨changed, redistribution, hmembers, hresult, hreports, hswarm⟩ := rebalance_eq_ok h hnew
  obtain ⟨hne, _, hafter⟩ := redistributeLayers_eq_ok hresult hreports
  refine ⟨fun hnil => ?_, ?_⟩
  · rw [activeMembers, hmembers, hnil] at hne
    exact hne rfl
  · rw [hswarm, hafter, hmembers, roles_redistributeLoop]

end Redistribution

/-! ## Runs of membership events -/

/-- What happens to a swarm: a departure, or a new member. -/
inductive SwarmEvent (F : Type*)
  | memberLeft (peerId : NodeId) (totalLayers : ℕ)
  | memberFailed (peerId : NodeId) (totalLayers : ℕ)
  | workerJoined (member : SwarmMember F) (totalLayers : ℕ)
  | standbyJoined (member : SwarmMember F)

/-- The peer whose departure an event is. -/
def SwarmEvent.departure : SwarmEvent F → Option NodeId
  | .memberLeft peerId _ => some peerId
  | .memberFailed peerId _ => some peerId
  | .workerJoined _ _ => none
  | .standbyJoined _ => none

/-- The swarm with a new member at the end. -/
def appendMember (swarm : SwarmDefinition F) (member : SwarmMember F) : SwarmDefinition F :=
  { swarm with members := swarm.members ++ [member] }

variable [FloatOps F]

/-- Events that neither fail nor disband the swarm. A new member is not one yet;
a new worker is rebalanced in, a new standby waits. -/
inductive EventStep : SwarmDefinition F → SwarmEvent F → SwarmDefinition F → Prop
  | memberLeft {swarm : SwarmDefinition F} {peerId : NodeId} {totalLayers : ℕ}
      {action : RebalanceAction}
      (result : (rebalance swarm (.memberLeft peerId) totalLayers).1 = .ok action)
      (serves : action ≠ .disbanded) :
      EventStep swarm (.memberLeft peerId totalLayers)
        (rebalance swarm (.memberLeft peerId) totalLayers).2
  | memberFailed {swarm : SwarmDefinition F} {peerId : NodeId} {totalLayers : ℕ}
      {action : RebalanceAction}
      (result : (rebalance swarm (.memberFailed peerId) totalLayers).1 = .ok action)
      (serves : action ≠ .disbanded) :
      EventStep swarm (.memberFailed peerId totalLayers)
        (rebalance swarm (.memberFailed peerId) totalLayers).2
  | workerJoined {swarm : SwarmDefinition F} {member : SwarmMember F} {totalLayers : ℕ}
      {action : RebalanceAction} (role : member.role = .worker)
      (isNew : ∀ m ∈ swarm.members, m.peerId ≠ member.peerId)
      (result : (rebalance (swarm.appendMember member) (.memberJoined member.peerId)
        totalLayers).1 = .ok action)
      (serves : action ≠ .disbanded) :
      EventStep swarm (.workerJoined member totalLayers)
        (rebalance (swarm.appendMember member) (.memberJoined member.peerId) totalLayers).2
  | standbyJoined {swarm : SwarmDefinition F} {member : SwarmMember F}
      (role : member.role = .standby)
      (isNew : ∀ m ∈ swarm.members, m.peerId ≠ member.peerId) :
      EventStep swarm (.standbyJoined member) (swarm.appendMember member)

/-- The event is no departure, or a safe one. -/
def SafeEvent (swarm : SwarmDefinition F) (event : SwarmEvent F) : Prop :=
  ∀ departingPeer ∈ event.departure, SafeDeparture swarm.members departingPeer

/-- If the event is the departure of a standby, the other members keep their
roles. -/
def KeepsOtherRoles (swarm : SwarmDefinition F) (event : SwarmEvent F)
    (next : SwarmDefinition F) : Prop :=
  ∀ departingPeer ∈ event.departure, StandbyDeparts swarm.members departingPeer →
    roles next.members = roles (removeMember swarm.members departingPeer)

variable {swarm next : SwarmDefinition F} {event : SwarmEvent F}

omit [FloatOps F] in
/-- A new member that is not a leader leaves the number of leaders as it is. -/
theorem oneLeader_appendMember {member : SwarmMember F} (hmember : member.role ≠ .leader) :
    OneLeader (swarm.appendMember member).members ↔ OneLeader swarm.members := by
  have hnotLeader : ¬ member.isLeader = true := by simpa [SwarmMember.isLeader] using hmember
  rw [OneLeader, OneLeader, appendMember, List.countP_append,
    List.countP_cons_of_neg hnotLeader, List.countP_nil, Nat.add_zero]

/-- One safe event keeps the one leader, and a departing standby changes nobody's
role. -/
theorem one_leader_of_step (hone : OneLeader swarm.members)
    (step : Guarded SafeEvent EventStep swarm event next) :
    OneLeader next.members ∧ KeepsOtherRoles swarm event next := by
  obtain ⟨hsafe, step⟩ := step
  cases step with
  | memberLeft result serves | memberFailed result serves =>
      obtain ⟨hne, hroles⟩ := roles_rebalance result serves
      have hdeparture := hsafe _ rfl
      refine ⟨(oneLeader_congr hroles).mpr (oneLeader_replaceDeparted hone hdeparture hne), ?_⟩
      rintro _ ⟨⟩ hdeparts
      exact hroles.trans ((roles_replaceDeparted_iff hone hdeparts).mpr hdeparture)
  | workerJoined role isNew result serves =>
      obtain ⟨_, hroles⟩ := roles_rebalance result serves
      refine ⟨(oneLeader_congr hroles).mpr ?_, fun _ hnone => nomatch hnone⟩
      exact (oneLeader_appendMember (by rw [role]; decide)).mpr hone
  | standbyJoined role isNew =>
      refine ⟨?_, fun _ hnone => nomatch hnone⟩
      exact (oneLeader_appendMember (by rw [role]; decide)).mpr hone

/-- **One leader.** Along every run of events that neither fail nor disband, and
whose standby departures are safe, the swarm has exactly one leader after each
event, and a standby that departs next changes no other member's role. -/
theorem one_leader_of_run {start : SwarmDefinition F} {events : List (SwarmEvent F)}
    (run : Run (Guarded SafeEvent EventStep) start events swarm)
    (hone : OneLeader start.members) :
    OneLeader swarm.members ∧
      ∀ event next, Guarded SafeEvent EventStep swarm event next →
        OneLeader next.members ∧ KeepsOtherRoles swarm event next := by
  have hswarm : OneLeader swarm.members := by
    apply run.invariant _ hone
    intro swarm event next hswarm step
    exact (one_leader_of_step hswarm step).1
  exact ⟨hswarm, fun event next step => one_leader_of_step hswarm step⟩

/-- A leader, two workers and a standby that all have the same capacity. -/
def spareSwarm : SwarmDefinition ℚ := exampleSwarm
  [exampleMember 1 .leader ⟨0, 11⟩ 8, exampleMember 2 .worker ⟨11, 22⟩ 8,
    exampleMember 3 .worker ⟨22, 32⟩ 8, exampleMember 4 .standby ⟨0, 0⟩ 8]

/-- The same swarm after its standby has left. -/
def spareSwarmAfterLeave : SwarmDefinition ℚ :=
  (rebalance spareSwarm (.memberLeft (.ofByte 4)) 32).2

/-- The standby leaves and then the leader fails. -/
theorem one_leader_of_run_spare :
    OneLeader (rebalance spareSwarmAfterLeave (.memberFailed (.ofByte 1)) 32).2.members ∧
      ∀ event next, Guarded SafeEvent EventStep
          (rebalance spareSwarmAfterLeave (.memberFailed (.ofByte 1)) 32).2 event next →
        OneLeader next.members ∧ KeepsOtherRoles
          (rebalance spareSwarmAfterLeave (.memberFailed (.ofByte 1)) 32).2 event next := by
  have hleft : (rebalance spareSwarm (.memberLeft (.ofByte 4)) 32).1 =
      .ok (.redistributed
        [(.ofByte 1, ⟨0, 11⟩), (.ofByte 2, ⟨11, 22⟩), (.ofByte 3, ⟨22, 32⟩)]) := by
    decide +kernel
  have hfailed : (rebalance spareSwarmAfterLeave (.memberFailed (.ofByte 1)) 32).1 =
      .ok (.redistributed [(.ofByte 2, ⟨0, 16⟩), (.ofByte 3, ⟨16, 32⟩)]) := by
    decide +kernel
  have hsafe : SafeEvent spareSwarm (.memberLeft (.ofByte 4) 32) := by
    rintro _ ⟨⟩
    decide
  have hsafe' : SafeEvent spareSwarmAfterLeave (.memberFailed (.ofByte 1) 32) := by
    rintro _ ⟨⟩
    decide +kernel
  have first : Run (Guarded SafeEvent EventStep) spareSwarm [.memberLeft (.ofByte 4) 32]
      spareSwarmAfterLeave := Run.single ⟨hsafe, EventStep.memberLeft hleft (by decide)⟩
  have both := first.snoc ⟨hsafe', EventStep.memberFailed hfailed (by decide)⟩
  exact one_leader_of_run both (by decide)

/-- A standby in front of the leader. -/
def standbyFirstSwarm : SwarmDefinition ℚ := exampleSwarm
  [exampleMember 1 .standby ⟨0, 0⟩ 8, exampleMember 2 .leader ⟨0, 16⟩ 8,
    exampleMember 3 .worker ⟨16, 32⟩ 8]

/-- When the standby in front of the leader leaves, the leader becomes a worker
and the swarm is left without a leader. -/
theorem standby_departure_demotes_leader :
    OneLeader standbyFirstSwarm.members ∧
      EventStep standbyFirstSwarm (.memberLeft (.ofByte 1) 32)
        (rebalance standbyFirstSwarm (.memberLeft (.ofByte 1)) 32).2 ∧
      ¬ OneLeader (rebalance standbyFirstSwarm (.memberLeft (.ofByte 1)) 32).2.members ∧
      (rebalance standbyFirstSwarm (.memberLeft (.ofByte 1)) 32).2.leader.isNone = true := by
  have hleft : (rebalance standbyFirstSwarm (.memberLeft (.ofByte 1)) 32).1 =
      .ok (.standbyPromoted (.ofByte 2) [(.ofByte 2, ⟨0, 16⟩), (.ofByte 3, ⟨16, 32⟩)]) := by
    decide +kernel
  exact ⟨by decide, EventStep.memberLeft hleft (by decide), by decide +kernel,
    by decide +kernel⟩

end HiveBear.Mesh.SwarmDefinition
