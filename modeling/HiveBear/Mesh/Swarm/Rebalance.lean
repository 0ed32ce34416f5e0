/-
# Rebalancing a swarm

When a member leaves, fails or joins, `rebalance` first changes the membership
and then redistributes the layers over the members that are active afterwards.
The two halves are kept apart here, because they go wrong in different ways.

The membership change takes the index of the first standby *before* the removal
and reuses it after. That is right as long as the standby itself stays; when it
is the one that leaves, the index names whoever follows it, and that member's
role is overwritten.

The redistribution stops as soon as the layers are used up. Members it does not
reach keep the range they had before, so the ranges tile the model exactly when
every active member is reached.
-/

import HiveBear.Mesh.Scheduler.Assign
import HiveBear.Mesh.Swarm.Basic
import Mathlib.Data.List.TakeWhile

namespace HiveBear.Mesh

open IntervalTiling

/-- Reason for a rebalance operation. -/
inductive RebalanceReason
  /-- A member left gracefully. -/
  | memberLeft (peerId : NodeId)
  /-- A member was detected as failed. -/
  | memberFailed (peerId : NodeId)
  /-- A new member joined the swarm. -/
  | memberJoined (peerId : NodeId)

/-- Result of a rebalance operation. -/
inductive RebalanceAction
  /-- Layers were redistributed among remaining members. -/
  | redistributed (newAssignments : List (NodeId × Range))
  /-- A standby member was promoted to replace the departing one. -/
  | standbyPromoted (promotedPeer : NodeId) (newAssignments : List (NodeId × Range))
  /-- Swarm is disbanded because too few members remain. -/
  | disbanded
  deriving DecidableEq

/-- The assignments an action reports. -/
def RebalanceAction.newAssignments : RebalanceAction → Option (List (NodeId × Range))
  | .redistributed newAssignments => some newAssignments
  | .standbyPromoted _ newAssignments => some newAssignments
  | .disbanded => none

namespace SwarmDefinition

variable {F : Type*} [FloatOps F]

/-! ## Redistribution -/

/-- What an active member asks for: its rounded share, at least one layer. -/
def memberDemand (totalCapacity : UInt64) (totalLayers : ℕ) (member : SwarmMember F) : ℕ :=
  max (rawShare (F := F) member.capacityBytes totalCapacity totalLayers) 1

/-- The redistribution loop: the members afterwards and the assignments made. It
skips standbys and breaks once the layers are used up. -/
def redistributeLoop (totalCapacity : UInt64) (totalLayers : ℕ) :
    ℕ → List (SwarmMember F) → List (SwarmMember F) × List (NodeId × Range)
  | _, [] => ([], [])
  | layerCursor, member :: rest =>
      if !member.isActive then
        let later := redistributeLoop totalCapacity totalLayers layerCursor rest
        (member :: later.1, later.2)
      else if totalLayers ≤ layerCursor then (member :: rest, [])
      else
        let share :=
          -- the last active member takes all remaining layers
          if (rest.filter SwarmMember.isActive).isEmpty then totalLayers - layerCursor
          else min (memberDemand totalCapacity totalLayers member) (totalLayers - layerCursor)
        let range : Range := ⟨layerCursor, layerCursor + share⟩
        let later := redistributeLoop totalCapacity totalLayers (layerCursor + share) rest
        ({ member with assignedLayers := range } :: later.1, (member.peerId, range) :: later.2)

/-- Redistribute layers proportionally across all active swarm members. -/
def redistributeLayers (swarm : SwarmDefinition F) (totalLayers : ℕ) :
    Except MeshError RebalanceAction × SwarmDefinition F :=
  if swarm.activeMembers.isEmpty then (.ok .disbanded, { swarm with status := .disbanded })
  else
    let totalCapacity := (swarm.activeMembers.map SwarmMember.capacityBytes).sum
    if totalCapacity = 0 then (.error (.scheduling "No capacity available"), swarm)
    else
      let result := redistributeLoop totalCapacity totalLayers 0 swarm.members
      (.ok (.redistributed result.2), { swarm with members := result.1 }.recalculateCapacity)

/-! ### What the redistribution loop leaves behind -/

/-- The assignments made are those of the general dealing loop over the active
members. -/
theorem redistributeLoop_eq_deal (totalCapacity : UInt64) (totalLayers layerCursor : ℕ)
    (members : List (SwarmMember F)) :
    (redistributeLoop totalCapacity totalLayers layerCursor members).2 =
      (deal (memberDemand totalCapacity totalLayers) totalLayers layerCursor
        (members.filter SwarmMember.isActive)).map (fun x => (x.1.peerId, x.2)) := by
  induction members generalizing layerCursor with
  | nil => rfl
  | cons member rest ih =>
      rw [redistributeLoop]
      cases hactive : member.isActive with
      | false =>
          rw [List.filter_cons_of_neg (by simp [hactive])]
          exact ih layerCursor
      | true =>
          rw [List.filter_cons_of_pos hactive]
          simp only [Bool.not_true, Bool.false_eq_true, if_false]
          split
          · rw [deal_of_le ‹_›]
            rfl
          rename_i hlt
          rw [deal, if_neg hlt]
          have hdemand : 0 < memberDemand totalCapacity totalLayers member :=
            lt_of_lt_of_le Nat.zero_lt_one (le_max_right _ _)
          -- every active member asks for a layer, so none is passed over
          have hshare : (if (rest.filter SwarmMember.isActive).isEmpty then
                totalLayers - layerCursor
              else min (memberDemand totalCapacity totalLayers member)
                (totalLayers - layerCursor)) ≠ 0 := by
            split <;> omega
          simp only [hshare, if_false, List.map_cons, ih]

/-- The redistribution loop changes nothing but the ranges. -/
theorem map_redistributeLoop {β : Type*} {f : SwarmMember F → β}
    (hf : ∀ (member : SwarmMember F) (range : Range),
      f { member with assignedLayers := range } = f member)
    (totalCapacity : UInt64) (totalLayers layerCursor : ℕ) (members : List (SwarmMember F)) :
    (redistributeLoop totalCapacity totalLayers layerCursor members).1.map f = members.map f := by
  induction members generalizing layerCursor with
  | nil => rfl
  | cons member rest ih =>
      rw [redistributeLoop]
      split
      · exact congrArg (List.cons _) (ih layerCursor)
      · split
        · rfl
        · exact congrArg₂ List.cons (hf member _) (ih _)

/-- The active members a redistribution reaches hold the reported ranges; those
it does not reach hold the ranges they had before. -/
theorem filter_redistributeLoop (totalCapacity : UInt64) (totalLayers layerCursor : ℕ)
    (members : List (SwarmMember F)) :
    let result := redistributeLoop totalCapacity totalLayers layerCursor members
    (result.1.filter SwarmMember.isActive).map (fun m => (m.peerId, m.assignedLayers)) =
      result.2 ++ ((members.filter SwarmMember.isActive).drop result.2.length).map
        (fun m => (m.peerId, m.assignedLayers)) := by
  induction members generalizing layerCursor with
  | nil => rfl
  | cons member rest ih =>
      dsimp only at ih ⊢
      rw [redistributeLoop]
      cases hactive : member.isActive with
      | false =>
          simpa [hactive] using ih layerCursor
      | true =>
          simp only [Bool.not_true, Bool.false_eq_true, if_false]
          split
          · rfl
          · generalize (if (rest.filter SwarmMember.isActive).isEmpty = true then
                totalLayers - layerCursor
              else min _ (totalLayers - layerCursor)) = share
            have hkept : ({ member with
                assignedLayers := ⟨layerCursor, layerCursor + share⟩ } : SwarmMember F).isActive =
                  true := hactive
            rw [List.filter_cons_of_pos hkept, List.filter_cons_of_pos hactive, List.map_cons, ih]
            rfl

/-! ## Membership changes -/

/-- Remove the departing member, if it is one. -/
def removeMember (members : List (SwarmMember F)) (departingPeer : NodeId) :
    List (SwarmMember F) :=
  match members.findIdx? fun m => m.peerId = departingPeer with
  | some idx => members.eraseIdx idx
  | none => members

/-- The index, after the removal, of the standby found before it. -/
def adjustedIdx (members : List (SwarmMember F)) (departingPeer : NodeId)
    (standbyIdx : ℕ) : ℕ :=
  match members.findIdx? fun m => m.peerId = departingPeer with
  | some idx => if idx < standbyIdx then standbyIdx - 1 else standbyIdx
  | none => standbyIdx

/-- Nobody leads these members. -/
def needsNewLeader (members : List (SwarmMember F)) : Bool :=
  (members.find? SwarmMember.isLeader).isNone

/-- A promoted member leads if nobody else does, and works otherwise. -/
def promote (remaining : List (SwarmMember F)) (member : SwarmMember F) : SwarmMember F :=
  { member with role := if needsNewLeader remaining then .leader else .worker }

/-- If the leader left, the first member takes over. -/
def promoteFirst : List (SwarmMember F) → List (SwarmMember F)
  | [] => []
  | first :: rest =>
      if needsNewLeader (first :: rest) then { first with role := .leader } :: rest
      else first :: rest

/-- The members after a departure, and the member that was promoted in its place.
Without a standby to promote, the first member takes over a lost leadership. -/
def replaceDeparted (members : List (SwarmMember F)) (departingPeer : NodeId) :
    List (SwarmMember F) × Option NodeId :=
  let standbyIdx := members.findIdx? fun m => !m.isActive
  let remaining := removeMember members departingPeer
  let promotion := standbyIdx.bind fun standbyIdx =>
    let idx := adjustedIdx members departingPeer standbyIdx
    remaining[idx]?.map fun promoted => (idx, promoted)
  match promotion with
  | some (idx, promoted) =>
      (remaining.set idx (promote remaining promoted), some promoted.peerId)
  | none => (promoteFirst remaining, none)

/-- Remove a member, fill its place, and redistribute the layers. -/
def handleMemberDeparture (swarm : SwarmDefinition F) (departingPeer : NodeId)
    (totalLayers : ℕ) : Except MeshError RebalanceAction × SwarmDefinition F :=
  let change := replaceDeparted swarm.members departingPeer
  let swarm := { swarm with members := change.1 }
  match change.2 with
  | some promotedPeer =>
      match redistributeLayers swarm totalLayers with
      | (.ok (.redistributed newAssignments), swarm) =>
          (.ok (.standbyPromoted promotedPeer newAssignments), swarm)
      | other => other
  | none =>
      if swarm.activeMemberCount < minSwarmSize then
        (.ok .disbanded, { swarm with status := .disbanded })
      else redistributeLayers { swarm with status := .degraded } totalLayers

/-- Attempt to rebalance a swarm after a membership change. -/
def rebalance (swarm : SwarmDefinition F) (reason : RebalanceReason) (totalLayers : ℕ) :
    Except MeshError RebalanceAction × SwarmDefinition F :=
  match reason with
  | .memberLeft peerId => handleMemberDeparture swarm peerId totalLayers
  | .memberFailed peerId => handleMemberDeparture swarm peerId totalLayers
  | .memberJoined _ => redistributeLayers swarm totalLayers

/-! ### Who is promoted

Everything turns on where the first standby stands: `before` it are active
members only. If it stays it is promoted; if it leaves, the member behind it is.
-/

section Departure

omit [FloatOps F]

variable {members before after : List (SwarmMember F)} {standby : SwarmMember F}
  {departingPeer : NodeId}

theorem removeMember_eq_eraseP (members : List (SwarmMember F)) (departingPeer : NodeId) :
    removeMember members departingPeer =
      members.eraseP fun m => m.peerId = departingPeer := by
  rw [removeMember, List.eraseP_eq_eraseIdx]
  cases members.findIdx? fun m => m.peerId = departingPeer <;> rfl

/-- The first standby stands right behind the active members before it. -/
theorem findIdx?_standby (hbefore : ∀ m ∈ before, m.isActive = true)
    (hstandby : standby.isActive = false) :
    (before ++ standby :: after).findIdx? (fun m => !m.isActive) = some before.length := by
  have hnone : before.findIdx? (fun m => !m.isActive) = none := by
    rw [List.findIdx?_eq_none_iff]
    intro m hm
    simp [hbefore m hm]
  rw [List.findIdx?_append, hnone, List.findIdx?_cons]
  simp [hstandby]

/-- The member that the adjusted index names is promoted in place. -/
theorem replaceDeparted_of_split {front back : List (SwarmMember F)} {next : SwarmMember F}
    (hbefore : ∀ m ∈ before, m.isActive = true) (hstandby : standby.isActive = false)
    (hremove : removeMember (before ++ standby :: after) departingPeer = front ++ next :: back)
    (hadjusted : adjustedIdx (before ++ standby :: after) departingPeer before.length =
      front.length) :
    replaceDeparted (before ++ standby :: after) departingPeer =
      (front ++ promote (front ++ next :: back) next :: back, some next.peerId) := by
  simp only [replaceDeparted, findIdx?_standby hbefore hstandby, hremove, Option.bind_some,
    hadjusted, List.getElem?_append_right le_rfl, Nat.sub_self, List.getElem?_cons_zero,
    Option.map_some, List.set_append_right _ _ le_rfl, List.set_cons_zero]

/-- Without a standby nobody is promoted. -/
theorem replaceDeparted_of_no_standby (hactive : ∀ m ∈ members, m.isActive = true) :
    replaceDeparted members departingPeer =
      (promoteFirst (removeMember members departingPeer), none) := by
  have hnone : members.findIdx? (fun m => !m.isActive) = none := by
    rw [List.findIdx?_eq_none_iff]
    intro m hm
    simp [hactive m hm]
  rw [replaceDeparted, hnone]
  rfl

/-- A departure from before the first standby promotes that standby. -/
theorem replaceDeparted_of_mem_before (after : List (SwarmMember F))
    (hbefore : ∀ m ∈ before, m.isActive = true)
    (hstandby : standby.isActive = false) (hmem : ∃ m ∈ before, m.peerId = departingPeer) :
    let remaining := (before.eraseP fun m => m.peerId = departingPeer) ++ standby :: after
    removeMember (before ++ standby :: after) departingPeer = remaining ∧
      replaceDeparted (before ++ standby :: after) departingPeer =
        ((before.eraseP fun m => m.peerId = departingPeer) ++
          promote remaining standby :: after, some standby.peerId) := by
  obtain ⟨departing, hdeparting, hid⟩ := hmem
  have hremove : removeMember (before ++ standby :: after) departingPeer =
      (before.eraseP fun m => m.peerId = departingPeer) ++ standby :: after := by
    rw [removeMember_eq_eraseP]
    exact List.eraseP_append_left (by simpa using hid) _ hdeparting
  have hidx : ∃ idx, (before ++ standby :: after).findIdx?
      (fun m => m.peerId = departingPeer) = some idx ∧ idx < before.length := by
    cases hfind : before.findIdx? fun m => m.peerId = departingPeer with
    | none =>
        rw [List.findIdx?_eq_none_iff] at hfind
        exact absurd hid (by simpa using hfind departing hdeparting)
    | some idx =>
        rw [List.findIdx?_append, hfind]
        exact ⟨idx, rfl, (List.findIdx?_eq_some_iff_getElem.mp hfind).1⟩
  obtain ⟨idx, hidx, hlt⟩ := hidx
  have hadjusted : adjustedIdx (before ++ standby :: after) departingPeer before.length =
      (before.eraseP fun m => m.peerId = departingPeer).length := by
    rw [adjustedIdx, hidx, List.length_eraseP_of_mem hdeparting (by simpa using hid)]
    simp [hlt]
  exact ⟨hremove, replaceDeparted_of_split hbefore hstandby hremove hadjusted⟩

/-- The index of the first standby is kept when nobody in front of it departs. -/
theorem adjustedIdx_of_behind (after : List (SwarmMember F))
    (hmem : ∀ m ∈ before, m.peerId ≠ departingPeer) :
    adjustedIdx (before ++ standby :: after) departingPeer before.length = before.length := by
  have hnone : before.findIdx? (fun m => m.peerId = departingPeer) = none := by
    rw [List.findIdx?_eq_none_iff]
    simpa using hmem
  rw [adjustedIdx, List.findIdx?_append, hnone, Option.none_or]
  cases (standby :: after).findIdx? fun m => m.peerId = departingPeer with
  | none => rfl
  | some idx => simp

/-- When the first standby stays and the departure is behind it, it is promoted. -/
theorem replaceDeparted_of_stays (after : List (SwarmMember F))
    (hbefore : ∀ m ∈ before, m.isActive = true)
    (hstandby : standby.isActive = false) (hmem : ∀ m ∈ before, m.peerId ≠ departingPeer)
    (hstays : standby.peerId ≠ departingPeer) :
    let remaining := before ++ standby :: after.eraseP fun m => m.peerId = departingPeer
    removeMember (before ++ standby :: after) departingPeer = remaining ∧
      replaceDeparted (before ++ standby :: after) departingPeer =
        (before ++ promote remaining standby ::
          (after.eraseP fun m => m.peerId = departingPeer), some standby.peerId) := by
  have hremove : removeMember (before ++ standby :: after) departingPeer =
      before ++ standby :: after.eraseP fun m => m.peerId = departingPeer := by
    rw [removeMember_eq_eraseP, List.eraseP_append_right _ (by simpa using hmem),
      List.eraseP_cons_of_neg (by simpa using hstays)]
  have hadjusted := @adjustedIdx_of_behind _ _ standby departingPeer after hmem
  exact ⟨hremove, replaceDeparted_of_split hbefore hstandby hremove hadjusted⟩

/-- When the first standby itself leaves, its stale index names the member behind
it. -/
theorem replaceDeparted_of_leaves (after : List (SwarmMember F))
    (hbefore : ∀ m ∈ before, m.isActive = true)
    (hstandby : standby.isActive = false) (hmem : ∀ m ∈ before, m.peerId ≠ departingPeer)
    (hleaves : standby.peerId = departingPeer) :
    removeMember (before ++ standby :: after) departingPeer = before ++ after ∧
      replaceDeparted (before ++ standby :: after) departingPeer =
        match after with
        | next :: later =>
            (before ++ promote (before ++ next :: later) next :: later, some next.peerId)
        | [] => (promoteFirst before, none) := by
  have hremove : removeMember (before ++ standby :: after) departingPeer = before ++ after := by
    rw [removeMember_eq_eraseP, List.eraseP_append_right _ (by simpa using hmem),
      List.eraseP_cons_of_pos (by simpa using hleaves)]
  have hadjusted := @adjustedIdx_of_behind _ _ standby departingPeer after hmem
  refine ⟨hremove, ?_⟩
  cases after with
  | cons next later => exact replaceDeparted_of_split hbefore hstandby hremove hadjusted
  | nil =>
      simp only [replaceDeparted, findIdx?_standby hbefore hstandby, hremove, Option.bind_some,
        hadjusted, List.append_nil, List.getElem?_eq_none le_rfl, Option.map_none]

/-- Members either contain no standby or split at the first one. -/
theorem exists_first_standby (members : List (SwarmMember F)) :
    (∀ m ∈ members, m.isActive = true) ∨
      ∃ before standby after, members = before ++ standby :: after ∧
        (∀ m ∈ before, m.isActive = true) ∧ standby.isActive = false := by
  induction members with
  | nil => exact Or.inl fun m hm => absurd hm List.not_mem_nil
  | cons member rest ih =>
      cases hactive : member.isActive with
      | false => exact Or.inr ⟨[], member, rest, rfl, by simp, hactive⟩
      | true =>
          rcases ih with hrest | ⟨before, standby, after, rfl, hbefore, hstandby⟩
          · exact Or.inl (List.forall_mem_cons.mpr ⟨hactive, hrest⟩)
          · exact Or.inr ⟨member :: before, standby, after, rfl,
              List.forall_mem_cons.mpr ⟨hactive, hbefore⟩, hstandby⟩

theorem dropWhile_isActive (hbefore : ∀ m ∈ before, m.isActive = true)
    (hstandby : standby.isActive = false) :
    (before ++ standby :: after).dropWhile SwarmMember.isActive = standby :: after := by
  rw [List.dropWhile_append_of_pos hbefore, List.dropWhile_cons_of_neg (by simp [hstandby])]

theorem takeWhile_isActive (hbefore : ∀ m ∈ before, m.isActive = true)
    (hstandby : standby.isActive = false) :
    (before ++ standby :: after).takeWhile SwarmMember.isActive = before := by
  rw [List.takeWhile_append_of_pos hbefore, List.takeWhile_cons_of_neg (by simp [hstandby]),
    List.append_nil]

@[simp]
theorem isActive_promote (remaining : List (SwarmMember F)) (member : SwarmMember F) :
    (promote remaining member).isActive = true := by
  simp only [promote, SwarmMember.isActive]
  split <;> rfl

@[simp]
theorem capacityBytes_promote (remaining : List (SwarmMember F)) (member : SwarmMember F) :
    (promote remaining member).capacityBytes = member.capacityBytes := rfl

end Departure

/-- The membership change that precedes the redistribution. -/
def changedMembers (members : List (SwarmMember F)) : RebalanceReason → List (SwarmMember F)
  | .memberLeft peerId => (replaceDeparted members peerId).1
  | .memberFailed peerId => (replaceDeparted members peerId).1
  | .memberJoined _ => members

variable {swarm : SwarmDefinition F} {reason : RebalanceReason} {totalLayers : ℕ}
  {action : RebalanceAction} {newAssignments : List (NodeId × Range)}

/-- A redistribution that reports assignments is the loop over all members. -/
theorem redistributeLayers_eq_ok (h : (redistributeLayers swarm totalLayers).1 = .ok action)
    (hnew : action.newAssignments = some newAssignments) :
    let loop := redistributeLoop (swarm.activeMembers.map SwarmMember.capacityBytes).sum
      totalLayers 0 swarm.members
    swarm.activeMembers ≠ [] ∧ newAssignments = loop.2 ∧
      (redistributeLayers swarm totalLayers).2.members = loop.1 := by
  rw [redistributeLayers] at h ⊢
  split at h
  · cases h
    cases hnew
  rename_i hne
  rw [if_neg hne]
  dsimp only at h ⊢
  split at h
  · cases h
  · rename_i hcapacity
    cases h
    cases hnew
    rw [if_neg hcapacity]
    exact ⟨by simpa using hne, rfl, rfl⟩

/-- A departure that reports assignments replaces the departed member and then
runs the redistribution. -/
theorem handleMemberDeparture_eq_ok {departingPeer : NodeId}
    (h : (handleMemberDeparture swarm departingPeer totalLayers).1 = .ok action)
    (hnew : action.newAssignments = some newAssignments) :
    ∃ changed : SwarmDefinition F, ∃ redistribution,
      changed.members = (replaceDeparted swarm.members departingPeer).1 ∧
      (redistributeLayers changed totalLayers).1 = .ok redistribution ∧
      redistribution.newAssignments = some newAssignments ∧
      (handleMemberDeparture swarm departingPeer totalLayers).2 =
        (redistributeLayers changed totalLayers).2 := by
  rw [handleMemberDeparture] at h ⊢
  dsimp only at h ⊢
  cases hpromoted : (replaceDeparted swarm.members departingPeer).2 with
  | some promotedPeer =>
      simp only [hpromoted] at h ⊢
      refine ⟨{ swarm with members := (replaceDeparted swarm.members departingPeer).1 }, ?_⟩
      rcases hresult : redistributeLayers
        { swarm with members := (replaceDeparted swarm.members departingPeer).1 } totalLayers
        with ⟨redistribution, result⟩
      rw [hresult] at h
      cases redistribution with
      | error e => cases h
      | ok redistribution =>
          refine ⟨redistribution, rfl, rfl, ?_, ?_⟩
          · cases redistribution <;> cases h <;> exact hnew
          · cases redistribution <;> rfl
  | none =>
      simp only [hpromoted] at h ⊢
      split at h
      · cases h
        cases hnew
      · rename_i hcount
        rw [if_neg hcount]
        exact ⟨_, action, rfl, h, hnew, rfl⟩

/-- A rebalance that reports assignments changes the membership and then runs the
redistribution. -/
theorem rebalance_eq_ok (h : (rebalance swarm reason totalLayers).1 = .ok action)
    (hnew : action.newAssignments = some newAssignments) :
    ∃ changed : SwarmDefinition F, ∃ redistribution,
      changed.members = changedMembers swarm.members reason ∧
      (redistributeLayers changed totalLayers).1 = .ok redistribution ∧
      redistribution.newAssignments = some newAssignments ∧
      (rebalance swarm reason totalLayers).2 = (redistributeLayers changed totalLayers).2 := by
  cases reason with
  | memberLeft peerId => exact handleMemberDeparture_eq_ok h hnew
  | memberFailed peerId => exact handleMemberDeparture_eq_ok h hnew
  | memberJoined peerId => exact ⟨swarm, action, rfl, h, hnew, rfl⟩

/-! ## When the model stays whole -/

/-- The active members hold pairwise disjoint ranges that cover the model, and
they are the ranges that were reported. -/
structure ModelWhole (swarm : SwarmDefinition F) (totalLayers : ℕ)
    (newAssignments : List (NodeId × Range)) : Prop where
  disjoint : (swarm.activeMembers.map SwarmMember.assignedLayers).Pairwise Range.Disjoint
  covers : ∀ layer, (∃ m ∈ swarm.activeMembers, m.assignedLayers.Contains layer) ↔
    layer < totalLayers
  reported : swarm.activeMembers.map (fun m => (m.peerId, m.assignedLayers)) = newAssignments

/-- The members, as they are before the change, that serve the model after it. A
departing member is replaced by the first standby, or, if it is that standby, by
the member behind it. -/
def servingMembers (members : List (SwarmMember F)) : RebalanceReason → List (SwarmMember F)
  | .memberLeft peerId | .memberFailed peerId =>
      let before := members.takeWhile SwarmMember.isActive
      match members.dropWhile SwarmMember.isActive with
      | [] => before.eraseP fun m => m.peerId = peerId
      | standby :: after =>
          if before.any fun m => m.peerId = peerId then
            (before.eraseP fun m => m.peerId = peerId) ++
              standby :: after.filter SwarmMember.isActive
          else if standby.peerId = peerId then
            before ++ after.take 1 ++ (after.drop 1).filter SwarmMember.isActive
          else before ++ standby ::
            (after.eraseP fun m => m.peerId = peerId).filter SwarmMember.isActive
  | .memberJoined _ => members.filter SwarmMember.isActive

variable (F) in
/-- The rounded shares of all but the last of these capacities, at least one layer
each, leave a layer for the last. -/
def LeavesLayerForLast (capacities : List UInt64) (totalLayers : ℕ) : Prop :=
  (capacities.dropLast.map fun capacity =>
    max (rawShare (F := F) capacity capacities.sum totalLayers) 1).sum < totalLayers

omit [FloatOps F] in
theorem capacities_promoteFirst {members : List (SwarmMember F)}
    (hactive : ∀ m ∈ members, m.isActive = true) :
    ((promoteFirst members).filter SwarmMember.isActive).map SwarmMember.capacityBytes =
      members.map SwarmMember.capacityBytes := by
  cases members with
  | nil => rfl
  | cons first rest =>
      obtain ⟨hfirst, hrest⟩ := List.forall_mem_cons.mp hactive
      rw [promoteFirst]
      split
      · rw [List.filter_cons_of_pos rfl, List.filter_eq_self.mpr hrest]
        rfl
      · rw [List.filter_eq_self.mpr hactive]

omit [FloatOps F] in
/-- The serving members are the active ones after a departure. -/
theorem capacities_replaceDeparted (members : List (SwarmMember F)) (peerId : NodeId) :
    ((replaceDeparted members peerId).1.filter SwarmMember.isActive).map
        SwarmMember.capacityBytes =
      (servingMembers members (.memberLeft peerId)).map SwarmMember.capacityBytes := by
  rcases exists_first_standby members with
    hactive | ⟨before, standby, after, rfl, hbefore, hstandby⟩
  · have hremaining : ∀ m ∈ members.eraseP fun m => m.peerId = peerId, m.isActive = true :=
      fun m hm => hactive m (List.mem_of_mem_eraseP hm)
    rw [replaceDeparted_of_no_standby hactive, removeMember_eq_eraseP,
      capacities_promoteFirst hremaining, servingMembers,
      List.dropWhile_eq_nil_iff.mpr hactive, List.takeWhile_eq_self_iff.mpr hactive]
  have hkept : ∀ m ∈ before.eraseP fun m => m.peerId = peerId, m.isActive = true :=
    fun m hm => hbefore m (List.mem_of_mem_eraseP hm)
  simp only [servingMembers, dropWhile_isActive hbefore hstandby,
    takeWhile_isActive hbefore hstandby]
  by_cases hmem : ∃ m ∈ before, m.peerId = peerId
  · rw [(replaceDeparted_of_mem_before _ hbefore hstandby hmem).2, if_pos (by simpa using hmem)]
    simp [List.filter_append, List.filter_eq_self.mpr hkept]
  have hnotMem : ∀ m ∈ before, m.peerId ≠ peerId := fun m hm hid => hmem ⟨m, hm, hid⟩
  rw [if_neg (by simpa using hnotMem)]
  by_cases hleaves : standby.peerId = peerId
  · rw [(replaceDeparted_of_leaves _ hbefore hstandby hnotMem hleaves).2, if_pos hleaves]
    cases after with
    | nil => simpa using capacities_promoteFirst hbefore
    | cons next later => simp [List.filter_append, List.filter_eq_self.mpr hbefore]
  · rw [(replaceDeparted_of_stays _ hbefore hstandby hnotMem hleaves).2, if_neg hleaves]
    simp [List.filter_append, List.filter_eq_self.mpr hbefore]

omit [FloatOps F] in
/-- The serving members are the active ones after the membership change. -/
theorem capacities_changedMembers (members : List (SwarmMember F)) (reason : RebalanceReason) :
    ((changedMembers members reason).filter SwarmMember.isActive).map
        SwarmMember.capacityBytes =
      (servingMembers members reason).map SwarmMember.capacityBytes := by
  cases reason with
  | memberLeft peerId => exact capacities_replaceDeparted members peerId
  | memberFailed peerId => exact capacities_replaceDeparted members peerId
  | memberJoined peerId => rfl

/-- Leaving a layer for the last capacity is leaving one for the last member. -/
theorem leavesLayerForLast_iff (members : List (SwarmMember F)) (totalLayers : ℕ) :
    LeavesLayerForLast F (members.map SwarmMember.capacityBytes) totalLayers ↔
      prefixDemand (memberDemand (members.map SwarmMember.capacityBytes).sum totalLayers)
        members (members.length - 1) < totalLayers := by
  rw [LeavesLayerForLast, prefixDemand, List.dropLast_eq_take, List.length_map, List.map_take,
    List.map_map, List.map_take]
  rfl

/-- A redistribution keeps the model whole exactly when its demands leave a layer
for the last active member. -/
theorem modelWhole_redistributeLayers_iff
    (h : (redistributeLayers swarm totalLayers).1 = .ok action)
    (hnew : action.newAssignments = some newAssignments) :
    ModelWhole (redistributeLayers swarm totalLayers).2 totalLayers newAssignments ↔
      LeavesLayerForLast F (swarm.activeMembers.map SwarmMember.capacityBytes) totalLayers := by
  obtain ⟨hne, hnewAssignments, hmembers⟩ := redistributeLayers_eq_ok h hnew
  let demand := memberDemand (F := F) (swarm.activeMembers.map SwarmMember.capacityBytes).sum
    totalLayers
  have hpos : ∀ m ∈ swarm.activeMembers, 0 < demand m :=
    fun m _ => lt_of_lt_of_le Nat.zero_lt_one (le_max_right _ _)
  have hdeal : newAssignments =
      (deal demand totalLayers 0 swarm.activeMembers).map (fun x => (x.1.peerId, x.2)) :=
    hnewAssignments.trans (redistributeLoop_eq_deal _ _ _ _)
  have hheld : (redistributeLayers swarm totalLayers).2.activeMembers.map
        (fun m => (m.peerId, m.assignedLayers)) =
      newAssignments ++ (swarm.activeMembers.drop newAssignments.length).map
        (fun m => (m.peerId, m.assignedLayers)) := by
    rw [activeMembers, hmembers, hnewAssignments]
    exact filter_redistributeLoop _ _ _ _
  have hreached : (deal demand totalLayers 0 swarm.activeMembers).map Prod.fst =
      swarm.activeMembers ↔ swarm.activeMembers.length ≤ newAssignments.length := by
    rw [hdeal, List.length_map]
    refine ⟨fun hall => ?_, fun hlength => ?_⟩
    · exact le_of_eq (by rw [← List.length_map (f := Prod.fst), hall])
    · apply (deal_sublist demand totalLayers 0 swarm.activeMembers).eq_of_length_le
      rwa [List.length_map]
  have hexact := deal_map_fst_eq_iff demand totalLayers 0 hne hpos
  rw [Nat.zero_add] at hexact
  rw [leavesLayerForLast_iff, ← hexact, hreached]
  refine ⟨fun hwhole => ?_, fun hlength => ?_⟩
  · have hstale := hwhole.reported
    rw [hheld, List.append_right_eq_self, List.map_eq_nil_iff, List.drop_eq_nil_iff] at hstale
    exact hstale
  · have hreported : (redistributeLayers swarm totalLayers).2.activeMembers.map
        (fun m => (m.peerId, m.assignedLayers)) = newAssignments := by
      rw [hheld, List.drop_of_length_le hlength, List.map_nil, List.append_nil]
    have htiles : Tiles 0 ((redistributeLayers swarm totalLayers).2.activeMembers.map
        SwarmMember.assignedLayers) totalLayers := by
      have hranges := congrArg (List.map Prod.snd) hreported
      rw [List.map_map, hdeal, List.map_map] at hranges
      have hdealt : Tiles 0 ((deal demand totalLayers 0 swarm.activeMembers).map Prod.snd)
          totalLayers := deal_tiles hne (Nat.zero_le _)
      exact hranges ▸ hdealt
    exact {
      disjoint := htiles.pairwise.imp fun hle => Range.disjoint_of_stop_le hle
      covers := fun layer => by simpa using htiles.covers layer
      reported := hreported }

/-- **When a rebalance keeps the model whole.** A rebalance that reports
assignments leaves the active members with disjoint ranges that cover the model,
and with those it reported, exactly when the shares of all but the last serving
member leave that member a layer. -/
theorem rebalance_keeps_model_whole_iff
    (h : (rebalance swarm reason totalLayers).1 = .ok action)
    (hnew : action.newAssignments = some newAssignments) :
    ModelWhole (rebalance swarm reason totalLayers).2 totalLayers newAssignments ↔
      LeavesLayerForLast F
        ((servingMembers swarm.members reason).map SwarmMember.capacityBytes) totalLayers := by
  obtain ⟨changed, redistribution, hmembers, hresult, hreports, hswarm⟩ := rebalance_eq_ok h hnew
  rw [hswarm, modelWhole_redistributeLayers_iff hresult hreports, activeMembers, hmembers,
    capacities_changedMembers]

/-- A member for concrete examples. -/
def exampleMember (key : UInt8) (role : SwarmRole) (layers : Range) (capacity : UInt64) :
    SwarmMember ℚ :=
  ⟨.ofByte key, role, layers, capacity, 0⟩

/-- A serving swarm for concrete examples. -/
def exampleSwarm (members : List (SwarmMember ℚ)) : SwarmDefinition ℚ :=
  { (new ⟨1⟩ "test-model" : SwarmDefinition ℚ) with members := members, status := .ready }

/-- One large peer and three small ones share 32 layers. -/
def skewedSwarm : SwarmDefinition ℚ := exampleSwarm
  [exampleMember 1 .leader ⟨0, 29⟩ 62, exampleMember 2 .worker ⟨29, 30⟩ 1,
    exampleMember 3 .worker ⟨30, 31⟩ 1, exampleMember 4 .worker ⟨31, 32⟩ 1]

/-- When the last small peer of a skewed swarm leaves, the large peer and the
next small one take all 32 layers, and the third peer keeps its old range
`30..31`, which is now the large peer's. -/
theorem skewed_rebalance_not_whole :
    (rebalance skewedSwarm (.memberLeft (.ofByte 4)) 32).1 =
        .ok (.redistributed [(.ofByte 1, ⟨0, 31⟩), (.ofByte 2, ⟨31, 32⟩)]) ∧
      ¬ ModelWhole (rebalance skewedSwarm (.memberLeft (.ofByte 4)) 32).2 32
        [(.ofByte 1, ⟨0, 31⟩), (.ofByte 2, ⟨31, 32⟩)] := by
  refine ⟨by decide +kernel, fun hwhole => ?_⟩
  exact absurd hwhole.reported (by decide +kernel)

/-- Three equal peers. -/
def balancedSwarm : SwarmDefinition ℚ := exampleSwarm
  [exampleMember 1 .leader ⟨0, 11⟩ 8, exampleMember 2 .worker ⟨11, 22⟩ 8,
    exampleMember 3 .worker ⟨22, 32⟩ 8]

/-- Three equal peers that lose one stay whole if the other shares leave a layer
for the last one. -/
theorem rebalance_keeps_model_whole_iff_balanced :
    ModelWhole (rebalance balancedSwarm (.memberFailed (.ofByte 2)) 32).2 32
        [(.ofByte 1, ⟨0, 16⟩), (.ofByte 3, ⟨16, 32⟩)] ↔
      LeavesLayerForLast ℚ ((servingMembers balancedSwarm.members
        (.memberFailed (.ofByte 2))).map SwarmMember.capacityBytes) 32 := by
  have h : (rebalance balancedSwarm (.memberFailed (.ofByte 2)) 32).1 =
      .ok (.redistributed [(.ofByte 1, ⟨0, 16⟩), (.ofByte 3, ⟨16, 32⟩)]) := by decide +kernel
  exact rebalance_keeps_model_whole_iff h rfl

end SwarmDefinition

end HiveBear.Mesh
