/-
# A rebalance that fails

A departure is carried out before the layers are dealt out again, and it is the dealing that can
fail: when the members that would serve have no capacity between them. By then the departed member
is gone, a standby holds its role, or the swarm counts as degraded.

A failure leaves the swarm alone only where there was nothing to carry out: nobody departed, nobody
was promoted, and the swarm was degraded before.
-/

import HiveBear.Mesh.Swarm.Ledger

namespace HiveBear.Mesh.SwarmDefinition

variable {F : Type*} {members : List (SwarmMember F)} {departingPeer : NodeId}

/-- Nobody takes the departing member's place: there is no standby, or the only one is the last
member and departs itself. -/
def Unreplaced (members : List (SwarmMember F)) (departingPeer : NodeId) : Prop :=
  match members.dropWhile SwarmMember.isActive with
  | [] => True
  | standby :: after =>
      after = [] ∧ standby.peerId = departingPeer ∧
        ∀ m ∈ members.takeWhile SwarmMember.isActive, m.peerId ≠ departingPeer

/-- Nothing to carry out: the departing peer is no member, all members are active, and one of them
leads. -/
def NothingToChange (members : List (SwarmMember F)) (departingPeer : NodeId) : Prop :=
  (∀ m ∈ members, m.peerId ≠ departingPeer) ∧ (∀ m ∈ members, m.isActive = true) ∧
    ∃ m ∈ members, m.isLeader = true

/-- The capacity the redistribution finds, in the arithmetic of the source. -/
def servingCapacity (members : List (SwarmMember F)) (reason : RebalanceReason) : UInt64 :=
  ((servingMembers members reason).map SwarmMember.capacityBytes).sum

/-! ## What a departure changes -/

theorem length_promoteFirst (members : List (SwarmMember F)) :
    (promoteFirst members).length = members.length := by
  cases members with
  | nil => rfl
  | cons first rest =>
      rw [promoteFirst]
      split <;> rfl

/-- The first member takes over just if nobody leads. -/
theorem promoteFirst_eq_self_iff (hne : members ≠ []) :
    promoteFirst members = members ↔ ∃ m ∈ members, m.isLeader = true := by
  have hneeds : needsNewLeader members = false ↔ ∃ m ∈ members, m.isLeader = true := by
    rw [← Bool.not_eq_true, needsNewLeader_iff, List.countP_eq_zero]
    push Not
    rfl
  rw [← hneeds]
  refine ⟨fun hsame => ?_, promoteFirst_of_leader⟩
  match members, hne, hsame with
  | first :: rest, _, hsame =>
      by_contra hlost
      rw [Bool.not_eq_false] at hlost
      rw [promoteFirst, if_pos hlost] at hsame
      -- the first member leads already, so somebody does
      have hleads : first.isLeader = true := by
        rw [← (List.cons_eq_cons.mp hsame).1]
        rfl
      rw [needsNewLeader_iff, List.countP_eq_zero] at hlost
      exact hlost first List.mem_cons_self hleads

/-- A member that departs leaves fewer behind. -/
theorem length_removeMember_lt {departing : SwarmMember F} (hmem : departing ∈ members)
    (hid : departing.peerId = departingPeer) :
    (removeMember members departingPeer).length < members.length := by
  rw [removeMember_eq_eraseP, List.length_eraseP_of_mem hmem (by simpa using hid)]
  exact Nat.sub_one_lt (List.length_pos_of_mem hmem).ne'

theorem removeMember_of_notMem (hmem : ∀ m ∈ members, m.peerId ≠ departingPeer) :
    removeMember members departingPeer = members := by
  rw [removeMember_eq_eraseP, List.eraseP_of_forall_not (by simpa using hmem)]

/-- Whether somebody takes the departing member's place. -/
theorem replaceDeparted_snd_eq_none_iff (members : List (SwarmMember F)) (departingPeer : NodeId) :
    (replaceDeparted members departingPeer).2 = none ↔ Unreplaced members departingPeer := by
  rcases exists_first_standby members with
    hactive | ⟨before, standby, after, rfl, hbefore, hstandby⟩
  · rw [replaceDeparted_of_no_standby hactive, Unreplaced, List.dropWhile_eq_nil_iff.mpr hactive]
    exact iff_of_true rfl trivial
  rw [Unreplaced, dropWhile_isActive hbefore hstandby, takeWhile_isActive hbefore hstandby]
  by_cases hmem : ∃ m ∈ before, m.peerId = departingPeer
  · rw [(replaceDeparted_of_mem_before after hbefore hstandby hmem).2]
    obtain ⟨departing, hdeparting, hid⟩ := hmem
    exact iff_of_false (Option.some_ne_none _) fun h => h.2.2 departing hdeparting hid
  have hnotMem : ∀ m ∈ before, m.peerId ≠ departingPeer := fun m hm hid => hmem ⟨m, hm, hid⟩
  by_cases hleaves : standby.peerId = departingPeer
  · rw [(replaceDeparted_of_leaves after hbefore hstandby hnotMem hleaves).2]
    cases after with
    | nil => exact iff_of_true rfl ⟨rfl, hleaves, hnotMem⟩
    | cons next later =>
        exact iff_of_false (Option.some_ne_none _) fun h => List.cons_ne_nil _ _ h.1
  · rw [(replaceDeparted_of_stays after hbefore hstandby hnotMem hleaves).2]
    exact iff_of_false (Option.some_ne_none _) fun h => hleaves h.2.1

/-- A departure leaves the members alone just if there is nothing to carry out. -/
theorem replaceDeparted_fst_eq_self_iff (hne : members ≠ []) :
    (replaceDeparted members departingPeer).1 = members ↔
      NothingToChange members departingPeer := by
  rw [NothingToChange]
  rcases exists_first_standby members with
    hactive | ⟨before, standby, after, rfl, hbefore, hstandby⟩
  · rw [replaceDeparted_of_no_standby hactive]
    by_cases hmem : ∀ m ∈ members, m.peerId ≠ departingPeer
    · rw [removeMember_of_notMem hmem, promoteFirst_eq_self_iff hne]
      exact ⟨fun hleads => ⟨hmem, hactive, hleads⟩, fun h => h.2.2⟩
    · apply iff_of_false _ fun h => hmem h.1
      push Not at hmem
      obtain ⟨departing, hdeparting, hid⟩ := hmem
      intro hsame
      have hshorter := length_removeMember_lt hdeparting hid
      rw [← length_promoteFirst, show promoteFirst _ = members from hsame] at hshorter
      exact lt_irrefl _ hshorter
  -- the standby leads, works or is gone afterwards
  apply iff_of_false
  · intro hsame
    by_cases hmem : ∃ m ∈ before, m.peerId = departingPeer
    · rw [(replaceDeparted_of_mem_before after hbefore hstandby hmem).2] at hsame
      obtain ⟨departing, hdeparting, hid⟩ := hmem
      have hlength := congrArg List.length hsame
      rw [List.length_append, List.length_append, List.length_cons, List.length_cons,
        List.length_eraseP_of_mem hdeparting (by simpa using hid)] at hlength
      have := List.length_pos_of_mem hdeparting
      omega
    have hnotMem : ∀ m ∈ before, m.peerId ≠ departingPeer := fun m hm hid => hmem ⟨m, hm, hid⟩
    by_cases hleaves : standby.peerId = departingPeer
    · rw [(replaceDeparted_of_leaves after hbefore hstandby hnotMem hleaves).2] at hsame
      have hlength := congrArg List.length hsame
      cases after with
      | nil =>
          rw [length_promoteFirst, List.length_append, List.length_singleton] at hlength
          omega
      | cons next later =>
          simp only [List.length_append, List.length_cons] at hlength
          omega
    · rw [(replaceDeparted_of_stays after hbefore hstandby hnotMem hleaves).2] at hsame
      have hpromoted := (List.cons_eq_cons.mp (List.append_cancel_left hsame)).1
      have hworks := isActive_promote
        (before ++ standby :: after.eraseP fun m => m.peerId = departingPeer) standby
      rw [hpromoted, hstandby] at hworks
      cases hworks
  · intro h
    have hworks := h.2.1 standby (List.mem_append_right _ List.mem_cons_self)
    rw [hstandby] at hworks
    cases hworks

/-- Where there is nothing to change, there is no standby to promote. -/
theorem NothingToChange.unreplaced (h : NothingToChange members departingPeer) :
    Unreplaced members departingPeer := by
  rw [Unreplaced, List.dropWhile_eq_nil_iff.mpr h.2.1]
  trivial

/-! ## When a rebalance fails -/

variable [FloatOps F] {swarm : SwarmDefinition F} {reason : RebalanceReason} {totalLayers : ℕ}

/-- A redistribution fails when there are active members without any capacity, and then the swarm
is as before. -/
theorem redistributeLayers_failure (swarm : SwarmDefinition F) (totalLayers : ℕ) :
    ((∃ e, (redistributeLayers swarm totalLayers).1 = .error e) ↔
      swarm.activeMembers ≠ [] ∧ (swarm.activeMembers.map SwarmMember.capacityBytes).sum = 0) ∧
    ∀ e, (redistributeLayers swarm totalLayers).1 = .error e →
      (redistributeLayers swarm totalLayers).2 = swarm := by
  rw [redistributeLayers]
  split
  · rename_i hnone
    refine ⟨⟨?_, fun h => absurd (List.isEmpty_iff.mp hnone) h.1⟩, ?_⟩
    · rintro ⟨e, h⟩
      cases h
    · intro e h
      cases h
  rename_i hsome
  have hne : swarm.activeMembers ≠ [] := by simpa using hsome
  dsimp only
  split
  · rename_i hcapacity
    exact ⟨⟨fun _ => ⟨hne, hcapacity⟩, fun _ => ⟨_, rfl⟩⟩, fun _ _ => rfl⟩
  · rename_i hcapacity
    refine ⟨⟨?_, fun h => absurd h.2 hcapacity⟩, ?_⟩
    · rintro ⟨e, h⟩
      cases h
    · intro e h
      cases h

/-- A redistribution that finds active members leaves another swarm alone, if it fails, just if they
have capacity or it is that swarm. -/
theorem redistributeLayers_unchanged_iff {changed : SwarmDefinition F}
    (hactive : changed.activeMembers ≠ []) :
    (∀ e, (redistributeLayers changed totalLayers).1 = .error e →
        (redistributeLayers changed totalLayers).2 = swarm) ↔
      (changed.activeMembers.map SwarmMember.capacityBytes).sum ≠ 0 ∨ changed = swarm := by
  obtain ⟨hfails, hkept⟩ := redistributeLayers_failure changed totalLayers
  constructor
  · intro h
    by_cases hcapacity : (changed.activeMembers.map SwarmMember.capacityBytes).sum = 0
    · obtain ⟨e, he⟩ := hfails.mpr ⟨hactive, hcapacity⟩
      exact Or.inr ((hkept e he).symm.trans (h e he))
    · exact Or.inl hcapacity
  · intro h e he
    rcases h with hcapacity | rfl
    · exact absurd (hfails.mp ⟨e, he⟩).2 hcapacity
    · exact hkept e he

/-- With a promotion, the departure ends as the redistribution does, except for the report. -/
theorem handleMemberDeparture_of_some {promoted : NodeId}
    (h : (replaceDeparted swarm.members departingPeer).2 = some promoted) :
    let changed := { swarm with members := (replaceDeparted swarm.members departingPeer).1 }
    (∀ e, (handleMemberDeparture swarm departingPeer totalLayers).1 = .error e ↔
      (redistributeLayers changed totalLayers).1 = .error e) ∧
    (handleMemberDeparture swarm departingPeer totalLayers).2 =
      (redistributeLayers changed totalLayers).2 := by
  rw [handleMemberDeparture]
  simp only [h]
  rcases redistributeLayers
    { swarm with members := (replaceDeparted swarm.members departingPeer).1 } totalLayers with
    ⟨result, after⟩
  cases result with
  | error e => exact ⟨fun _ => Iff.rfl, rfl⟩
  | ok action =>
      cases action with
      | redistributed newAssignments => exact ⟨fun e => ⟨(by simp), (by simp)⟩, rfl⟩
      | standbyPromoted peer newAssignments => exact ⟨fun _ => Iff.rfl, rfl⟩
      | disbanded => exact ⟨fun _ => Iff.rfl, rfl⟩

/-- Without a promotion, too small a swarm is disbanded, and the others are redistributed as
degraded ones. -/
theorem handleMemberDeparture_of_none (h : (replaceDeparted swarm.members departingPeer).2 = none) :
    handleMemberDeparture swarm departingPeer totalLayers =
      let members := (replaceDeparted swarm.members departingPeer).1
      if (members.filter SwarmMember.isActive).length < minSwarmSize then
        (.ok .disbanded, { swarm with members := members, status := .disbanded })
      else redistributeLayers { swarm with members := members, status := .degraded } totalLayers := by
  rw [handleMemberDeparture]
  simp only [h]
  rfl

/-- The condition for a departure to leave the swarm alone if it fails. -/
def FailsUnchanged (swarm : SwarmDefinition F) (departingPeer : NodeId) : Prop :=
  servingCapacity swarm.members (.memberLeft departingPeer) ≠ 0 ∨
    Unreplaced swarm.members departingPeer ∧
      (servingMembers swarm.members (.memberLeft departingPeer)).length < minSwarmSize ∨
    NothingToChange swarm.members departingPeer ∧ swarm.status = .degraded

omit [FloatOps F] in
/-- How many serve after a departure. -/
theorem length_servingMembers (members : List (SwarmMember F)) (departingPeer : NodeId) :
    ((replaceDeparted members departingPeer).1.filter SwarmMember.isActive).length =
      (servingMembers members (.memberLeft departingPeer)).length := by
  have hlength := congrArg List.length (capacities_replaceDeparted members departingPeer)
  rwa [List.length_map, List.length_map] at hlength

omit [FloatOps F] in
theorem not_nothingToChange {promoted : NodeId}
    (hpromoted : (replaceDeparted swarm.members departingPeer).2 = some promoted) :
    ¬ NothingToChange swarm.members departingPeer := by
  intro h
  have hnone := (replaceDeparted_snd_eq_none_iff _ _).mpr h.unreplaced
  rw [hpromoted] at hnone
  cases hnone

/-- A departure with a promotion leaves the swarm alone only if it does not fail: the promotion
alone makes it another swarm. -/
theorem promoted_unchanged_iff {promoted : NodeId}
    (hpromoted : (replaceDeparted swarm.members departingPeer).2 = some promoted) :
    (∀ e, (handleMemberDeparture swarm departingPeer totalLayers).1 = .error e →
        (handleMemberDeparture swarm departingPeer totalLayers).2 = swarm) ↔
      (((replaceDeparted swarm.members departingPeer).1.filter
        SwarmMember.isActive).map SwarmMember.capacityBytes).sum ≠ 0 := by
  have hcount := le_trans (le_max_left 1 _) (activeMembers_le_of_promotion hpromoted)
  have hne : swarm.members ≠ [] := by
    intro hnone
    rw [hnone] at hpromoted
    cases hpromoted
  obtain ⟨hfails, hafter⟩ :=
    @handleMemberDeparture_of_some F departingPeer _ swarm totalLayers promoted hpromoted
  simp only [hfails, hafter]
  have hactive : activeMembers { swarm with
      members := (replaceDeparted swarm.members departingPeer).1 } ≠ [] :=
    List.ne_nil_of_length_pos hcount
  rw [redistributeLayers_unchanged_iff hactive]
  refine or_iff_left fun hsame => not_nothingToChange hpromoted ?_
  exact (replaceDeparted_fst_eq_self_iff hne).mp (congrArg members hsame)

/-- A departure without a promotion leaves the swarm alone if it does not fail, if too few serve to
go on, or if there is nothing to change. -/
theorem unpromoted_unchanged_iff
    (hpromoted : (replaceDeparted swarm.members departingPeer).2 = none) :
    (∀ e, (handleMemberDeparture swarm departingPeer totalLayers).1 = .error e →
        (handleMemberDeparture swarm departingPeer totalLayers).2 = swarm) ↔
      (((replaceDeparted swarm.members departingPeer).1.filter
          SwarmMember.isActive).map SwarmMember.capacityBytes).sum ≠ 0 ∨
        ((replaceDeparted swarm.members departingPeer).1.filter
          SwarmMember.isActive).length < minSwarmSize ∨
        NothingToChange swarm.members departingPeer ∧ swarm.status = .degraded := by
  rw [handleMemberDeparture_of_none hpromoted]
  dsimp only
  split
  · rename_i hfew
    exact iff_of_true (by simp) (Or.inr (Or.inl hfew))
  rename_i henough
  have hpos : 0 < ((replaceDeparted swarm.members departingPeer).1.filter
      SwarmMember.isActive).length :=
    lt_of_lt_of_le (by decide : 0 < minSwarmSize) (not_lt.mp henough)
  have hne : swarm.members ≠ [] := by
    intro hnone
    rw [hnone] at hpos
    exact absurd hpos (lt_irrefl 0)
  have hactive : activeMembers { swarm with
      members := (replaceDeparted swarm.members departingPeer).1, status := .degraded } ≠ [] :=
    List.ne_nil_of_length_pos hpos
  rw [redistributeLayers_unchanged_iff hactive, or_iff_right henough]
  refine or_congr Iff.rfl ⟨fun hsame => ?_, ?_⟩
  · rw [← replaceDeparted_fst_eq_self_iff hne]
    exact ⟨congrArg members hsame, (congrArg status hsame).symm⟩
  · rintro ⟨h, hstatus⟩
    rw [(replaceDeparted_fst_eq_self_iff hne).mpr h, ← hstatus]

/-- A departure that fails leaves the swarm alone just if the condition holds. -/
theorem departure_unchanged_iff :
    (∀ e, (handleMemberDeparture swarm departingPeer totalLayers).1 = .error e →
        (handleMemberDeparture swarm departingPeer totalLayers).2 = swarm) ↔
      FailsUnchanged swarm departingPeer := by
  have hcapacity : (((replaceDeparted swarm.members departingPeer).1.filter
      SwarmMember.isActive).map SwarmMember.capacityBytes).sum =
        servingCapacity swarm.members (.memberLeft departingPeer) := by
    rw [servingCapacity, capacities_replaceDeparted]
  have hserving := length_servingMembers swarm.members departingPeer
  rw [FailsUnchanged, ← replaceDeparted_snd_eq_none_iff, ← hserving, ← hcapacity]
  cases hpromoted : (replaceDeparted swarm.members departingPeer).2 with
  | some promoted =>
      rw [promoted_unchanged_iff hpromoted, or_iff_left]
      rintro (⟨hnone, -⟩ | ⟨h, -⟩)
      · cases hnone
      · exact not_nothingToChange hpromoted h
  | none => rw [unpromoted_unchanged_iff hpromoted, and_iff_right rfl]

/-- **A failed rebalance.** It leaves the swarm as it was if and only if the event is a member
that joins, or the condition for departures holds. -/
theorem failed_rebalance_unchanged_iff :
    (∀ e, (rebalance swarm reason totalLayers).1 = .error e →
        (rebalance swarm reason totalLayers).2 = swarm) ↔
      match reason with
      | .memberLeft peerId | .memberFailed peerId => FailsUnchanged swarm peerId
      | .memberJoined _ => True := by
  cases reason with
  | memberLeft peerId => exact departure_unchanged_iff
  | memberFailed peerId => exact departure_unchanged_iff
  | memberJoined peerId => exact iff_of_true (redistributeLayers_failure swarm totalLayers).2 trivial

/-- A leader with capacity leads two members without. -/
def drainedSwarm : SwarmDefinition ℚ := exampleSwarm
  [exampleMember 1 .leader ⟨0, 32⟩ 8, exampleMember 2 .worker ⟨32, 32⟩ 0,
    exampleMember 3 .worker ⟨32, 32⟩ 0]

/-- **When the leader leaves, the rebalance fails**, and the swarm has lost it, has another leader
and is degraded. -/
theorem drained_rebalance_changed :
    (rebalance drainedSwarm (.memberLeft (.ofByte 1)) 32).1 =
        .error (.scheduling "No capacity available") ∧
      roles (rebalance drainedSwarm (.memberLeft (.ofByte 1)) 32).2.members =
        [(.ofByte 2, .leader), (.ofByte 3, .worker)] ∧
      (rebalance drainedSwarm (.memberLeft (.ofByte 1)) 32).2.status ≠ drainedSwarm.status := by
  refine ⟨?_, ?_, ?_⟩
  all_goals decide +kernel

end HiveBear.Mesh.SwarmDefinition
