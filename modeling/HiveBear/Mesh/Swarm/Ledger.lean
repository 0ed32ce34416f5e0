/-
# Viability and the capacity ledger

A swarm that is not disbanded must keep enough active members, and the capacity it
advertises must be the sum of theirs. Viability holds along every run: a departure
that leaves too few members disbands the swarm.

The ledger does not. Every path that redistributes layers recalculates the cached
aggregate at its end; the path that disbands returns before that, so the aggregate
still counts the member that has just left. A departure disbands without touching
the ledger exactly when nobody that counted has left, and `SustainableEvent` says
that of every event.
-/

import HiveBear.Library.Words
import HiveBear.Mesh.Swarm.Leadership

namespace HiveBear.Mesh.SwarmDefinition

open LabelledRun MachineWord

variable {F : Type*}

/-! ## Capacities -/

/-- The exact sum of these members' capacities. -/
def exactCapacity (members : List (SwarmMember F)) : ℕ :=
  ((members.map SwarmMember.capacityBytes).map UInt64.toNat).sum

/-- The cached aggregate is the capacity of the active members. -/
def LedgerCorrect (swarm : SwarmDefinition F) : Prop :=
  swarm.aggregateCapacityBytes.toNat = exactCapacity swarm.activeMembers

instance (swarm : SwarmDefinition F) : Decidable (LedgerCorrect swarm) :=
  inferInstanceAs (Decidable (_ = _))

/-- The swarm is disbanded or has enough active members. -/
def Viable (swarm : SwarmDefinition F) : Prop :=
  swarm.status = .disbanded ∨ minSwarmSize ≤ swarm.activeMemberCount

instance (swarm : SwarmDefinition F) : Decidable swarm.Viable :=
  inferInstanceAs (Decidable (_ ∨ _))

/-- Every member has some capacity, and the sum of all does not overflow. -/
structure SoundCapacities (members : List (SwarmMember F)) : Prop where
  positive : ∀ m ∈ members, 0 < m.capacityBytes
  fits : exactCapacity members < 2 ^ 64

/-- Fewer members have less capacity. -/
theorem exactCapacity_le_of_sublist {kept all : List (SwarmMember F)} (h : kept.Sublist all) :
    exactCapacity kept ≤ exactCapacity all := by
  apply List.Sublist.sum_le_sum ((h.map SwarmMember.capacityBytes).map UInt64.toNat)
  exact fun _ _ => Nat.zero_le _

/-- Capacities are sound if they are some of sound capacities. -/
theorem SoundCapacities.of_sublist {members changed : List (SwarmMember F)}
    (h : SoundCapacities members)
    (hsub : (changed.map SwarmMember.capacityBytes).Sublist
      (members.map SwarmMember.capacityBytes)) : SoundCapacities changed where
  positive := fun m hm => by
    obtain ⟨m', hm', hsame⟩ := List.mem_map.mp (hsub.subset (List.mem_map_of_mem hm))
    rw [← hsame]
    exact h.positive m' hm'
  fits := by
    apply lt_of_le_of_lt _ h.fits
    apply List.Sublist.sum_le_sum (hsub.map UInt64.toNat)
    exact fun _ _ => Nat.zero_le _

/-- The capacity of the active members does not overflow. -/
theorem SoundCapacities.fits_active {members : List (SwarmMember F)} (h : SoundCapacities members) :
    exactCapacity (members.filter SwarmMember.isActive) < 2 ^ 64 :=
  lt_of_le_of_lt (exactCapacity_le_of_sublist List.filter_sublist) h.fits

/-- A recalculated ledger is correct. -/
theorem ledgerCorrect_recalculateCapacity {swarm : SwarmDefinition F}
    (h : SoundCapacities swarm.members) : LedgerCorrect swarm.recalculateCapacity := by
  have hexact := toNat_sum_of_lt h.fits_active
  exact hexact

/-! ## What a departure does to the capacities -/

section Departure

variable {members : List (SwarmMember F)} {departingPeer : NodeId}

/-- A promotion changes a role only. -/
theorem capacities_replaceDeparted_all (members : List (SwarmMember F)) (departingPeer : NodeId) :
    (replaceDeparted members departingPeer).1.map SwarmMember.capacityBytes =
      (removeMember members departingPeer).map SwarmMember.capacityBytes := by
  rw [replaceDeparted]
  dsimp only
  split
  · rename_i idx promoted hpromotion
    obtain ⟨standbyIdx, _, hmap⟩ := Option.bind_eq_some_iff.mp hpromotion
    obtain ⟨_, hget, heq⟩ := Option.map_eq_some_iff.mp hmap
    cases heq
    apply List.ext_getElem?
    intro j
    rw [List.getElem?_map, List.getElem?_map, List.getElem?_set]
    split
    · rename_i hidx
      rw [← hidx, hget]
      split
      · rfl
      · rename_i hbound
        rw [List.getElem?_eq_none (by omega)] at hget
        cases hget
    · rfl
  · cases removeMember members departingPeer with
    | nil => rfl
    | cons first rest =>
        rw [promoteFirst]
        split <;> rfl

/-- The capacities after a departure are some of those before. -/
theorem SoundCapacities.replaceDeparted (h : SoundCapacities members) (departingPeer : NodeId) :
    SoundCapacities (replaceDeparted members departingPeer).1 := by
  apply h.of_sublist
  rw [capacities_replaceDeparted_all, removeMember_eq_eraseP]
  exact List.eraseP_sublist.map _

/-- At most one active member departs. -/
theorem activeMembers_le_eraseP (members : List (SwarmMember F)) (departingPeer : NodeId) :
    (members.filter SwarmMember.isActive).length ≤
      ((members.eraseP fun m => m.peerId = departingPeer).filter
        SwarmMember.isActive).length + 1 := by
  rcases List.exists_or_eq_self_of_eraseP
    (fun m : SwarmMember F => decide (m.peerId = departingPeer)) members with
    hsame | ⟨m, front, back, _, _, hmembers, herased⟩
  · rw [hsame]
    exact Nat.le_succ _
  · rw [herased, hmembers, List.filter_append, List.filter_append, List.filter_cons]
    split <;> simp only [List.length_append, List.length_cons] <;> omega

/-- A promotion leaves at least as many active members as there were, and at least one. -/
theorem activeMembers_le_of_promotion {promotedPeer : NodeId}
    (h : (replaceDeparted members departingPeer).2 = some promotedPeer) :
    max 1 (members.filter SwarmMember.isActive).length ≤
      ((replaceDeparted members departingPeer).1.filter SwarmMember.isActive).length := by
  rcases exists_first_standby members with
    hactive | ⟨before, standby, after, rfl, hbefore, hstandby⟩
  · rw [replaceDeparted_of_no_standby hactive] at h
    cases h
  by_cases hmem : ∃ m ∈ before, m.peerId = departingPeer
  · rw [(replaceDeparted_of_mem_before after hbefore hstandby hmem).2]
    have hle := activeMembers_le_eraseP before departingPeer
    simp only [List.filter_append, List.length_append, List.filter_cons, hstandby,
      isActive_promote, Bool.false_eq_true, if_false, if_true, List.length_cons]
    omega
  have hnotMem : ∀ m ∈ before, m.peerId ≠ departingPeer := fun m hm hid => hmem ⟨m, hm, hid⟩
  by_cases hleaves : standby.peerId = departingPeer
  · have hreplaced := (replaceDeparted_of_leaves after hbefore hstandby hnotMem hleaves).2
    cases after with
    | nil =>
        rw [hreplaced] at h
        cases h
    | cons next later =>
        rw [hreplaced]
        simp only [List.filter_append, List.length_append, List.filter_cons, hstandby,
          isActive_promote, Bool.false_eq_true, if_false, if_true, List.length_cons]
        split
        · rw [List.length_cons]
          omega
        · omega
  · rw [(replaceDeparted_of_stays after hbefore hstandby hnotMem hleaves).2]
    have hle := activeMembers_le_eraseP after departingPeer
    simp only [List.filter_append, List.length_append, List.filter_cons, hstandby,
      isActive_promote, Bool.false_eq_true, if_false, if_true, List.length_cons]
    omega

/-- When nobody is promoted, the active members that stay are left, and the one that
departs was not active unless there is no standby at all. -/
theorem unpromoted_departure (h : (replaceDeparted members departingPeer).2 = none) :
    (replaceDeparted members departingPeer).1 = promoteFirst
        ((members.filter SwarmMember.isActive).eraseP fun m => m.peerId = departingPeer) ∧
      ((∀ m ∈ members, m.isActive = true) ∨
        ∀ m ∈ members.filter SwarmMember.isActive, m.peerId ≠ departingPeer) := by
  rcases exists_first_standby members with
    hactive | ⟨before, standby, after, rfl, hbefore, hstandby⟩
  · rw [replaceDeparted_of_no_standby hactive, removeMember_eq_eraseP,
      List.filter_eq_self.mpr hactive]
    exact ⟨rfl, Or.inl hactive⟩
  by_cases hmem : ∃ m ∈ before, m.peerId = departingPeer
  · rw [(replaceDeparted_of_mem_before after hbefore hstandby hmem).2] at h
    cases h
  have hnotMem : ∀ m ∈ before, m.peerId ≠ departingPeer := fun m hm hid => hmem ⟨m, hm, hid⟩
  by_cases hleaves : standby.peerId = departingPeer
  · have hreplaced := (replaceDeparted_of_leaves after hbefore hstandby hnotMem hleaves).2
    cases after with
    | nil =>
        have hfilter : (before ++ [standby]).filter SwarmMember.isActive = before := by
          rw [List.filter_append, List.filter_eq_self.mpr hbefore,
            List.filter_cons_of_neg (by simp [hstandby]), List.filter_nil, List.append_nil]
        rw [hreplaced, hfilter, List.eraseP_of_forall_not (by simpa using hnotMem)]
        exact ⟨rfl, Or.inr hnotMem⟩
    | cons next later =>
        rw [hreplaced] at h
        cases h
  · rw [(replaceDeparted_of_stays after hbefore hstandby hnotMem hleaves).2] at h
    cases h

end Departure

/-! ## What a redistribution does to the capacities -/

section Redistribution

variable [FloatOps F] {swarm : SwarmDefinition F} {departingPeer : NodeId} {totalLayers : ℕ}
  {action : RebalanceAction}

/-- The active members keep their capacities. -/
theorem capacities_redistributeLoop (totalCapacity : UInt64) (totalLayers layerCursor : ℕ)
    (members : List (SwarmMember F)) :
    ((redistributeLoop totalCapacity totalLayers layerCursor members).1.filter
        SwarmMember.isActive).map SwarmMember.capacityBytes =
      (members.filter SwarmMember.isActive).map SwarmMember.capacityBytes := by
  have hmap := map_redistributeLoop (f := fun m : SwarmMember F => (m.isActive, m.capacityBytes))
    (fun _ _ => rfl) totalCapacity totalLayers layerCursor members
  have hfilter := congrArg (fun l => (l.filter Prod.fst).map Prod.snd) hmap
  simpa only [List.filter_map, List.map_map, Function.comp_def] using hfilter

/-- A redistribution that succeeds over active members ends with a recalculation. -/
theorem redistributeLayers_recalculates (h : (redistributeLayers swarm totalLayers).1 = .ok action)
    (hne : swarm.activeMembers ≠ []) :
    (redistributeLayers swarm totalLayers).2 =
      recalculateCapacity { swarm with
        members := (redistributeLoop (swarm.activeMembers.map SwarmMember.capacityBytes).sum
          totalLayers 0 swarm.members).1 } := by
  rw [redistributeLayers, if_neg (by simpa using hne)] at h ⊢
  dsimp only at h ⊢
  split at h
  · cases h
  · rename_i hcapacity
    rw [if_neg hcapacity]

/-- What a redistribution over active members leaves behind. -/
structure Redistributed (before after : SwarmDefinition F) : Prop where
  status : after.status = before.status
  active : after.activeMemberCount = before.activeMemberCount
  capacities : SoundCapacities before.members → SoundCapacities after.members
  ledger : SoundCapacities before.members → LedgerCorrect after

theorem redistributed_of_ok (h : (redistributeLayers swarm totalLayers).1 = .ok action)
    (hne : swarm.activeMembers ≠ []) :
    Redistributed swarm (redistributeLayers swarm totalLayers).2 := by
  rw [redistributeLayers_recalculates h hne]
  have hall : (redistributeLoop (swarm.activeMembers.map SwarmMember.capacityBytes).sum
      totalLayers 0 swarm.members).1.map SwarmMember.capacityBytes =
        swarm.members.map SwarmMember.capacityBytes :=
    map_redistributeLoop (fun _ _ => rfl) _ _ _ _
  have hsound : SoundCapacities swarm.members → SoundCapacities (redistributeLoop
      (swarm.activeMembers.map SwarmMember.capacityBytes).sum totalLayers 0 swarm.members).1 :=
    fun hbefore => hbefore.of_sublist (by rw [hall])
  exact {
    status := rfl
    active := by
      have hactive := congrArg List.length (capacities_redistributeLoop
        (swarm.activeMembers.map SwarmMember.capacityBytes).sum totalLayers 0 swarm.members)
      rw [List.length_map, List.length_map] at hactive
      exact hactive
    capacities := hsound
    ledger := fun hbefore => ledgerCorrect_recalculateCapacity (hsound hbefore) }

/-- A departure that succeeds disbands a swarm in which nobody can be promoted and too
few stay active; otherwise it redistributes over the changed members, who are enough
or as many as before. -/
theorem handleMemberDeparture_outcome
    (h : (handleMemberDeparture swarm departingPeer totalLayers).1 = .ok action) :
    let change := replaceDeparted swarm.members departingPeer
    let next := (handleMemberDeparture swarm departingPeer totalLayers).2
    (change.2 = none ∧ (change.1.filter SwarmMember.isActive).length < minSwarmSize ∧
        next = { swarm with members := change.1, status := .disbanded }) ∨
      ∃ changed : SwarmDefinition F, changed.members = change.1 ∧ Redistributed changed next ∧
        (changed.status = swarm.status ∧ swarm.activeMemberCount ≤ changed.activeMemberCount ∨
          minSwarmSize ≤ changed.activeMemberCount) := by
  rw [handleMemberDeparture] at h ⊢
  dsimp only at h ⊢
  cases hpromoted : (replaceDeparted swarm.members departingPeer).2 with
  | some promotedPeer =>
      simp only [hpromoted] at h ⊢
      have hcount := activeMembers_le_of_promotion hpromoted
      have hsome := le_trans (le_max_left 1 _) hcount
      have hmany := le_trans (le_max_right 1 _) hcount
      set changed : SwarmDefinition F :=
        { swarm with members := (replaceDeparted swarm.members departingPeer).1 } with hchanged
      have hredistributed : ∀ redistribution,
          (redistributeLayers changed totalLayers).1 = .ok redistribution →
            Redistributed changed (redistributeLayers changed totalLayers).2 :=
        fun _ hresult => redistributed_of_ok hresult (List.ne_nil_of_length_pos hsome)
      rcases hresult : redistributeLayers changed totalLayers with ⟨redistribution, result⟩
      rw [hresult] at h hredistributed
      cases redistribution with
      | error e => cases h
      | ok redistribution =>
          right
          refine ⟨changed, rfl, ?_, Or.inl ⟨rfl, hmany⟩⟩
          have hafter := hredistributed redistribution rfl
          cases redistribution <;> exact hafter
  | none =>
      simp only [hpromoted] at h ⊢
      split at h
      · rename_i hfew
        rw [if_pos hfew]
        exact Or.inl ⟨trivial, hfew, rfl⟩
      · rename_i henough
        rw [if_neg henough]
        have hpos : 0 < minSwarmSize := by decide
        have hne := List.ne_nil_of_length_pos (lt_of_lt_of_le hpos (not_lt.mp henough))
        exact Or.inr ⟨_, rfl, redistributed_of_ok h hne, Or.inr (not_lt.mp henough)⟩

end Redistribution

/-! ## Events -/

section Events

variable [FloatOps F] {swarm next : SwarmDefinition F} {event : SwarmEvent F}

/-- Events that a rebalance handles without error; it may disband the swarm. -/
inductive RebalanceStep : SwarmDefinition F → SwarmEvent F → SwarmDefinition F → Prop
  | memberLeft {swarm : SwarmDefinition F} {peerId : NodeId} {totalLayers : ℕ}
      {action : RebalanceAction}
      (result : (rebalance swarm (.memberLeft peerId) totalLayers).1 = .ok action) :
      RebalanceStep swarm (.memberLeft peerId totalLayers)
        (rebalance swarm (.memberLeft peerId) totalLayers).2
  | memberFailed {swarm : SwarmDefinition F} {peerId : NodeId} {totalLayers : ℕ}
      {action : RebalanceAction}
      (result : (rebalance swarm (.memberFailed peerId) totalLayers).1 = .ok action) :
      RebalanceStep swarm (.memberFailed peerId totalLayers)
        (rebalance swarm (.memberFailed peerId) totalLayers).2
  | workerJoined {swarm : SwarmDefinition F} {member : SwarmMember F} {totalLayers : ℕ}
      {action : RebalanceAction} (role : member.role = .worker)
      (positive : 0 < member.capacityBytes)
      (fits : exactCapacity (swarm.appendMember member).members < 2 ^ 64)
      (result : (rebalance (swarm.appendMember member) (.memberJoined member.peerId)
        totalLayers).1 = .ok action) :
      RebalanceStep swarm (.workerJoined member totalLayers)
        (rebalance (swarm.appendMember member) (.memberJoined member.peerId) totalLayers).2

/-- An active member departs, there is no standby, and too few active members are
left. -/
structure UnreplacedLoss (swarm : SwarmDefinition F) (departingPeer : NodeId) : Prop where
  active : ∃ m ∈ swarm.activeMembers, m.peerId = departingPeer
  noStandby : ∀ m ∈ swarm.members, m.isActive = true
  tooFew : swarm.activeMemberCount ≤ minSwarmSize

/-- The event is no unreplaced loss. -/
def SustainableEvent (swarm : SwarmDefinition F) (event : SwarmEvent F) : Prop :=
  ∀ departingPeer ∈ event.departure, ¬ UnreplacedLoss swarm departingPeer

/-- Every handled event is a departure or a join. -/
theorem RebalanceStep.departure_or_join (step : RebalanceStep swarm event next) :
    (∃ departingPeer totalLayers action, event.departure = some departingPeer ∧
        (handleMemberDeparture swarm departingPeer totalLayers).1 = .ok action ∧
        next = (handleMemberDeparture swarm departingPeer totalLayers).2) ∨
      event.departure = none ∧ ∃ member : SwarmMember F, member.isActive = true ∧
        0 < member.capacityBytes ∧
        exactCapacity (swarm.appendMember member).members < 2 ^ 64 ∧
        Redistributed (swarm.appendMember member) next := by
  cases step with
  | memberLeft result => exact Or.inl ⟨_, _, _, rfl, result, rfl⟩
  | memberFailed result => exact Or.inl ⟨_, _, _, rfl, result, rfl⟩
  | workerJoined role positive fits result =>
      rename_i member totalLayers action
      have hactive : member.isActive = true := by simp [SwarmMember.isActive, role]
      have hne : (swarm.appendMember member).activeMembers ≠ [] := by
        rw [activeMembers, appendMember, List.filter_append, List.filter_cons_of_pos hactive]
        exact List.append_ne_nil_of_right_ne_nil _ (List.cons_ne_nil _ _)
      exact Or.inr ⟨rfl, member, hactive, positive, fits, redistributed_of_ok result hne⟩

/-- Every event keeps a viable swarm viable. -/
theorem viable_of_step (hviable : swarm.Viable) (step : RebalanceStep swarm event next) :
    next.Viable := by
  rcases step.departure_or_join with
    ⟨departingPeer, totalLayers, action, _, hresult, rfl⟩ |
      ⟨_, member, hactive, _, _, hredistributed⟩
  · rcases handleMemberDeparture_outcome hresult with
      ⟨_, _, hdisbanded⟩ | ⟨changed, _, hredistributed, hcount⟩
    · exact Or.inl (by rw [hdisbanded])
    · rw [Viable, hredistributed.status, hredistributed.active]
      rcases hcount with ⟨hstatus, hle⟩ | henough
      · rw [hstatus]
        exact hviable.imp_right fun henough => le_trans henough hle
      · exact Or.inr henough
  · rw [Viable, hredistributed.status, hredistributed.active]
    apply hviable.imp_right
    intro henough
    apply le_trans henough
    exact ((List.sublist_append_left swarm.members [member]).filter _).length_le

omit [FloatOps F] in
/-- A new member of some capacity that fits keeps the capacities sound. -/
theorem SoundCapacities.appendMember {member : SwarmMember F}
    (h : SoundCapacities swarm.members) (hpositive : 0 < member.capacityBytes)
    (hfits : exactCapacity (swarm.appendMember member).members < 2 ^ 64) :
    SoundCapacities (swarm.appendMember member).members where
  positive := fun m hm => by
    rcases List.mem_append.mp hm with hold | hnew
    · exact h.positive m hold
    · rw [List.mem_singleton.mp hnew]
      exact hpositive
  fits := hfits

/-- Every event keeps the capacities sound. -/
theorem soundCapacities_of_step (hsound : SoundCapacities swarm.members)
    (step : RebalanceStep swarm event next) : SoundCapacities next.members := by
  rcases step.departure_or_join with
    ⟨departingPeer, totalLayers, action, _, hresult, rfl⟩ |
      ⟨_, member, _, hpositive, hfits, hredistributed⟩
  · have hchanged := hsound.replaceDeparted departingPeer
    rcases handleMemberDeparture_outcome hresult with
      ⟨_, _, hdisbanded⟩ | ⟨changed, hmembers, hredistributed, _⟩
    · rw [hdisbanded]
      exact hchanged
    · exact hredistributed.capacities (by rw [hmembers]; exact hchanged)
  · exact hredistributed.capacities (hsound.appendMember hpositive hfits)

omit [FloatOps F] in
/-- Taking a peer of some capacity out of the members changes their exact capacity. -/
theorem exactCapacity_eraseP_iff {members : List (SwarmMember F)} {departingPeer : NodeId}
    (hpositive : ∀ m ∈ members, 0 < m.capacityBytes) :
    exactCapacity (members.eraseP fun m => m.peerId = departingPeer) = exactCapacity members ↔
      ∀ m ∈ members, m.peerId ≠ departingPeer := by
  refine ⟨fun hsame m hm hid => ?_, fun hnotMem => ?_⟩
  · obtain ⟨departed, front, back, _, _, hmembers, herased⟩ :=
      List.exists_of_eraseP (p := fun m : SwarmMember F => m.peerId = departingPeer) hm
        (by simpa using hid)
    have hdeparted : 0 < departed.capacityBytes.toNat :=
      UInt64.lt_iff_toNat_lt.mp (hpositive departed (by simp [hmembers]))
    rw [herased, hmembers] at hsame
    simp only [exactCapacity, List.map_append, List.map_cons, List.sum_append,
      List.sum_cons] at hsame
    omega
  · rw [List.eraseP_of_forall_not (by simpa using hnotMem)]

omit [FloatOps F] in
/-- Among active members, the first one taking over leaves as many active. -/
theorem length_active_promoteFirst {members : List (SwarmMember F)}
    (hactive : ∀ m ∈ members, m.isActive = true) :
    ((promoteFirst members).filter SwarmMember.isActive).length = members.length := by
  have hlength := congrArg List.length (capacities_promoteFirst hactive)
  rwa [List.length_map, List.length_map] at hlength

omit [FloatOps F] in
/-- A disbanding keeps the ledger exactly when the departing peer was not active. -/
theorem ledgerCorrect_disbanded_iff {departingPeer : NodeId}
    (hsound : SoundCapacities swarm.members) (hledger : swarm.LedgerCorrect)
    (hunpromoted : (replaceDeparted swarm.members departingPeer).2 = none) :
    LedgerCorrect { swarm with
        members := (replaceDeparted swarm.members departingPeer).1
        status := .disbanded } ↔
      ∀ m ∈ swarm.activeMembers, m.peerId ≠ departingPeer := by
  have hkept : ∀ m ∈ swarm.activeMembers.eraseP fun m => m.peerId = departingPeer,
      m.isActive = true :=
    fun m hm => (List.mem_filter.mp (List.mem_of_mem_eraseP hm)).2
  have hpositive : ∀ m ∈ swarm.activeMembers, 0 < m.capacityBytes :=
    fun m hm => hsound.positive m (List.mem_filter.mp hm).1
  have hafter : exactCapacity ((replaceDeparted swarm.members departingPeer).1.filter
      SwarmMember.isActive) =
        exactCapacity (swarm.activeMembers.eraseP fun m => m.peerId = departingPeer) := by
    rw [(unpromoted_departure hunpromoted).1, exactCapacity]
    exact congrArg (fun capacities => (capacities.map UInt64.toNat).sum)
      (capacities_promoteFirst hkept)
  rw [← exactCapacity_eraseP_iff hpositive, LedgerCorrect, hledger, eq_comm, ← hafter]
  rfl

/-- **When an event keeps the ledger.** An event leaves the cached aggregate equal to the
capacity of the active members exactly when it is no unreplaced loss. -/
theorem ledgerCorrect_iff_of_step (hsound : SoundCapacities swarm.members)
    (hledger : swarm.LedgerCorrect) (step : RebalanceStep swarm event next) :
    next.LedgerCorrect ↔ SustainableEvent swarm event := by
  rcases step.departure_or_join with
    ⟨departingPeer, totalLayers, action, hdeparture, hresult, rfl⟩ |
      ⟨hdeparture, member, _, hpositive, hfits, hredistributed⟩
  · rw [SustainableEvent, hdeparture]
    simp only [Option.mem_some_iff, forall_eq']
    have hkept : ∀ m ∈ swarm.activeMembers.eraseP fun m => m.peerId = departingPeer,
        m.isActive = true :=
      fun m hm => (List.mem_filter.mp (List.mem_of_mem_eraseP hm)).2
    have hlength := length_active_promoteFirst hkept
    rcases handleMemberDeparture_outcome hresult with
      ⟨hunpromoted, hfew, hdisbanded⟩ | ⟨changed, hmembers, hredistributed, hcount⟩
    · rw [hdisbanded, ledgerCorrect_disbanded_iff hsound hledger hunpromoted]
      obtain ⟨hreplaced, hnotActive⟩ := unpromoted_departure hunpromoted
      refine ⟨fun hnotMem hloss => ?_, fun hsustainable m hm hid => hsustainable ?_⟩
      · obtain ⟨m, hm, hid⟩ := hloss.active
        exact hnotMem m hm hid
      · rw [hreplaced] at hfew
        have herase := List.length_eraseP_of_mem (p := fun m : SwarmMember F =>
          m.peerId = departingPeer) hm (by simpa using hid)
        exact {
          active := ⟨m, hm, hid⟩
          noStandby := hnotActive.resolve_right fun hnone => hnone m hm hid
          tooFew := by
            rw [activeMembers] at hlength herase
            rw [activeMemberCount, activeMembers]
            omega }
    · refine iff_of_true (hredistributed.ledger ?_) fun hloss => ?_
      · rw [hmembers]
        exact hsound.replaceDeparted departingPeer
      · obtain ⟨m, hm, hid⟩ := hloss.active
        have herase := List.length_eraseP_of_mem (p := fun m : SwarmMember F =>
          m.peerId = departingPeer) hm (by simpa using hid)
        have hall := List.filter_eq_self.mpr hloss.noStandby
        have hchanged : changed.activeMemberCount = swarm.activeMemberCount - 1 := by
          rw [activeMemberCount, activeMembers, hmembers,
            replaceDeparted_of_no_standby hloss.noStandby, removeMember_eq_eraseP]
          rw [activeMembers, hall] at hlength herase
          rw [hlength, herase, activeMemberCount, activeMembers, hall]
        have htooFew := hloss.tooFew
        have hpos : 0 < swarm.activeMemberCount := List.length_pos_of_mem hm
        have hsize : 0 < minSwarmSize := by decide
        omega
  · rw [SustainableEvent, hdeparture]
    apply iff_of_true
    · exact hredistributed.ledger (hsound.appendMember hpositive hfits)
    · intro _ hnone
      cases hnone

/-! ## Runs -/

/-- Viability holds along every run. -/
theorem viable_of_run {start : SwarmDefinition F} {events : List (SwarmEvent F)}
    (run : Run RebalanceStep start events swarm) (hviable : start.Viable) : swarm.Viable := by
  apply run.invariant _ hviable
  exact fun hviable step => viable_of_step hviable step

/-- What a run of sustainable events keeps. -/
structure LedgerInvariant (swarm : SwarmDefinition F) : Prop where
  viable : swarm.Viable
  ledger : swarm.LedgerCorrect
  capacities : SoundCapacities swarm.members

theorem LedgerInvariant.step (h : LedgerInvariant swarm)
    (step : Guarded SustainableEvent RebalanceStep swarm event next) : LedgerInvariant next where
  viable := viable_of_step h.viable step.2
  ledger := (ledgerCorrect_iff_of_step h.capacities h.ledger step.2).mpr step.1
  capacities := soundCapacities_of_step h.capacities step.2

/-- **Viability and the capacity ledger.** Along every run of events that are handled
without error and are no unreplaced losses, the swarm is disbanded or has enough active
members, and its cached aggregate is the capacity of the active members. -/
theorem viable_and_ledger_of_run {start : SwarmDefinition F} {events : List (SwarmEvent F)}
    (run : Run (Guarded SustainableEvent RebalanceStep) start events swarm)
    (hactive : minSwarmSize ≤ start.activeMemberCount)
    (hsound : SoundCapacities start.members) (hledger : start.LedgerCorrect) :
    swarm.Viable ∧ swarm.LedgerCorrect := by
  have hstart : LedgerInvariant start := ⟨Or.inr hactive, hledger, hsound⟩
  have hinv : LedgerInvariant swarm := run.invariant (fun h step => h.step step) hstart
  exact ⟨hinv.viable, hinv.ledger⟩

end Events

/-! ## Two swarms -/

/-- A leader, two workers and a standby with a correct ledger. -/
def countedSwarm : SwarmDefinition ℚ := spareSwarm.recalculateCapacity

/-- The same swarm after its standby has replaced the failed leader. -/
def countedSwarmAfterFailure : SwarmDefinition ℚ :=
  (rebalance countedSwarm (.memberFailed (.ofByte 1)) 32).2

/-- The leader fails and is replaced, and then a worker leaves. -/
theorem viable_and_ledger_of_run_counted :
    Viable (rebalance countedSwarmAfterFailure (.memberLeft (.ofByte 2)) 32).2 ∧
      LedgerCorrect (rebalance countedSwarmAfterFailure (.memberLeft (.ofByte 2)) 32).2 := by
  have hfailed : (rebalance countedSwarm (.memberFailed (.ofByte 1)) 32).1 =
      .ok (.standbyPromoted (.ofByte 4)
        [(.ofByte 2, ⟨0, 11⟩), (.ofByte 3, ⟨11, 22⟩), (.ofByte 4, ⟨22, 32⟩)]) := by
    decide +kernel
  have hleft : (rebalance countedSwarmAfterFailure (.memberLeft (.ofByte 2)) 32).1 =
      .ok (.redistributed [(.ofByte 3, ⟨0, 16⟩), (.ofByte 4, ⟨16, 32⟩)]) := by
    decide +kernel
  have hreplaced : SustainableEvent countedSwarm (.memberFailed (.ofByte 1) 32) := by
    rintro _ ⟨⟩ hloss
    exact absurd hloss.noStandby (by decide)
  have henough : SustainableEvent countedSwarmAfterFailure (.memberLeft (.ofByte 2) 32) := by
    rintro _ ⟨⟩ hloss
    exact absurd hloss.tooFew (by decide +kernel)
  have first : Run (Guarded SustainableEvent RebalanceStep) countedSwarm
      [.memberFailed (.ofByte 1) 32] countedSwarmAfterFailure :=
    Run.single ⟨hreplaced, RebalanceStep.memberFailed hfailed⟩
  have both := first.snoc ⟨henough, RebalanceStep.memberLeft hleft⟩
  exact viable_and_ledger_of_run both (by decide) ⟨by decide, by decide⟩ (by decide)

/-- Two members with a correct ledger. -/
def pairSwarm : SwarmDefinition ℚ := recalculateCapacity (exampleSwarm
  [exampleMember 1 .leader ⟨0, 16⟩ 8, exampleMember 2 .worker ⟨16, 32⟩ 8])

/-- When one of two members leaves, the swarm is disbanded and still advertises the
capacity of both. -/
theorem disbanding_keeps_stale_aggregate :
    (pairSwarm.members.map SwarmMember.peerId).Nodup ∧ OneLeader pairSwarm.members ∧
      minSwarmSize ≤ pairSwarm.activeMemberCount ∧ SoundCapacities pairSwarm.members ∧
      LedgerCorrect pairSwarm ∧
      RebalanceStep pairSwarm (.memberLeft (.ofByte 2) 32)
        (rebalance pairSwarm (.memberLeft (.ofByte 2)) 32).2 ∧
      (rebalance pairSwarm (.memberLeft (.ofByte 2)) 32).2.status = .disbanded ∧
      ¬ LedgerCorrect (rebalance pairSwarm (.memberLeft (.ofByte 2)) 32).2 := by
  have hleft : (rebalance pairSwarm (.memberLeft (.ofByte 2)) 32).1 = .ok .disbanded := by
    decide +kernel
  exact ⟨by decide, by decide, by decide, ⟨by decide, by decide⟩, by decide,
    RebalanceStep.memberLeft hleft, by decide +kernel, by decide +kernel⟩

end HiveBear.Mesh.SwarmDefinition
