/-
# Formation conserves peers

`form_swarms` moves every peer it is given to one place: the members of a swarm,
the drafters, or the unplaced. Weak peers are sorted out first. The eligible ones
are bookkept by the `assigned` flags, and the invariant of the formation loop says
what these flags mean: the flagged peers are exactly the members emitted so far,
each of them once.

A group is gathered from unflagged peers only, and no peer twice. A gathered peer
that gets no layers is neither emitted nor flagged, so it stays available and ends
up in a later swarm or unplaced.
-/

import HiveBear.Mesh.Swarm.FormedSwarms
import Mathlib.Data.List.Sigma

namespace HiveBear.Mesh.Formation

open IntervalTiling

variable {F : Type*} [FloatOps F] {config : FormationConfig F} {models : List ModelSizeClass}
  {swarmEligible : List (PeerInfo F)} {swarmIds : ℕ → SwarmId}

/-! ## Gathering -/

section Gather

variable {matrix : ℕ × ℕ → Option F} {assigned : ℕ → Bool} {i : ℕ}

/-- Only unassigned peers are gathered. -/
theorem unassigned_gatherCandidates {candidates : List (Candidate F)}
    (h : ∀ c ∈ candidates, assigned c.2 = false) (newcomers : List (Candidate F)) :
    ∀ c ∈ gatherCandidates matrix config assigned i candidates newcomers,
      assigned c.2 = false := by
  induction newcomers generalizing candidates with
  | nil => exact h
  | cons newcomer rest ih =>
      rw [gatherCandidates]
      apply ih
      split
      · rename_i hadmitted
        simp only [Bool.and_eq_true, Bool.not_eq_true', Bool.or_eq_false_iff] at hadmitted
        intro c hc
        rcases List.mem_append.mp hc with hold | hnew
        · exact h c hold
        · rw [List.mem_singleton.mp hnew]
          exact hadmitted.1.1.2
      · exact h

/-- Nobody is gathered twice: the newcomers have different indices, and the one the
group is gathered around is passed over. -/
theorem nodup_gatherCandidates {candidates newcomers : List (Candidate F)}
    (hcandidates : (candidates.map Prod.snd).Nodup) (hnewcomers : (newcomers.map Prod.snd).Nodup)
    (hmeet : ∀ c ∈ candidates, ∀ newcomer ∈ newcomers, c.2 = newcomer.2 → newcomer.2 = i) :
    ((gatherCandidates matrix config assigned i candidates newcomers).map Prod.snd).Nodup := by
  induction newcomers generalizing candidates with
  | nil => exact hcandidates
  | cons newcomer rest ih =>
      rw [List.map_cons, List.nodup_cons] at hnewcomers
      have hkept : ∀ c ∈ candidates, ∀ later ∈ rest, c.2 = later.2 → later.2 = i :=
        fun c hc later hlater => hmeet c hc later (List.mem_cons_of_mem _ hlater)
      rw [gatherCandidates]
      split
      · rename_i hadmitted
        simp only [Bool.and_eq_true, Bool.not_eq_true', Bool.or_eq_false_iff, beq_eq_false_iff_ne]
          at hadmitted
        have hother : newcomer.2 ≠ i := fun h => hadmitted.1.1.1 h.symm
        apply ih _ hnewcomers.2
        · intro c hc later hlater hsame
          rcases List.mem_append.mp hc with hold | hnew
          · exact hkept c hold later hlater hsame
          · rw [List.mem_singleton.mp hnew] at hsame
            exact absurd (hsame ▸ List.mem_map_of_mem hlater) hnewcomers.1
        · rw [List.map_append, List.map_singleton, List.nodup_append]
          refine ⟨hcandidates, List.nodup_singleton _, fun index hindex later hlater hsame => ?_⟩
          obtain ⟨c, hc, rfl⟩ := List.mem_map.mp hindex
          rw [List.mem_singleton.mp hlater] at hsame
          exact hother (hmeet c hc newcomer List.mem_cons_self hsame)
      · exact ih hcandidates hnewcomers.2 hkept

end Gather

/-- The candidates of an accepted group are unassigned, and no two have the same
index. -/
theorem candidates_of_accepted {assigned : ℕ → Bool} {i : ℕ} {group : Group F}
    (h : acceptedGroup config models swarmEligible assigned i = some group) :
    (∀ c ∈ group.sortedCandidates, assigned c.2 = false) ∧
      (group.sortedCandidates.map Prod.snd).Nodup := by
  rw [acceptedGroup] at h
  split at h
  · cases h
  rename_i hunassigned
  obtain ⟨peer, hpeer, h⟩ := Option.bind_eq_some_iff.mp h
  dsimp only at h
  have hgathered : ∀ c ∈ gatherCandidates (buildLatencyMatrix swarmEligible) config assigned i
      [(peer, i)] swarmEligible.zipIdx, assigned c.2 = false :=
    unassigned_gatherCandidates (by simpa using hunassigned) swarmEligible.zipIdx
  have hnodup : ((gatherCandidates (buildLatencyMatrix swarmEligible) config assigned i
      [(peer, i)] swarmEligible.zipIdx).map Prod.snd).Nodup :=
    nodup_gatherCandidates (List.nodup_singleton i) (List.nodup_zipIdx_map_snd swarmEligible)
      (fun c hc newcomer _ hsame => by rw [← hsame, List.mem_singleton.mp hc])
  generalize gatherCandidates (buildLatencyMatrix swarmEligible) config assigned i
    [(peer, i)] swarmEligible.zipIdx = candidates at h hgathered hnodup
  split at h
  · cases h
  split at h
  · cases h
  obtain ⟨model, _, h⟩ := Option.bind_eq_some_iff.mp h
  split at h
  · cases h
  cases h
  have hperm := StableSort.perm_sortBy compareCandidates candidates
  exact ⟨fun c hc => hgathered c (hperm.subset hc), (hperm.map Prod.snd).nodup_iff.mpr hnodup⟩

/-! ## The bookkeeping of the formation loop -/

/-- The candidates of a group that get layers, in order. -/
def Group.served (config : FormationConfig F) (group : Group F) : List (Candidate F) :=
  (deal (group.demand config) group.model.totalLayers 0 group.sortedCandidates).map Prod.fst

/-- The stages of a group are those of its served candidates. -/
theorem stages_eq_served (config : FormationConfig F) (swarmEligible : List (PeerInfo F))
    (group : Group F) :
    (groupStages config swarmEligible group).map (fun stage => (stage.1.peerId, stage.2)) =
      (group.served config).map (fun c => (c.1.nodeId, c.2)) := by
  have h := congrArg (List.map fun x => (x.1, x.2.1))
    (groupStages_eq_deal config swarmEligible group)
  rw [List.map_map, List.map_map] at h
  rw [Group.served, List.map_map]
  exact h

/-- The members of a formed swarm have the capacities of its served candidates. -/
theorem capacities_groupSwarm (config : FormationConfig F) (swarmEligible : List (PeerInfo F))
    (swarmId : SwarmId) (group : Group F) :
    (groupSwarm config swarmEligible swarmId group).activeMembers.map SwarmMember.capacityBytes =
      (group.served config).map fun c => c.1.capacity := by
  rw [activeMembers_groupSwarm, Group.served, List.map_map, List.map_map, groupStages]
  exact map_assignStages _ _ _ _ _ (fun _ _ _ _ => rfl) _ _ _

omit [FloatOps F] in
/-- Candidates with different indices are some of the eligible peers. -/
theorem capacityFits_candidates {candidates : List (Candidate F)}
    (hfits : PeerInfo.CapacityFits swarmEligible) (hnodup : (candidates.map Prod.snd).Nodup)
    (hmem : ∀ c ∈ candidates, swarmEligible[c.2]? = some c.1) :
    PeerInfo.CapacityFits (candidates.map Prod.fst) := by
  have hsubperm : candidates.Subperm swarmEligible.zipIdx := by
    apply List.subperm_of_subset (List.Nodup.of_map Prod.snd hnodup)
    intro c hc
    exact List.mem_zipIdx_iff_getElem?.mpr (hmem c hc)
  obtain ⟨kept, hperm, hsub⟩ := hsubperm
  have hkept := hsub.map Prod.fst
  rw [List.zipIdx_map_fst] at hkept
  exact (hfits.sublist hkept).perm (hperm.map Prod.fst).symm

/-- The candidates of an accepted group are some of the eligible peers. -/
theorem capacityFits_sortedCandidates {assigned : ℕ → Bool} {i : ℕ} {group : Group F}
    (hfits : PeerInfo.CapacityFits swarmEligible)
    (hgroup : acceptedGroup config models swarmEligible assigned i = some group) :
    PeerInfo.CapacityFits (group.sortedCandidates.map Prod.fst) :=
  capacityFits_candidates hfits (candidates_of_accepted hgroup).2
    (Group.valid_of_accepted hgroup).eligible

/-- The served ones are some of them. -/
theorem capacityFits_served {assigned : ℕ → Bool} {i : ℕ} {group : Group F}
    (hfits : PeerInfo.CapacityFits swarmEligible)
    (hgroup : acceptedGroup config models swarmEligible assigned i = some group) :
    PeerInfo.CapacityFits ((group.served config).map Prod.fst) := by
  have hserved : (group.served config).Sublist group.sortedCandidates := deal_sublist _ _ _ _
  exact (capacityFits_sortedCandidates hfits hgroup).sublist (hserved.map Prod.fst)

/-- The members of these swarms, in order. -/
def memberIds (swarms : List (SwarmDefinition F)) : List NodeId :=
  swarms.flatMap fun swarm => swarm.members.map SwarmMember.peerId

/-- The flags of a formation state are right: `members` are the eligible peers that
became members so far, each once, and they are the ones that are flagged. -/
structure Bookkept (swarmEligible : List (PeerInfo F)) (state : FormationState F)
    (members : List (Candidate F)) : Prop where
  emitted : memberIds state.swarms = members.map fun c => c.1.nodeId
  eligible : ∀ c ∈ members, c ∈ swarmEligible.zipIdx
  nodup : (members.map Prod.snd).Nodup
  flagged : ∀ j, state.assigned j = true ↔ j ∈ members.map Prod.snd

omit [FloatOps F] in
/-- Before the first iteration there are no members. -/
theorem bookkept_start : Bookkept swarmEligible (⟨fun _ => false, []⟩ : FormationState F) [] where
  emitted := rfl
  eligible := fun c hc => nomatch hc
  nodup := List.nodup_nil
  flagged := fun j => by simp

/-- An accepted group adds its served candidates to the members. -/
theorem Bookkept.accept {state : FormationState F} {members : List (Candidate F)} {i : ℕ}
    {group : Group F} (h : Bookkept swarmEligible state members)
    (hgroup : acceptedGroup config models swarmEligible state.assigned i = some group) :
    Bookkept swarmEligible (formStep config models swarmEligible swarmIds state i)
      (members ++ group.served config) := by
  have hvalid := Group.valid_of_accepted hgroup
  obtain ⟨hunassigned, hnodup⟩ := candidates_of_accepted hgroup
  have hsub : (group.served config).Sublist group.sortedCandidates :=
    deal_sublist (group.demand config) group.model.totalLayers 0 group.sortedCandidates
  have hstages := stages_eq_served config swarmEligible group
  have hindices : (groupStages config swarmEligible group).map Prod.snd =
      (group.served config).map Prod.snd := by
    have hmap := congrArg (List.map Prod.snd) hstages
    rwa [List.map_map, List.map_map] at hmap
  rw [formStep, hgroup]
  exact {
    emitted := by
      have hmap := congrArg (List.map Prod.fst) hstages
      rw [List.map_map, List.map_map] at hmap
      have hnew : (groupSwarm config swarmEligible (swarmIds state.swarms.length)
          group).members.map SwarmMember.peerId =
            (group.served config).map fun c => c.1.nodeId := by
        rw [groupSwarm, SwarmDefinition.members_recalculateCapacity, List.map_map]
        exact hmap
      rw [memberIds, List.flatMap_append, List.flatMap_singleton, hnew, List.map_append,
        ← h.emitted]
      rfl
    eligible := fun c hc => by
      rcases List.mem_append.mp hc with hold | hnew
      · exact h.eligible c hold
      · exact List.mem_zipIdx_iff_getElem?.mpr (hvalid.eligible c (hsub.subset hnew))
    nodup := by
      rw [List.map_append, List.nodup_append]
      refine ⟨h.nodup, (hsub.map Prod.snd).nodup hnodup, fun j hj k hk hsame => ?_⟩
      obtain ⟨c, hc, rfl⟩ := List.mem_map.mp hk
      have hflag := (h.flagged j).mpr hj
      rw [hsame, hunassigned c (hsub.subset hc)] at hflag
      cases hflag
    flagged := fun j => by
      rw [List.map_append, List.mem_append, ← h.flagged j, ← hindices, Bool.or_eq_true,
        List.any_eq_true, List.mem_map]
      simp only [beq_iff_eq] }

/-- The flags are right before every iteration. -/
theorem exists_bookkept_formLoop (config : FormationConfig F) (models : List ModelSizeClass)
    (swarmEligible : List (PeerInfo F)) (swarmIds : ℕ → SwarmId) (n : ℕ) :
    ∃ members, Bookkept swarmEligible (formLoop config models swarmEligible swarmIds n)
      members := by
  induction n with
  | zero => exact ⟨[], bookkept_start⟩
  | succ n ih =>
      obtain ⟨members, hmembers⟩ := ih
      have hstep : formLoop config models swarmEligible swarmIds (n + 1) =
          formStep config models swarmEligible swarmIds
            (formLoop config models swarmEligible swarmIds n) n := by
        rw [formLoop, List.range_succ, List.foldl_concat, formLoop]
      rw [hstep]
      cases hgroup : acceptedGroup config models swarmEligible
        (formLoop config models swarmEligible swarmIds n).assigned n with
      | none =>
          rw [formStep, hgroup]
          exact ⟨members, hmembers⟩
      | some group => exact ⟨_, hmembers.accept hgroup⟩

/-- The eligible peers that are not flagged. -/
def unassignedIds (swarmEligible : List (PeerInfo F)) (assigned : ℕ → Bool) : List NodeId :=
  (swarmEligible.zipIdx.filter fun c => !assigned c.2).map fun c => c.1.nodeId

omit [FloatOps F] in
/-- Members and unflagged peers together are the eligible peers. -/
theorem Bookkept.perm {state : FormationState F} {members : List (Candidate F)}
    (h : Bookkept swarmEligible state members) :
    (memberIds state.swarms ++ unassignedIds swarmEligible state.assigned).Perm
      (swarmEligible.map PeerInfo.nodeId) := by
  have hindices := List.nodup_zipIdx_map_snd swarmEligible
  have hmembers : members.Perm (swarmEligible.zipIdx.filter fun c => state.assigned c.2) := by
    rw [List.perm_ext_iff_of_nodup (List.Nodup.of_map Prod.snd h.nodup)
      ((List.Nodup.of_map Prod.snd hindices).filter _)]
    intro c
    rw [List.mem_filter, h.flagged]
    refine ⟨fun hc => ⟨h.eligible c hc, List.mem_map_of_mem hc⟩, ?_⟩
    rintro ⟨hc, hindex⟩
    -- an index belongs to one eligible peer only
    obtain ⟨c', hc', hsame⟩ := List.mem_map.mp hindex
    have heq := List.inj_on_of_nodup_map hindices (h.eligible c' hc') hc hsame
    exact heq ▸ hc'
  have hsplit := (hmembers.append_right _).trans
    (List.filter_append_perm (fun c => state.assigned c.2) swarmEligible.zipIdx)
  have hids := hsplit.map fun c => c.1.nodeId
  rw [List.map_append, ← h.emitted] at hids
  have hall : swarmEligible.zipIdx.map (fun c => c.1.nodeId) =
      swarmEligible.map PeerInfo.nodeId := by
    have hfst := congrArg (List.map PeerInfo.nodeId) (List.zipIdx_map_fst 0 swarmEligible)
    rwa [List.map_map] at hfst
  rw [hall] at hids
  exact hids

/-! ## Every peer has one place -/

/-- The peers of a formation result, place by place. -/
def placedIds (result : FormationResult F) : List NodeId :=
  memberIds result.swarms ++ result.drafters.map Prod.fst ++ result.unplaced

/-- Weak peers are drafters or too weak even for that. -/
theorem perm_weak (config : FormationConfig F) (weak : List (PeerInfo F)) :
    ((weak.filterMap fun peer =>
        (classifyAsDrafter peer config).map fun draftCap => (peer.nodeId, draftCap)).map Prod.fst ++
      (weak.filter fun peer => (classifyAsDrafter peer config).isNone).map PeerInfo.nodeId).Perm
      (weak.map PeerInfo.nodeId) := by
  have hdrafters : (weak.filterMap fun peer =>
        (classifyAsDrafter peer config).map fun draftCap => (peer.nodeId, draftCap)).map Prod.fst =
      (weak.filter fun peer => (classifyAsDrafter peer config).isSome).map PeerInfo.nodeId := by
    induction weak with
    | nil => rfl
    | cons peer rest ih =>
        cases hclass : classifyAsDrafter peer config with
        | none => simpa [hclass] using ih
        | some draftCap => simpa [hclass] using ih
  have hnone : (weak.filter fun peer => (classifyAsDrafter peer config).isNone) =
      weak.filter fun peer => !(classifyAsDrafter peer config).isSome := by
    congr 1
    funext peer
    rw [Option.not_isSome]
  rw [hdrafters, hnone, ← List.map_append]
  exact (List.filter_append_perm _ weak).map PeerInfo.nodeId

/-- The places of a formation result are taken by the given peers, one each. -/
theorem perm_placedIds (swarmIds : ℕ → SwarmId) (peers : List (PeerInfo F))
    (config : FormationConfig F) (models : List ModelSizeClass) :
    ∃ result, formSwarms swarmIds peers config models = .ok result ∧
      (placedIds result).Perm (peers.map PeerInfo.nodeId) := by
  rw [formSwarms]
  split
  · rename_i hempty
    rw [List.isEmpty_iff.mp hempty]
    exact ⟨_, rfl, List.Perm.refl _⟩
  refine ⟨_, rfl, ?_⟩
  dsimp only [placedIds]
  obtain ⟨members, hmembers⟩ := exists_bookkept_formLoop config models
    (eligiblePeers config peers) swarmIds (eligiblePeers config peers).length
  have heligible := hmembers.perm
  have hweak := perm_weak config
    (peers.filter fun peer => !(config.minPeerCapacityBytes ≤ peer.capacity : Bool))
  have hsorted := (StableSort.perm_sortBy (fun a b => compare b.capacity a.capacity)
    (peers.filter fun peer => config.minPeerCapacityBytes ≤ peer.capacity)).map PeerInfo.nodeId
  have hpeers := (List.filter_append_perm
    (fun peer => (config.minPeerCapacityBytes ≤ peer.capacity : Bool)) peers).map PeerInfo.nodeId
  rw [List.map_append] at hpeers
  have hsplit := (heligible.trans hsorted).append hweak
  apply List.Perm.trans _ (hsplit.trans hpeers)
  -- the unplaced eligible peers change places with the weak ones
  rw [unassignedIds, List.append_assoc, List.append_assoc]
  apply List.Perm.append_left
  rw [← List.append_assoc]
  exact List.perm_append_comm

/-- Each of the given peers has exactly one place, and nobody else has any. -/
structure ConservesPeers (peers : List (PeerInfo F)) (result : FormationResult F) : Prop where
  placed_once : ∀ peer ∈ peers, (placedIds result).count peer.nodeId = 1
  nobody_else : ∀ id ∈ placedIds result, ∃ peer ∈ peers, peer.nodeId = id

/-- **Formation conserves peers.** For every list of distinct peers, every list of
models and every configuration, formation succeeds and puts each peer in exactly one
place. -/
theorem formation_conserves_peers {peers : List (PeerInfo F)}
    (hdistinct : (peers.map PeerInfo.nodeId).Nodup) (swarmIds : ℕ → SwarmId)
    (config : FormationConfig F) (models : List ModelSizeClass) :
    ∃ result, formSwarms swarmIds peers config models = .ok result ∧
      ConservesPeers peers result := by
  obtain ⟨result, hresult, hperm⟩ := perm_placedIds swarmIds peers config models
  refine ⟨result, hresult, fun peer hpeer => ?_, fun id hid => ?_⟩
  · rw [hperm.count_eq]
    exact List.count_eq_one_of_mem hdistinct (List.mem_map_of_mem hpeer)
  · exact List.mem_map.mp (hperm.subset hid)

/-- The two even peers and one that is too weak for a swarm have one place each. -/
theorem formation_conserves_peers_with_drafter :
    ∃ result, formSwarms countedIds (evenPeers ++ [PeerInfo.ramOnly 3 gb]) defaultConfig
        [mistral] = .ok result ∧
      ConservesPeers (evenPeers ++ [PeerInfo.ramOnly 3 gb]) result :=
  formation_conserves_peers (by decide) countedIds defaultConfig [mistral]

end HiveBear.Mesh.Formation
