/-
# Who is in the mesh

The coordinator lists the nodes that it has heard of. A node is in its table from the time it
registers, and each heartbeat renews its record; a deregistration takes it out, and so does a visit
of the prune task that finds its record a minute old.

So the table is decided by the last word of each node: the record that is listed is the last one
that the node sent, unless it has been taken out since. Nothing that was said for another node
matters, in whatever order the accesses of requests and of the prune task happen.

Matchmaking ranks the same nodes by their karma, which is the work that they have been credited.
-/

import HiveBear.Coordinator.Dashboard
import HiveBear.Coordinator.KarmaLedger
import HiveBear.Coordinator.Signals
import HiveBear.Library.Entries

namespace HiveBear.Coordinator

open LabelledRun Mesh

variable {F : Type} (texts : Mesh.Discovery.Texts F)

/-! ## The table of nodes -/

/-- The node that an entry is about. -/
def NodeEntry.nodeId (entry : NodeEntry F) : String := entry.info.nodeId.toHex

/-- The entry that an access makes for a node. -/
def wordOf (nodeId : String) (step : SignalStep F) : Option (NodeEntry F) :=
  match step with
  | .registerNode now body | .heartbeatNode now body =>
      ((extract texts body).map fun info => (⟨info, now⟩ : NodeEntry F)).filter
        fun entry => entry.nodeId = nodeId
  | _ => none

/-- An access leaves an entry in the table that stands there for a node. -/
def leaves (nodeId : String) (step : SignalStep F) (entry : NodeEntry F) : Bool :=
  match step with
  | .deregisterNode other => other ≠ nodeId
  | .pruneNode now other => other ≠ nodeId ∨ now - entry.lastSeen < pruneAfter
  | _ => true

/-- The last word of a node, which no access has taken out since. -/
def LastWord (steps : List (SignalStep F)) (nodeId : String) (entry : NodeEntry F) : Prop :=
  ∃ before report later, steps = before ++ report :: later ∧
    wordOf texts nodeId report = some entry ∧
    ∀ step ∈ later, wordOf texts nodeId step = none ∧ leaves nodeId step entry = true

variable {texts}

theorem nodeId_of_wordOf {nodeId : String} {step : SignalStep F} {entry : NodeEntry F}
    (h : wordOf texts nodeId step = some entry) : entry.nodeId = nodeId := by
  cases step with
  | registerNode now body | heartbeatNode now body =>
      exact of_decide_eq_true (Option.filter_eq_some_iff.mp h).2
  | sendSignal signal | pollSignals other | deregisterNode other | deregisterSignals other => cases h
  | pruneSignals now other | pruneNode now other => cases h

/-- A registration is the word of its node, and leaves every other node alone. -/
theorem lookup_registerNode (nodes : Nodes F) (now : ℕ) (body : Json.Value F) (nodeId : String) :
    ((registerNode texts nodes now body).getD nodes).lookup nodeId =
      (wordOf texts nodeId (.registerNode now body)).or (nodes.lookup nodeId) := by
  rw [registerNode, wordOf]
  cases extract texts body with
  | none => rfl
  | some info =>
      rw [Option.map_some, Option.filter_some]
      by_cases hnode : info.nodeId.toHex = nodeId
      · subst hnode
        simp [NodeEntry.nodeId]
      · simp [NodeEntry.nodeId, hnode, AList.lookup_insert_ne (Ne.symm hnode)]

theorem filter_leaves {nodeId : String} {step : SignalStep F} (entry : Option (NodeEntry F))
    (h : ∀ entry, leaves nodeId step entry = true) : entry.filter (leaves nodeId step) = entry := by
  cases entry with
  | none => rfl
  | some entry => rw [Option.filter_some, if_pos (h entry)]

/-- What an access does to the entry of a node. -/
theorem lookup_nextSignals (state : SignalState F) (step : SignalStep F) (nodeId : String) :
    (nextSignals texts state step).nodes.lookup nodeId =
      (wordOf texts nodeId step).or ((state.nodes.lookup nodeId).filter (leaves nodeId step)) := by
  cases step with
  | registerNode now body =>
      rw [filter_leaves _ fun _ => rfl]
      exact lookup_registerNode _ now body nodeId
  | heartbeatNode now body =>
      rw [filter_leaves _ fun _ => rfl, nextSignals, heartbeatNode_eq_registerNode]
      exact lookup_registerNode _ now body nodeId
  | sendSignal signal =>
      rw [filter_leaves _ fun _ => rfl, nextSignals, nodes_sendSignal]
      rfl
  | pollSignals other =>
      rw [filter_leaves _ fun _ => rfl, nextSignals, nodes_pollSignals]
      rfl
  | deregisterSignals other =>
      rw [filter_leaves _ fun _ => rfl]
      rfl
  | pruneSignals now other =>
      rw [filter_leaves _ fun _ => rfl, nextSignals]
      split_ifs <;> rfl
  | deregisterNode other =>
      by_cases hnode : other = nodeId
      · subst hnode
        cases hentry : state.nodes.lookup other <;>
          simp [nextSignals, wordOf, leaves, Option.filter_some]
      · have hleaves (entry : NodeEntry F) : leaves nodeId (.deregisterNode other) entry = true :=
          decide_eq_true hnode
        rw [filter_leaves _ hleaves]
        exact AList.lookup_erase_ne (Ne.symm hnode)
  | pruneNode now other =>
      by_cases hnode : other = nodeId
      · subst hnode
        rw [nextSignals, inactive]
        cases hentry : state.nodes.lookup other with
        | none => simp [hentry, wordOf]
        | some entry =>
            by_cases hage : now - entry.lastSeen < pruneAfter
            · simp [hentry, hage, wordOf, leaves, Option.filter_some]
            · simp [hage, wordOf, leaves, Option.filter_some]
      · have hleaves (entry : NodeEntry F) : leaves nodeId (.pruneNode now other) entry = true :=
          decide_eq_true (Or.inl hnode)
        rw [filter_leaves _ hleaves, nextSignals]
        split_ifs
        · exact AList.lookup_erase_ne (Ne.symm hnode)
        · rfl

/-- A node is in the table with its last word. -/
theorem lookup_afterSteps_iff {steps : List (SignalStep F)} {nodeId : String}
    {entry : NodeEntry F} :
    (afterSteps texts steps).nodes.lookup nodeId = some entry ↔
      LastWord texts steps nodeId entry := by
  refine @exec_written_iff _ _ (nextSignals texts) _ (fun state => state.nodes.lookup nodeId) _ _
    ?_ ?_ _ rfl steps entry
  · intro state step value hword
    rw [lookup_nextSignals, hword]
    rfl
  · intro state step hnone
    rw [lookup_nextSignals, hnone]
    rfl

/-! ## What is listed -/

/-- What a query asks for. -/
def PeersQuery.Asks (query : PeersQuery) (info : Mesh.Discovery.PeerInfo F) : Prop :=
  query.minMemory.getD 0 ≤ info.availableMemoryBytes ∧
    (query.model.getD "" = "" ∨
      ∀ model ∈ info.servingModelId, (query.model.getD "").toList <:+: model.toList)

/-- An entry stands in the table for its own node. -/
theorem nodeId_of_lookup {steps : List (SignalStep F)} {nodeId : String} {entry : NodeEntry F}
    (h : (afterSteps texts steps).nodes.lookup nodeId = some entry) : entry.nodeId = nodeId := by
  obtain ⟨before, report, later, -, hword, -⟩ := lookup_afterSteps_iff.mp h
  exact nodeId_of_wordOf hword

/-- The nodes of the table, by the records in it. -/
theorem map_nodeId_infos (steps : List (SignalStep F)) :
    ((infos (afterSteps texts steps).nodes).map fun info => info.nodeId.toHex) =
      (afterSteps texts steps).nodes.pairs.map Prod.fst := by
  rw [infos, List.map_map]
  refine List.map_congr_left fun e he => ?_
  exact nodeId_of_lookup (AList.mem_pairs.mp he)

theorem mem_infos_iff {steps : List (SignalStep F)} {info : Mesh.Discovery.PeerInfo F} :
    info ∈ infos (afterSteps texts steps).nodes ↔
      ∃ now, LastWord texts steps info.nodeId.toHex ⟨info, now⟩ := by
  rw [infos, List.mem_map]
  constructor
  · rintro ⟨⟨nodeId, entry⟩, he, rfl⟩
    have hlookup := AList.mem_pairs.mp he
    refine ⟨entry.lastSeen, lookup_afterSteps_iff.mp ?_⟩
    rw [← nodeId_of_lookup hlookup] at hlookup
    exact hlookup
  · rintro ⟨now, hword⟩
    exact ⟨(_, ⟨info, now⟩), AList.mem_pairs.mpr (lookup_afterSteps_iff.mpr hword), rfl⟩

/-- **A query is answered with the last words of the nodes**, in every order of accesses: each
record that is asked for and was the last one of its node, and each node once. -/
theorem listed_iff_lastWord (steps : List (SignalStep F)) (query : PeersQuery) :
    ((selectPeers (afterSteps texts steps).nodes query).map fun info => info.nodeId.toHex).Nodup ∧
      ∀ info, info ∈ selectPeers (afterSteps texts steps).nodes query ↔
        query.Asks info ∧ ∃ now, LastWord texts steps info.nodeId.toHex ⟨info, now⟩ := by
  constructor
  · have hsub := List.filter_sublist (l := infos (afterSteps texts steps).nodes)
      (p := fun info => decide (query.minMemory.getD 0 ≤ info.availableMemoryBytes ∧
        (query.model.getD "" = "" ∨
          ∀ model ∈ info.servingModelId, (query.model.getD "").toList <:+: model.toList)))
    refine ((hsub.map fun info => info.nodeId.toHex).nodup ?_)
    rw [map_nodeId_infos]
    exact AList.nodup_pairs _
  · intro info
    rw [← mem_infos_iff, and_comm]
    simp only [selectPeers, List.mem_filter, decide_eq_true_eq]
    rfl

/-! ## How old a record can be -/

/-- The time that an access goes by. -/
def SignalStep.now : SignalStep F → Option ℕ
  | .registerNode now _ | .heartbeatNode now _ | .pruneSignals now _ | .pruneNode now _ => some now
  | _ => none

/-- The accesses go by times that do not run back, and none is after this one. -/
structure Chronological (now : ℕ) (steps : List (SignalStep F)) : Prop where
  ordered : (steps.filterMap SignalStep.now).Pairwise (· ≤ ·)
  past : ∀ time ∈ steps.filterMap SignalStep.now, time ≤ now

/-- The node has reported less than this long ago, and has not been deregistered since. -/
def HeardWithin (texts : Mesh.Discovery.Texts F) (span now : ℕ) (steps : List (SignalStep F))
    (nodeId : String) : Prop :=
  ∃ before report later entry, steps = before ++ report :: later ∧
    wordOf texts nodeId report = some entry ∧ now < entry.lastSeen + span ∧
    .deregisterNode nodeId ∉ later

/-- The prune task has visited the node less than a period ago. -/
def Patrolled (period now : ℕ) (steps : List (SignalStep F)) (nodeId : String) : Prop :=
  ∃ time, .pruneNode time nodeId ∈ steps ∧ now < time + period

theorem now_of_wordOf {nodeId : String} {step : SignalStep F} {entry : NodeEntry F}
    (h : wordOf texts nodeId step = some entry) : step.now = some entry.lastSeen := by
  cases step with
  | registerNode now body | heartbeatNode now body =>
      obtain ⟨info, -, rfl⟩ := Option.map_eq_some_iff.mp (Option.filter_eq_some_iff.mp h).1
      rfl
  | sendSignal signal | pollSignals other | deregisterNode other | deregisterSignals other => cases h
  | pruneSignals now other | pruneNode now other => cases h

/-- Behind a report, the accesses go by times that are not before it. -/
theorem Chronological.le_of_mem {now : ℕ} {before later : List (SignalStep F)}
    {report step : SignalStep F} {early late : ℕ}
    (h : Chronological now (before ++ report :: later)) (hreport : report.now = some early)
    (hstep : step ∈ later) (hlate : step.now = some late) : early ≤ late := by
  have hordered := h.ordered
  rw [List.filterMap_append, List.filterMap_cons_some hreport] at hordered
  have hbehind := (List.pairwise_append.mp hordered).2.1
  exact (List.pairwise_cons.mp hbehind).1 late (List.mem_filterMap.mpr ⟨step, hstep, hlate⟩)

theorem Chronological.ge_of_mem {now : ℕ} {before later : List (SignalStep F)}
    {report step : SignalStep F} {early late : ℕ}
    (h : Chronological now (before ++ report :: later)) (hreport : report.now = some late)
    (hstep : step ∈ before) (hearly : step.now = some early) : early ≤ late := by
  have hordered := h.ordered
  rw [List.filterMap_append, List.filterMap_cons_some hreport] at hordered
  refine (List.pairwise_append.mp hordered).2.2 early ?_ late List.mem_cons_self
  exact List.mem_filterMap.mpr ⟨step, hstep, hearly⟩

/-- A node stays in the table as long as its record is not a minute old. -/
theorem lookup_of_heard {now : ℕ} {before : List (SignalStep F)} {report : SignalStep F}
    {entry : NodeEntry F} {nodeId : String} (hword : wordOf texts nodeId report = some entry)
    (hrecent : now < entry.lastSeen + pruneAfter) (later : List (SignalStep F))
    (hchron : Chronological now (before ++ report :: later))
    (hstays : .deregisterNode nodeId ∉ later) :
    ∃ kept, (afterSteps texts (before ++ report :: later)).nodes.lookup nodeId = some kept ∧
      entry.lastSeen ≤ kept.lastSeen := by
  induction later using List.reverseRecOn with
  | nil =>
      refine ⟨entry, ?_, le_rfl⟩
      rw [afterSteps, exec_snoc, lookup_nextSignals, hword]
      rfl
  | append_singleton later step ih =>
      have hshorter : Chronological now (before ++ report :: later) := by
        have hpart : (before ++ report :: later).Sublist (before ++ report :: (later ++ [step])) := by
          rw [← List.cons_append, ← List.append_assoc]
          exact List.sublist_append_left _ _
        have htimes := hpart.filterMap SignalStep.now
        exact ⟨hchron.ordered.sublist htimes, fun time h => hchron.past time (htimes.subset h)⟩
      obtain ⟨kept, hkept, hage⟩ := ih hshorter fun h => hstays (List.mem_append_left _ h)
      have hlast : step ∈ later ++ [step] := List.mem_append_right _ (List.mem_singleton_self step)
      rw [← List.cons_append, ← List.append_assoc, afterSteps, exec_snoc, lookup_nextSignals]
      cases hstep : wordOf texts nodeId step with
      | some renewed =>
          refine ⟨renewed, rfl, ?_⟩
          exact hchron.le_of_mem (now_of_wordOf hword) hlast (now_of_wordOf hstep)
      | none =>
          refine ⟨kept, ?_, hage⟩
          rw [afterSteps] at hkept
          rw [hkept, Option.none_or, Option.filter_some]
          refine if_pos ?_
          cases step with
          | deregisterNode other =>
              refine decide_eq_true fun hother => hstays ?_
              rw [← hother]
              exact hlast
          | pruneNode time other =>
              refine decide_eq_true (Or.inr ?_)
              have htime := hchron.past time (List.mem_filterMap.mpr
                ⟨.pruneNode time other, List.mem_append_right _ (List.mem_cons_of_mem _ hlast), rfl⟩)
              have hpositive : 0 < pruneAfter := by decide
              omega
          | registerNode | heartbeatNode | sendSignal | pollSignals | deregisterSignals => rfl
          | pruneSignals => rfl

/-- A node among the ranked ones. -/
structure RankedPeer where
  nodeId : String
  addr : String
  karma : ℤ

/-- What a node asks for a match. -/
structure MatchmakeRequest where
  nodeId : String
  preferredModel : Option String

/-- The answer to a match. -/
structure Matchmaking where
  swarmId : String
  assignedRole : String
  totalPeersInSwarm : ℕ
  requesterKarma : ℤ
  priorityTier : String
  rankedPeers : List RankedPeer

/-- The tier that karma gives. -/
def priorityTier (karma : ℤ) : String :=
  if 500 ≤ karma then "VIP_ALPHA" else if 0 < karma then "CONTRIBUTOR" else "COMMUNITY"

/-- More karma comes first. -/
def compareKarma (a b : RankedPeer) : Ordering := compare b.karma a.karma

/-- Match a node with the registered ones, which are found in some order. -/
def matchmake (texts : Mesh.Discovery.Texts F) (listing : AList.Listing String (NodeEntry F))
    (nodes : Nodes F) (ledger : CoordinatorState) (req : MatchmakeRequest) : Matchmaking where
  swarmId := "swarm-" ++ req.preferredModel.getD "default"
  assignedRole := "worker"
  totalPeersInSwarm := nodes.pairs.length
  requesterKarma := ledger.balance req.nodeId
  priorityTier := priorityTier (ledger.balance req.nodeId)
  rankedPeers := StableSort.sortBy compareKarma ((listing.entries nodes).map fun e =>
    ⟨e.2.nodeId, texts.showAddr e.2.info.addr, ledger.balance e.2.nodeId⟩)

/-- The answer to a question for karma. -/
structure KarmaBalance where
  nodeId : String
  karma : ℤ
  tier : String

def getKarmaBalance (ledger : CoordinatorState) (nodeId : String) : KarmaBalance :=
  ⟨nodeId, ledger.balance nodeId, priorityTier (ledger.balance nodeId)⟩

theorem pairwise_rankedPeers (peers : List RankedPeer) :
    (StableSort.sortBy compareKarma peers).Pairwise fun a b => b.karma ≤ a.karma := by
  refine StableSort.pairwise_sortBy (fun a b c hab hbc => hbc.trans hab) ?_ ?_ peers
  · intro a b hab
    exact not_lt.mp fun hlt => hab (compare_gt_iff_gt.mpr hlt)
  · intro a b hab
    exact (compare_gt_iff_gt.mp hab).le

end HiveBear.Coordinator
