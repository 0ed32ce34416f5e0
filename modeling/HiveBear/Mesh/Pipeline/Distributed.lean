/-
# Distributed inference equals local inference

The stages of a plan cut the stack of all layers into consecutive pieces. A network
that implements their chain therefore returns what the whole stack computes: for each
activation, the logits of a local run that applies every layer once, in increasing
order. Only the last stage sends logits, and it sends them to the initiator.
-/

import HiveBear.Mesh.Pipeline.Chain
import HiveBear.Mesh.Scheduler.Greedy
import HiveBear.Mesh.Scheduler.SwarmAware

namespace HiveBear.Mesh

open IntervalTiling LabelledRun LayerStack StagePipeline

/-- A plan that one of the schedulers returned for a list of peers. -/
inductive InferencePlan.Scheduled {F : Type*} [FloatOps F] (peers : List (PeerInfo F))
    (plan : InferencePlan F) : Prop
  | greedy {sessionId : Uuid} {modelId : String} {totalLayers : ℕ} {modelSizeBytes : UInt64}
      (h : GreedyScheduler.plan sessionId modelId totalLayers modelSizeBytes peers = .ok plan)
  | swarmAware {scheduler : SwarmAwareScheduler F} {sessionId : Uuid} {modelId : String}
      {totalLayers : ℕ} {modelSizeBytes : UInt64}
      (h : scheduler.plan sessionId modelId totalLayers modelSizeBytes peers = .ok plan)

/-- A plan for distinct peers, none of which is the initiator, is well formed, has a
layer, and names distinct nodes. -/
theorem InferencePlan.Scheduled.wellFormed {F : Type*} [FloatOps F] {peers : List (PeerInfo F)}
    {plan : InferencePlan F} (h : plan.Scheduled peers) {localId : NodeId}
    (hdistinct : (localId :: peers.map PeerInfo.nodeId).Nodup) :
    plan.WellFormed ∧ 0 < plan.totalLayers ∧
      (localId :: plan.assignments.map LayerAssignment.peerId).Nodup := by
  obtain ⟨hlocal, hpeers⟩ := List.nodup_cons.mp hdistinct
  have hnodes : plan.WellFormed → (∀ a ∈ plan.assignments, ∃ peer ∈ peers, peer.nodeId = a.peerId) →
      (localId :: plan.assignments.map LayerAssignment.peerId).Nodup := by
    intro hwellFormed hpeer
    apply List.nodup_cons.mpr ⟨_, hwellFormed.distinct⟩
    intro hmem
    obtain ⟨a, ha, rfl⟩ := List.mem_map.mp hmem
    obtain ⟨peer, hmem, heq⟩ := hpeer a ha
    exact hlocal (heq ▸ List.mem_map_of_mem hmem)
  cases h with
  | greedy h =>
      have hwellFormed := GreedyScheduler.wellFormed_of_plan hpeers h
      obtain ⟨_, hpos, _, htotal, _⟩ := GreedyScheduler.plan_eq_ok h
      exact ⟨hwellFormed, htotal ▸ hpos,
        hnodes hwellFormed fun a ha => GreedyScheduler.peer_of_plan h ha⟩
  | swarmAware h =>
      have hdepth := SwarmAwareScheduler.maxPipelineDepth_pos_of_plan h
      have hwellFormed := SwarmAwareScheduler.wellFormed_of_plan hdepth hpeers h
      obtain ⟨_, hpos, htotal, _⟩ := SwarmAwareScheduler.plan_eq_ok h
      refine ⟨hwellFormed, htotal ▸ hpos, hnodes hwellFormed ?_⟩
      intro a ha
      obtain ⟨peer, hpeer, heq, _⟩ := SwarmAwareScheduler.peer_of_plan hdepth h ha
      exact ⟨peer, hpeer, heq⟩

namespace PipelineDeployment

variable {F S : Type*} (d : PipelineDeployment F S)

/-- The outputs of a local run: every activation passes through all layers of the
model, each once and in increasing order. -/
def localOutputs (inputs : List (ℕ × Tensor)) : List (ℕ × Tensor) :=
  (runList d.functions.react
    (d.functions.freshStack d.modelSource (List.range d.initiator.plan.totalLayers)) inputs).2

variable {d} {net : PipelineNetwork S} {p : Pipeline (List (ℕ × S)) (ℕ × Tensor)}

/-- The stacks of the stages, put together, are the stack of the whole model. -/
theorem flatMap_stageStack (hplan : d.initiator.plan.WellFormed) :
    (List.range d.stages.length).flatMap d.stageStack =
      d.functions.freshStack d.modelSource (List.range d.initiator.plan.totalLayers) := by
  have hstages : (List.range d.stages.length).map d.stageStack =
      d.stages.map fun a => d.functions.freshStack d.modelSource a.layerRange.toList := by
    apply List.ext_getElem
    · rw [List.length_map, List.length_map, List.length_range]
    · intro k hk _
      rw [List.length_map, List.length_range] at hk
      rw [List.getElem_map, List.getElem_map, List.getElem_range,
        d.stageStack_eq (List.getElem?_eq_getElem hk)]
  rw [List.flatMap_def, hstages, ← hplan.tiles.flatMap_toList_zero]
  simp only [LayerFunctions.freshStack, List.map_flatMap, List.flatMap_map]
  rfl

/-- The stages, one after the other, compute what a local run computes. -/
theorem cascade_eq_localOutputs (hplan : d.initiator.plan.WellFormed)
    (inputs : List (ℕ × Tensor)) :
    cascade d.functions.react d.stageStack d.stages.length inputs = d.localOutputs inputs := by
  rw [localOutputs, ← flatMap_stageStack hplan]
  exact cascade_stackReact d.functions.layer d.stageStack d.stages.length inputs

variable (d) in
/-- The logits of a local run. -/
def localLogits (inputs : List (ℕ × Tensor)) : List MeshMessage :=
  (d.localOutputs inputs).map (logitsMessage d.initiator.sessionId)

variable (d) in
/-- The stage whose range reaches the end of the model. -/
def IsLastStage (a : LayerAssignment F) : Prop :=
  a ∈ d.stages ∧ a.layerRange.stop = d.initiator.plan.totalLayers

variable (d) in
/-- Distributed inference equals local inference. What the initiator has received are
the logits of a local run, in order: a prefix of them, all of them when no message is on
its way, and without further activations the network can always run until then. One
stage is the last one; logits come from it and go to the initiator. -/
structure EqualsLocal (net : PipelineNetwork S) : Prop where
  setup_succeeds : net.setupError = none
  received_prefix : net.received.map Prod.snd <+: d.localLogits net.fed
  received_all : (∀ src dst, net.links src dst = []) →
    net.received.map Prod.snd = d.localLogits net.fed
  answered : d.Ready net → ∃ events net', Run d.Step net events net' ∧ net'.fed = net.fed ∧
    net'.received.map Prod.snd = d.localLogits net.fed
  one_last_stage : ∃! a, d.IsLastStage a
  logits_sent : ∀ src dst message, message ∈ net.links src dst → message.isLogits = true →
    dst = d.initiator.localId ∧ ∃ a, d.IsLastStage a ∧ a.peerId = src
  logits_received : ∀ e ∈ net.received, ∃ a, d.IsLastStage a ∧ a.peerId = e.1

/-- A plan with a layer has one last stage, which runs on the last node. -/
theorem exists_unique_lastStage (hplan : d.initiator.plan.WellFormed)
    (htotal : 0 < d.initiator.plan.totalLayers) :
    ∃ a, d.IsLastStage a ∧ a.peerId = d.node d.stages.length ∧
      ∀ b, d.IsLastStage b → b = a := by
  have hne : d.stages ≠ [] := fun hnil =>
    hplan.tiles.ne_nil htotal (by rw [List.map_eq_nil_iff]; exact hnil)
  obtain ⟨m, hm⟩ := Nat.exists_eq_add_one_of_ne_zero (fun h => hne (List.length_eq_zero_iff.mp h))
  have hlt : m < d.stages.length := by
    rw [hm]
    exact Nat.lt_succ_self m
  have ha := List.getElem?_eq_getElem hlt
  refine ⟨_, ⟨List.mem_of_getElem? ha, (stop_eq_totalLayers_iff hplan ha).mpr hm.symm⟩, ?_, ?_⟩
  · rw [hm]
    exact (d.node_succ ha).symm
  · intro b hb
    obtain ⟨hmem, hstop⟩ := hb
    obtain ⟨k, hk⟩ := List.getElem?_of_mem hmem
    have hkm : k = m := Nat.succ.inj (((stop_eq_totalLayers_iff hplan hk).mp hstop).trans hm)
    rw [hkm, ha] at hk
    exact (Option.some.inj hk).symm

/-- What the initiator has received are logits of a local run, from the last node. -/
theorem received_of_run (hplan : d.initiator.plan.WellFormed) (hdistinct : d.Distinct)
    {events : List PipelineEvent} (run : Run d.Step PipelineNetwork.start events net) :
    net.received.map Prod.snd <+: d.localLogits net.fed ∧
      ((∀ src dst, net.links src dst = []) →
        net.received.map Prod.snd = d.localLogits net.fed) ∧
      ∀ e ∈ net.received, e.1 = d.node d.stages.length := by
  obtain ⟨labels, p, hchain, himplements⟩ := exists_chain_of_run hplan hdistinct run
  rcases himplements with ⟨⟨status, hsetup⟩, -⟩ | hrunning
  · rw [hsetup.received, hsetup.fed]
    refine ⟨List.nil_prefix, fun _ => rfl, fun e he => ?_⟩
    cases he
  · have hreceived : net.received.map Prod.snd =
        p.received.map (logitsMessage d.initiator.sessionId) := by
      rw [hrunning.received, List.map_map]
      rfl
    rw [hreceived, localLogits, hrunning.fed, ← cascade_eq_localOutputs hplan]
    refine ⟨(received_prefix_cascade hchain).map _, ?_, ?_⟩
    · intro hquiet
      have hempty : ∀ k ≤ d.stages.length, p.queues k = [] := by
        intro k hk
        have hlink := hrunning.hops.hop k hk
        rw [hquiet] at hlink
        exact List.map_eq_nil_iff.mp hlink.symm
      rw [received_eq_cascade hchain hempty]
    · intro e he
      rw [hrunning.received] at he
      obtain ⟨x, _, rfl⟩ := List.mem_map.mp he
      rfl

/-- Logits on their way come from the last node and go to the initiator. -/
theorem logits_of_run (hplan : d.initiator.plan.WellFormed) (hdistinct : d.Distinct)
    {events : List PipelineEvent} (run : Run d.Step PipelineNetwork.start events net)
    {src dst : NodeId} {message : MeshMessage} (hmem : message ∈ net.links src dst)
    (hlogits : message.isLogits = true) :
    src = d.node d.stages.length ∧ dst = d.initiator.localId := by
  obtain ⟨labels, p, -, himplements⟩ := exists_chain_of_run hplan hdistinct run
  have hne := List.ne_nil_of_mem hmem
  rcases himplements with ⟨⟨status, hsetup⟩, -⟩ | hrunning
  · rw [hsetup.isLogits_eq_false hmem] at hlogits
    cases hlogits
  · obtain ⟨k, hk, rfl, rfl⟩ := hrunning.hops.quiet src dst hne
    rw [hrunning.hops.hop k hk] at hmem
    obtain ⟨x, -, rfl⟩ := List.mem_map.mp hmem
    by_cases hlast : k < d.stages.length
    · rw [hopMessage, if_pos hlast] at hlogits
      cases hlogits
    · have hkn := Nat.le_antisymm hk (Nat.not_lt.mp hlast)
      subst hkn
      exact ⟨rfl, d.node_of_length_lt (Nat.lt_succ_self _)⟩

/-- Setup does not fail. -/
theorem setupError_of_run (hplan : d.initiator.plan.WellFormed) (hdistinct : d.Distinct)
    {events : List PipelineEvent} (run : Run d.Step PipelineNetwork.start events net) :
    net.setupError = none := by
  obtain ⟨labels, p, -, himplements⟩ := exists_chain_of_run hplan hdistinct run
  rcases himplements with ⟨⟨status, hsetup⟩, -⟩ | hrunning
  · exact hsetup.setupError
  · exact hrunning.ready.1

/-- Once setup is over, all activations can be answered. -/
theorem answered_of_run (hplan : d.initiator.plan.WellFormed) (hdistinct : d.Distinct)
    {events : List PipelineEvent} (run : Run d.Step PipelineNetwork.start events net)
    (hready : d.Ready net) :
    ∃ events' net', Run d.Step net events' net' ∧ net'.fed = net.fed ∧
      net'.received.map Prod.snd = d.localLogits net.fed := by
  obtain ⟨labels, p, -, himplements⟩ := exists_chain_of_run hplan hdistinct run
  have hrunning : ∃ q, d.Running net q := by
    rcases himplements with ⟨⟨status, hsetup⟩, -⟩ | hrunning
    · exact ⟨_, running_of_settingUp hsetup hready⟩
    · exact ⟨p, hrunning⟩
  obtain ⟨q, hrunning⟩ := hrunning
  obtain ⟨events', net', hrest, hfed, hquiet⟩ := hrunning.exists_drained hplan hdistinct
  have hall := (received_of_run hplan hdistinct (run.append hrest)).2.1 hquiet
  exact ⟨events', net', hrest, hfed, hfed ▸ hall⟩

/-- **Distributed equals local.** For every plan that one of the schedulers returns for
peers that differ from each other and from the initiator (a node never connects to
itself), any layer functions and any run of the network, the pipeline computes what a
local run of all layers computes. -/
theorem distributed_equals_local [FloatOps F] {peers : List (PeerInfo F)}
    (hplan : d.initiator.plan.Scheduled peers)
    (hpeers : (d.initiator.localId :: peers.map PeerInfo.nodeId).Nodup)
    {events : List PipelineEvent} (run : Run d.Step PipelineNetwork.start events net) :
    d.EqualsLocal net := by
  obtain ⟨hwellFormed, htotal, hdistinct⟩ := hplan.wellFormed hpeers
  obtain ⟨last, hlast, hnode, hunique⟩ := exists_unique_lastStage hwellFormed htotal
  obtain ⟨hstarts, hall, hsender⟩ := received_of_run hwellFormed hdistinct run
  exact
    { setup_succeeds := setupError_of_run hwellFormed hdistinct run
      received_prefix := hstarts
      received_all := hall
      answered := answered_of_run hwellFormed hdistinct run
      one_last_stage := ⟨last, hlast, hunique⟩
      logits_sent := by
        intro src dst message hmem hlogits
        obtain ⟨rfl, hdst⟩ := logits_of_run hwellFormed hdistinct run hmem hlogits
        exact ⟨hdst, last, hlast, hnode⟩
      logits_received := fun e he => ⟨last, hlast, hnode.trans (hsender e he).symm⟩ }

/-! ### Two stages -/

/-- Layers that count their activations and append their index to the data. -/
def tracingFunctions : LayerFunctions ℕ where
  fresh _ _ := 0
  layer l count _ x := (count + 1, { x with data := x.data ++ [UInt8.ofNat l] })

/-- A pipeline that runs a plan with tracing layers. -/
def tracingDeployment (plan : InferencePlan ℚ) : PipelineDeployment ℚ ℕ where
  initiator := ⟨plan, .ofByte 0⟩
  functions := tracingFunctions
  modelSource := "test-model"
  sha256 := id

/-- Two equal peers share four layers. -/
def twoStagePlan : InferencePlan ℚ where
  sessionId := 7
  modelId := "test-model"
  totalLayers := 4
  assignments := [⟨.ofByte 1, ⟨0, 2⟩, 4 / 234375, 80173 / 15625⟩,
    ⟨.ofByte 2, ⟨2, 4⟩, 4 / 234375, 80173 / 15625⟩]
  estimatedLatencyMs := 2405198 / 234375
  estimatedThroughputTokS := 117187500 / 1202599

/-- The prompt passes through both stages, and its logits show each layer once, in
order. -/
theorem distributed_equals_local_two_stages :
    ∃ net, Run (tracingDeployment twoStagePlan).Step PipelineNetwork.start
        [.assign, .assign, .deliver (.ofByte 0) (.ofByte 2), .deliver (.ofByte 0) (.ofByte 1),
          .collect (.ofByte 1), .collect (.ofByte 2), .feed (0, ⟨[], [1, 1], .f32⟩),
          .deliver (.ofByte 0) (.ofByte 1), .deliver (.ofByte 1) (.ofByte 2),
          .receive (.ofByte 2)] net ∧
      net.received = [(.ofByte 2, .logits 7 0 [0, 1, 2, 3] 1)] ∧
      (tracingDeployment twoStagePlan).EqualsLocal net := by
  have hplan : GreedyScheduler.plan 7 "test-model" 4 1024
      [PeerInfo.ramOnly 1 5, PeerInfo.ramOnly 2 5] = .ok twoStagePlan := by decide +kernel
  have first : Run (tracingDeployment twoStagePlan).Step PipelineNetwork.start [.assign] _ :=
    Run.single (Step.assign rfl rfl)
  have second := first.snoc (Step.assign rfl rfl)
  have firstMember : twoStagePlan.assignments[0] ∈ (tracingDeployment twoStagePlan).stages :=
    List.mem_cons_self
  have secondMember : twoStagePlan.assignments[1] ∈ (tracingDeployment twoStagePlan).stages :=
    List.mem_cons_of_mem _ List.mem_cons_self
  have loaded := second.snoc (Step.deliver (.ofByte 0) secondMember rfl)
  have loaded' := loaded.snoc (Step.deliver (.ofByte 0) firstMember rfl)
  have acked := loaded'.snoc (Step.collect (.ofByte 1) rfl rfl (by decide) rfl)
  have ready := acked.snoc (Step.collect (.ofByte 2) rfl rfl (by decide) rfl)
  have fed := ready.snoc (Step.feed (0, ⟨[], [1, 1], .f32⟩) ⟨rfl, rfl, rfl⟩ rfl)
  have halfway := fed.snoc (Step.deliver (.ofByte 0) firstMember rfl)
  have finished := halfway.snoc (Step.deliver (.ofByte 1) secondMember rfl)
  have answered := finished.snoc (Step.receive (.ofByte 2) ⟨rfl, rfl, rfl⟩ rfl)
  exact ⟨_, answered, rfl, distributed_equals_local (.greedy hplan) (by decide) answered⟩

end PipelineDeployment

end HiveBear.Mesh
