/-
# The order of the stages

A plan may store its assignments in any order, and `pipeline_order` sorts them by layers. Setup and
streaming do not sort: the next peer of a stage is the one stored behind it, and activations go to
the one stored first.

So the stages are chained in the order of the layers just if they are stored in it.
-/

import HiveBear.Mesh.Pipeline.TokenLoop

namespace HiveBear.Mesh

open IntervalTiling

/-- The peer that an assignment names as the next one. -/
def MeshMessage.nextPeer : MeshMessage → Option NodeId
  | .assignLayers _ _ _ _ _ nextPeer _ => nextPeer
  | _ => none

/-- The message carries an activation. -/
def MeshMessage.IsActivation : MeshMessage → Prop
  | .activationTensor .. => True
  | _ => False

namespace InferencePlan

variable {F : Type*} {plan : InferencePlan F}

/-- The ranges belong to distinct peers and, in some order, tile the model. -/
structure Partitioned (plan : InferencePlan F) : Prop where
  exists_order : ∃ ordered : List (LayerAssignment F), ordered.Perm plan.assignments ∧
    Tiles 0 (ordered.map LayerAssignment.layerRange) plan.totalLayers
  distinct : (plan.assignments.map LayerAssignment.peerId).Nodup

/-- The assignments are stored in the order of their layers. -/
def StoredInLayerOrder (plan : InferencePlan F) : Prop :=
  plan.assignments.Pairwise fun a b => a.layerRange.start < b.layerRange.start

instance (plan : InferencePlan F) : Decidable plan.StoredInLayerOrder :=
  inferInstanceAs (Decidable (List.Pairwise _ _))

/-- The peer whose range starts at a layer. -/
def startingAt (plan : InferencePlan F) (layer : ℕ) : Option NodeId :=
  (plan.assignments.find? fun b => b.layerRange.start = layer).map LayerAssignment.peerId

/-- Two orders in which ranges start one after the other are the same. -/
theorem eq_of_start_lt {first second : List (LayerAssignment F)} (hperm : first.Perm second)
    (hfirst : first.Pairwise fun a b => a.layerRange.start < b.layerRange.start)
    (hsecond : second.Pairwise fun a b => a.layerRange.start < b.layerRange.start) :
    first = second := by
  apply hperm.eq_of_pairwise _ hfirst hsecond
  intro a b _ _ hab hba
  exact absurd hba hab.asymm

theorem start_lt_of_tiles {ordered : List (LayerAssignment F)} {totalLayers : ℕ}
    (htiles : Tiles 0 (ordered.map LayerAssignment.layerRange) totalLayers) :
    ordered.Pairwise fun a b => a.layerRange.start < b.layerRange.start := by
  have hpairwise := htiles.pairwise_start
  rwa [List.pairwise_map] at hpairwise

/-- Stored in layer order, the ranges tile the model as they stand. -/
theorem Partitioned.tiles (h : plan.Partitioned) (hstored : plan.StoredInLayerOrder) :
    Tiles 0 (plan.assignments.map LayerAssignment.layerRange) plan.totalLayers := by
  obtain ⟨ordered, hperm, htiles⟩ := h.exists_order
  rwa [eq_of_start_lt hperm (start_lt_of_tiles htiles) hstored] at htiles

/-- No two ranges of a partition start at one layer. -/
theorem Partitioned.eq_of_start_eq (h : plan.Partitioned) {a b : LayerAssignment F}
    (ha : a ∈ plan.assignments) (hb : b ∈ plan.assignments)
    (hstart : a.layerRange.start = b.layerRange.start) : a = b := by
  obtain ⟨ordered, hperm, htiles⟩ := h.exists_order
  have hnodup : (ordered.map fun c => c.layerRange.start).Nodup := by
    apply List.pairwise_map.mpr
    exact (start_lt_of_tiles htiles).imp fun hlt => hlt.ne
  exact List.inj_on_of_nodup_map hnodup (hperm.mem_iff.mpr ha) (hperm.mem_iff.mpr hb) hstart

/-- The peer that starts at the start of a range is the one that holds it. -/
theorem Partitioned.startingAt_start (h : plan.Partitioned) {b : LayerAssignment F}
    (hb : b ∈ plan.assignments) : plan.startingAt b.layerRange.start = some b.peerId := by
  rw [startingAt]
  cases hfind : plan.assignments.find? fun c => c.layerRange.start = b.layerRange.start with
  | none => simpa using List.find?_eq_none.mp hfind b hb
  | some c =>
      have hstart := List.find?_some hfind
      rw [h.eq_of_start_eq (List.mem_of_find?_eq_some hfind) hb (of_decide_eq_true hstart)]
      rfl

/-- Nobody starts behind the model. -/
theorem Partitioned.startingAt_totalLayers (h : plan.Partitioned) :
    plan.startingAt plan.totalLayers = none := by
  rw [startingAt, Option.map_eq_none_iff, List.find?_eq_none]
  intro c hc hstart
  obtain ⟨ordered, hperm, htiles⟩ := h.exists_order
  have hbounds := htiles.bounds (List.mem_map_of_mem (hperm.mem_iff.mpr hc))
  have := of_decide_eq_true hstart
  omega

/-- Stored in layer order, the pipeline order is the stored one. -/
theorem pipelineOrder_of_stored (hstored : plan.StoredInLayerOrder) :
    plan.pipelineOrder = plan.assignments.map LayerAssignment.peerId := by
  rw [pipelineOrder]
  apply congrArg (List.map _)
  have hsorted : (StableSort.sortBy (fun a b => compare a.layerRange.start b.layerRange.start)
      plan.assignments).Pairwise fun a b => a.layerRange.start ≤ b.layerRange.start := by
    apply StableSort.pairwise_sortBy
    · exact fun _ _ _ => le_trans
    · exact fun _ _ h => Nat.compare_ne_gt.mp h
    · exact fun _ _ h => (Nat.compare_eq_gt.mp h).le
  apply (StableSort.perm_sortBy _ plan.assignments).eq_of_pairwise _ hsorted
    (hstored.imp fun hlt => hlt.le)
  intro a b ha hb hab hba
  have hnodup : (plan.assignments.map fun c => c.layerRange.start).Nodup :=
    List.pairwise_map.mpr (hstored.imp fun hlt => hlt.ne)
  exact List.inj_on_of_nodup_map hnodup ((StableSort.mem_sortBy _).mp ha) hb (le_antisymm hab hba)

end InferencePlan

namespace PipelineInitiator

open InferencePlan

universe u

variable {F : Type*} {initiator : PipelineInitiator F} {modelSource : String}

/-- The stages are chained in the order of the layers: the next peer of a stage is the one behind
it in the pipeline order, which is the one whose range starts where its own stops, and activations
are sent to the peer that holds layer 0. -/
structure FollowsLayerOrder (initiator : PipelineInitiator F) (modelSource : String) : Prop where
  chained : ∀ envelope ∈ initiator.setupMessages modelSource, ∀ stage,
    initiator.plan.pipelineOrder[stage]? = some envelope.1 →
      envelope.2.nextPeer = initiator.plan.pipelineOrder[stage + 1]?
  handsOn : ∀ envelope ∈ initiator.setupMessages modelSource, ∀ a ∈ initiator.plan.assignments,
    a.peerId = envelope.1 → envelope.2.nextPeer = initiator.plan.startingAt a.layerRange.stop
  activations : ∀ {H : Type u} (handler : MeshPipelineHandler H) (environment : StreamEnvironment)
    (handlerState : H) (promptTokens : List ℕ) (maxTokens : ℕ)
    (received : List (Except MeshError Envelope)) (peer : NodeId) (message : MeshMessage),
    .send peer message ∈ streamTokens initiator handler environment handlerState promptTokens
      maxTokens received → message.IsActivation →
        ∃ a ∈ initiator.plan.assignments, a.peerId = peer ∧ a.layerRange.Contains 0

/-- A message of setup assigns the layers of a stage and names the peer stored behind it. -/
theorem mem_setupMessages_iff {envelope : Envelope} :
    envelope ∈ initiator.setupMessages modelSource ↔
      ∃ k a, initiator.plan.assignments[k]? = some a ∧
        envelope = (a.peerId, initiator.assignMessage modelSource k a) := by
  rw [setupMessages, List.mem_iff_getElem?]
  simp only [List.getElem?_mapIdx, Option.map_eq_some_iff]
  exact exists_congr fun k => exists_congr fun a => and_congr_right fun _ => eq_comm

theorem nextPeer_assignMessage (modelSource : String) (k : ℕ) (a : LayerAssignment F) :
    (initiator.assignMessage modelSource k a).nextPeer =
      initiator.plan.assignments[k + 1]?.map LayerAssignment.peerId := rfl

/-- Where each stage hands on to the peer that starts where it stops, the assignments are stored in
layer order. -/
theorem storedInLayerOrder_of_handsOn (h : initiator.plan.Partitioned)
    (hhands : ∀ envelope ∈ initiator.setupMessages modelSource,
      ∀ a ∈ initiator.plan.assignments, a.peerId = envelope.1 →
        envelope.2.nextPeer = initiator.plan.startingAt a.layerRange.stop) :
    initiator.plan.StoredInLayerOrder := by
  obtain ⟨ordered, hperm, htiles⟩ := h.exists_order
  apply List.isChain_iff_pairwise.mp
  rw [List.isChain_iff_getElem]
  intro k hk
  set a := initiator.plan.assignments[k] with ha
  set b := initiator.plan.assignments[k + 1] with hb
  have hget : initiator.plan.assignments[k]? = some a := List.getElem?_eq_getElem _
  have hamem : a ∈ initiator.plan.assignments := List.getElem_mem _
  have hbmem : b ∈ initiator.plan.assignments := List.getElem_mem _
  have hnext := hhands _ (mem_setupMessages_iff.mpr ⟨k, a, hget, rfl⟩) a hamem rfl
  rw [nextPeer_assignMessage, List.getElem?_eq_getElem hk, Option.map_some] at hnext
  have hbounds := htiles.bounds (List.mem_map_of_mem (hperm.mem_iff.mpr hamem))
  -- the range of the next peer starts where this one stops
  have hlt : a.layerRange.stop < initiator.plan.totalLayers := by
    apply lt_of_le_of_ne hbounds.2.2
    intro hlast
    rw [hlast, h.startingAt_totalLayers] at hnext
    cases hnext
  obtain ⟨range, hrange, hstart⟩ :=
    htiles.exists_start_eq_stop (List.mem_map_of_mem (hperm.mem_iff.mpr hamem)) hlt
  obtain ⟨c, hc, rfl⟩ := List.mem_map.mp hrange
  rw [← hstart, h.startingAt_start (hperm.mem_iff.mp hc)] at hnext
  have hsame : b = c := List.inj_on_of_nodup_map h.distinct hbmem (hperm.mem_iff.mp hc)
    (Option.some_inj.mp hnext)
  rw [hsame, hstart]
  exact hbounds.2.1

/-- An action that sends an activation sends it to this peer. -/
def ActivatesOnly (firstWorker : NodeId) (action : StreamAction) : Prop :=
  ∀ peer message, action = .send peer message → message.IsActivation → peer = firstWorker

section Activations

variable {H : Type*} {handler : MeshPipelineHandler H} {environment : StreamEnvironment}
  {firstWorker : NodeId}

theorem activatesOnly_releaseActions :
    ∀ action ∈ initiator.releaseActions, ActivatesOnly firstWorker action := by
  intro action hmem peer message hsend hactivation
  obtain ⟨envelope, henvelope, rfl⟩ := List.mem_map.mp hmem
  obtain ⟨a, -, rfl⟩ := List.mem_map.mp henvelope
  cases hsend
  exact absurd hactivation id

/-- A turn sends at most its activation, to the first worker. -/
theorem activatesOnly_feedToken (s : H) (position tokenId : ℕ) :
    ∀ action ∈ (feedToken initiator handler environment firstWorker s position tokenId).1,
      ActivatesOnly firstWorker action := by
  intro action hmem peer message hsend hactivation
  subst hsend
  rw [feedToken] at hmem
  dsimp only at hmem
  split at hmem
  · simp at hmem
  · split at hmem <;> split at hmem <;>
      simp only [List.cons_append, List.nil_append, List.mem_cons, List.not_mem_nil, reduceCtorEq,
        StreamAction.send.injEq, false_or, or_false] at hmem <;> exact hmem.1

theorem activatesOnly_generateToken (s : H) (position : ℕ) (data : List UInt8) :
    ∀ action ∈ (generateToken initiator handler environment firstWorker s position data).1,
      ActivatesOnly firstWorker action := by
  intro action hmem peer message hsend
  subst hsend
  rw [generateToken] at hmem
  dsimp only at hmem
  split at hmem
  · simp at hmem
  · split at hmem
    · simp at hmem
    · split at hmem
      · simp at hmem
      · split at hmem
        · simp at hmem
        · rw [List.mem_cons, List.mem_cons] at hmem
          rcases hmem with hmem | hmem | hmem
          · cases hmem
          · cases hmem
          · exact activatesOnly_feedToken _ position _ _ hmem peer message rfl

/-- Whatever is delivered, the loop sends its activations to the first worker. -/
theorem activatesOnly_generate (maxTokens position : ℕ) (s : H)
    (received : List (Except MeshError Envelope)) :
    ∀ action ∈ generate initiator handler environment firstWorker maxTokens position s received,
      ActivatesOnly firstWorker action := by
  have hclear : ∀ action ∈ StreamAction.clearCheckpoints :: initiator.releaseActions,
      ActivatesOnly firstWorker action :=
    List.forall_mem_cons.mpr ⟨by simp [ActivatesOnly], activatesOnly_releaseActions⟩
  induction received generalizing position s with
  | nil =>
      rw [generate.eq_def]
      dsimp only
      split
      · exact hclear
      · exact fun action hmem => absurd hmem List.not_mem_nil
  | cons delivered rest ih =>
      rw [generate.eq_def]
      dsimp only
      split
      · exact hclear
      split
      · split
        · have hturn := @activatesOnly_generateToken F initiator H handler environment firstWorker s
            position
          split
          · exact List.forall_mem_append.mpr ⟨hturn _, ih _ _⟩
          · exact List.forall_mem_append.mpr ⟨hturn _, hclear⟩
          · exact hturn _
        · exact ih _ _
      · exact List.forall_mem_cons.mpr ⟨by simp [ActivatesOnly], activatesOnly_releaseActions⟩
      · exact List.forall_mem_singleton.mpr (by simp [ActivatesOnly])
      · exact ih _ _

/-- All activations of a stream go to the first peer of the plan. -/
theorem exists_first_of_activation {handlerState : H} {promptTokens : List ℕ} {maxTokens : ℕ}
    {received : List (Except MeshError Envelope)} {peer : NodeId} {message : MeshMessage}
    (hsent : .send peer message ∈ streamTokens initiator handler environment handlerState
      promptTokens maxTokens received) (hactivation : message.IsActivation) :
    ∃ first rest, initiator.plan.assignments = first :: rest ∧ peer = first.peerId := by
  rw [streamTokens] at hsent
  split at hsent
  · simp at hsent
  rename_i first rest hplan
  refine ⟨first, rest, hplan, ?_⟩
  dsimp only at hsent
  split at hsent
  · simp at hsent
  · split at hsent
    · simp only [List.mem_cons, List.not_mem_nil, reduceCtorEq, StreamAction.send.injEq, false_or,
        or_false] at hsent
      exact hsent.1
    · rw [List.mem_cons, List.mem_cons] at hsent
      rcases hsent with hsent | hsent | hsent
      · cases hsent
      · cases hsent
        rfl
      · exact activatesOnly_generate _ _ _ _ _ hsent peer message rfl hactivation

end Activations

/-- **The order of the stages.** Setup and streaming follow the layers of a plan if and only if
its assignments are stored in the order of the layers. -/
theorem followsLayerOrder_iff (h : initiator.plan.Partitioned) :
    FollowsLayerOrder.{u} initiator modelSource ↔ initiator.plan.StoredInLayerOrder := by
  refine ⟨fun hfollows => storedInLayerOrder_of_handsOn h hfollows.handsOn, fun hstored => ?_⟩
  have htiles := h.tiles hstored
  constructor
  · intro envelope henvelope stage hstage
    obtain ⟨k, a, hget, rfl⟩ := mem_setupMessages_iff.mp henvelope
    rw [pipelineOrder_of_stored hstored, List.getElem?_map] at hstage
    obtain ⟨b, hb, hpeer⟩ := Option.map_eq_some_iff.mp hstage
    -- the stage of a peer is the one at which it is stored
    have hsame : stage = k := by
      have hlt : stage < (initiator.plan.assignments.map LayerAssignment.peerId).length := by
        rw [List.length_map]
        exact (List.getElem?_eq_some_iff.mp hb).1
      rw [← List.getElem?_inj hlt h.distinct, List.getElem?_map, List.getElem?_map, hb, hget,
        Option.map_some, Option.map_some, hpeer]
    rw [nextPeer_assignMessage, pipelineOrder_of_stored hstored, List.getElem?_map, hsame]
  · intro envelope henvelope a ha hpeer
    obtain ⟨k, b, hget, rfl⟩ := mem_setupMessages_iff.mp henvelope
    have hb := List.mem_of_getElem? hget
    have hsame : a = b := List.inj_on_of_nodup_map h.distinct ha hb hpeer
    subst hsame
    rw [nextPeer_assignMessage]
    obtain ⟨hk, rfl⟩ := List.getElem?_eq_some_iff.mp hget
    by_cases hlast : k + 1 < initiator.plan.assignments.length
    · have hmeet := htiles.start_getElem_succ (by rwa [List.length_map])
      rw [List.getElem_map, List.getElem_map] at hmeet
      rw [← hmeet, h.startingAt_start (List.getElem_mem hlast), List.getElem?_eq_getElem hlast]
      rfl
    · have hend := (htiles.stop_eq_iff (by rwa [List.length_map])).mpr
        (by rw [List.length_map]; omega : k + 1 = _)
      rw [List.getElem_map] at hend
      rw [hend, h.startingAt_totalLayers, List.getElem?_eq_none (not_lt.mp hlast)]
      rfl
  · intro H handler environment handlerState promptTokens maxTokens received peer message hsent
      hactivation
    obtain ⟨first, rest, hplan, rfl⟩ := exists_first_of_activation hsent hactivation
    rw [hplan] at htiles
    refine ⟨first, by rw [hplan]; exact List.mem_cons_self, rfl, htiles.1.le, ?_⟩
    exact lt_of_le_of_lt (Nat.zero_le _) htiles.2.1

/-- The lower and the upper half of a model of 40 layers. -/
def lowerHalf : LayerAssignment ℚ := ⟨.ofByte 1, ⟨0, 20⟩, 10, 5⟩

def upperHalf : LayerAssignment ℚ := ⟨.ofByte 2, ⟨20, 40⟩, 10, 5⟩

/-- The initiator of a plan that stores the two halves in some order. -/
def halvesInitiator (assignments : List (LayerAssignment ℚ)) : PipelineInitiator ℚ where
  plan :=
    { sessionId := 7
      modelId := "test-model"
      totalLayers := 40
      assignments := assignments
      estimatedLatencyMs := 30
      estimatedThroughputTokS := 10 }
  localId := .ofByte 0

theorem partitioned_halves {assignments : List (LayerAssignment ℚ)}
    (hperm : [lowerHalf, upperHalf].Perm assignments) :
    (halvesInitiator assignments).plan.Partitioned where
  exists_order := by
    have htiles : Tiles 0 ([lowerHalf, upperHalf].map LayerAssignment.layerRange) 40 := by decide
    exact ⟨[lowerHalf, upperHalf], hperm, htiles⟩
  distinct := (hperm.map LayerAssignment.peerId).nodup_iff.mp (by decide)

theorem followsLayerOrder_iff_lower_upper :
    FollowsLayerOrder.{0} (halvesInitiator [lowerHalf, upperHalf]) "model" ↔
      (halvesInitiator [lowerHalf, upperHalf]).plan.StoredInLayerOrder :=
  followsLayerOrder_iff (partitioned_halves (List.Perm.refl _))

/-- **Stored with the upper half first**, the lower half has no next peer. -/
theorem upper_lower_not_followsLayerOrder :
    (halvesInitiator [upperHalf, lowerHalf]).plan.Partitioned ∧
      ¬ FollowsLayerOrder.{0} (halvesInitiator [upperHalf, lowerHalf]) "model" := by
  refine ⟨partitioned_halves (List.Perm.swap _ _ _), fun hfollows => ?_⟩
  have hmessage : (lowerHalf.peerId, (halvesInitiator [upperHalf, lowerHalf]).assignMessage
      "model" 1 lowerHalf) ∈ (halvesInitiator [upperHalf, lowerHalf]).setupMessages "model" :=
    mem_setupMessages_iff.mpr ⟨1, lowerHalf, rfl, rfl⟩
  have hnext := hfollows.handsOn _ hmessage lowerHalf
    (List.mem_cons_of_mem _ List.mem_cons_self) rfl
  exact absurd hnext (by decide)

end PipelineInitiator

end HiveBear.Mesh
