/-
# Setting up a pipeline

During setup each stage passes through four states: not assigned yet, its assignment
on the way to it, its acknowledgement on the way back, and ready. `SettingUp` says
what the network looks like when every stage is in a given state; the three steps of
setup each move one stage on. Since only ready stages count as acknowledged, setup
ends when every stage has loaded its range and no message is on its way.
-/

import HiveBear.Mesh.Pipeline.Network
import Mathlib.Data.Finset.Card

namespace HiveBear.Mesh.PipelineDeployment

open FifoLinks IntervalTiling LabelledRun

variable {F S : Type*} (d : PipelineDeployment F S)

/-- What the worker of stage `k` remembers about the session. -/
def stageSession (k : ℕ) (a : LayerAssignment F) : WorkerSession where
  sessionId := d.initiator.sessionId
  modelId := d.initiator.plan.modelId
  layerRange := a.layerRange
  totalLayers := d.initiator.plan.totalLayers
  modelSource := d.modelSource
  nextPeer := d.stages[k + 1]?.map LayerAssignment.peerId
  initiatorPeer := d.initiator.localId

@[simp]
theorem stageSession_sessionId (k : ℕ) (a : LayerAssignment F) :
    (d.stageSession k a).sessionId = d.initiator.sessionId := rfl

/-- The assignment of a stage spells its session. -/
theorem assignMessage_eq (k : ℕ) (a : LayerAssignment F) :
    d.initiator.assignMessage d.modelSource k a =
      .assignLayers (d.stageSession k a).sessionId (d.stageSession k a).modelId
        (d.stageSession k a).layerRange (d.stageSession k a).totalLayers
        (d.stageSession k a).modelSource (d.stageSession k a).nextPeer
        (d.stageSession k a).initiatorPeer := rfl

/-- The layers of stage `k` in their initial states. -/
def stageStack (k : ℕ) : List (ℕ × S) :=
  (d.stages[k]?.map fun a => d.functions.freshStack d.modelSource a.layerRange.toList).getD []

theorem stageStack_eq {k : ℕ} {a : LayerAssignment F} (h : d.stages[k]? = some a) :
    d.stageStack k = d.functions.freshStack d.modelSource a.layerRange.toList := by
  rw [stageStack, h]
  rfl

/-- How far setup has come with a stage. -/
inductive StageStatus
  | unassigned
  | assigning
  | acknowledging
  | ready
  deriving DecidableEq

/-- What is on its way to a stage. -/
def assignQueue (k : ℕ) (a : LayerAssignment F) : StageStatus → List MeshMessage
  | .assigning => [d.initiator.assignMessage d.modelSource k a]
  | _ => []

/-- What is on its way back from a stage. -/
def ackQueue : StageStatus → List MeshMessage
  | .acknowledging => [.assignLayersAck d.initiator.sessionId true none]
  | _ => []

/-- A stage has loaded its range and knows its session. -/
def Loaded (net : PipelineNetwork S) (k : ℕ) (a : LayerAssignment F) : Prop :=
  (net.workers a.peerId).handler = some (d.stageStack k) ∧
    (net.workers a.peerId).sessions d.initiator.sessionId = some (d.stageSession k a)

/-- The stages that setup is done with. -/
def readyStages (status : ℕ → StageStatus) : Finset ℕ :=
  (Finset.range d.stages.length).filter fun k => status k = .ready

/-- The network during setup, with every stage in a given state. -/
structure SettingUp (net : PipelineNetwork S) (status : ℕ → StageStatus) : Prop where
  setupError : net.setupError = none
  fed : net.fed = []
  received : net.received = []
  unassigned : ∀ k, net.assigned ≤ k → status k = .unassigned
  acks : net.acks = (d.readyStages status).card
  outgoing : ∀ k a, d.stages[k]? = some a →
    net.links d.initiator.localId a.peerId = d.assignQueue k a (status k)
  returning : ∀ k a, d.stages[k]? = some a →
    net.links a.peerId d.initiator.localId = d.ackQueue (status k)
  loaded : ∀ k a, d.stages[k]? = some a →
    status k = .acknowledging ∨ status k = .ready → d.Loaded net k a
  quiet : ∀ src dst, net.links src dst ≠ [] → ∃ (k : ℕ) (a : LayerAssignment F),
    d.stages[k]? = some a ∧
      (src = d.initiator.localId ∧ dst = a.peerId ∨ src = a.peerId ∧ dst = d.initiator.localId)

/-- The initiator and the peers of the plan are different nodes. -/
def Distinct : Prop :=
  (d.initiator.localId :: d.stages.map LayerAssignment.peerId).Nodup

variable {d} {net : PipelineNetwork S} {status : ℕ → StageStatus}

/-- A peer runs one stage only. -/
theorem Distinct.stage_eq (h : d.Distinct) {j k : ℕ} {a b : LayerAssignment F}
    (ha : d.stages[j]? = some a) (hb : d.stages[k]? = some b) (heq : a.peerId = b.peerId) :
    j = k := by
  have hj := (List.getElem?_eq_some_iff.mp ha).1
  have hk := (List.getElem?_eq_some_iff.mp hb).1
  have hnode : d.node (j + 1) = d.node (k + 1) := by
    rw [d.node_succ ha, d.node_succ hb, heq]
  exact Nat.succ.inj (node_injective h hj hk hnode)

/-- The initiator runs no stage. -/
theorem Distinct.peerId_ne (h : d.Distinct) {k : ℕ} {a : LayerAssignment F}
    (ha : d.stages[k]? = some a) : a.peerId ≠ d.initiator.localId := by
  intro heq
  have hk := (List.getElem?_eq_some_iff.mp ha).1
  have hnode : d.node (k + 1) = d.node 0 := by rw [d.node_succ ha, node_zero, heq]
  exact absurd (node_injective h hk (Nat.zero_le _) hnode) (Nat.succ_ne_zero k)

theorem settingUp_start : d.SettingUp PipelineNetwork.start fun _ => .unassigned where
  setupError := rfl
  fed := rfl
  received := rfl
  unassigned _ _ := rfl
  acks := by simp [readyStages, PipelineNetwork.start]
  outgoing _ _ _ := rfl
  returning _ _ _ := rfl
  loaded _ _ _ hstatus := by simp at hstatus
  quiet _ _ hne := absurd rfl hne

/-- Moving a stage on without making it ready leaves the ready stages alone. -/
theorem readyStages_update {k : ℕ} {next : StageStatus} (hold : status k ≠ .ready)
    (hnew : next ≠ .ready) :
    d.readyStages (Function.update status k next) = d.readyStages status := by
  apply Finset.filter_congr
  intro j _
  by_cases hj : j = k
  · subst hj
    rw [Function.update_self]
    exact iff_of_false hnew hold
  · rw [Function.update_of_ne hj]

/-- Moving one stage on touches its worker and the two links between it and the
initiator; everything else about the network stays as it was. -/
theorem SettingUp.move (h : d.SettingUp net status) (hdistinct : d.Distinct) {k : ℕ}
    {a : LayerAssignment F} (ha : d.stages[k]? = some a) {net' : PipelineNetwork S}
    {next : StageStatus}
    (hsame : net'.setupError = net.setupError ∧ net'.fed = net.fed ∧
      net'.received = net.received)
    (hunassigned : ∀ j, net'.assigned ≤ j → Function.update status k next j = .unassigned)
    (hacks : net'.acks = (d.readyStages (Function.update status k next)).card)
    (hout : net'.links d.initiator.localId a.peerId = d.assignQueue k a next)
    (hback : net'.links a.peerId d.initiator.localId = d.ackQueue next)
    (hloaded : next = .acknowledging ∨ next = .ready → d.Loaded net' k a)
    (hlinks : ∀ src dst, ¬ (src = d.initiator.localId ∧ dst = a.peerId) →
      ¬ (src = a.peerId ∧ dst = d.initiator.localId) → net'.links src dst = net.links src dst)
    (hworkers : ∀ peer ≠ a.peerId, net'.workers peer = net.workers peer) :
    d.SettingUp net' (Function.update status k next) := by
  have hother : ∀ {j b}, d.stages[j]? = some b → j ≠ k → b.peerId ≠ a.peerId :=
    fun hb hj heq => hj (hdistinct.stage_eq hb ha heq)
  refine ⟨hsame.1.trans h.setupError, hsame.2.1.trans h.fed, hsame.2.2.trans h.received,
    hunassigned, hacks, ?_, ?_, ?_, ?_⟩
  · intro j b hb
    by_cases hj : j = k
    · subst hj
      cases ha.symm.trans hb
      rw [Function.update_self, hout]
    · rw [Function.update_of_ne hj, ← h.outgoing j b hb]
      exact hlinks _ _ (fun heq => hother hb hj heq.2)
        (fun heq => hdistinct.peerId_ne ha heq.1.symm)
  · intro j b hb
    by_cases hj : j = k
    · subst hj
      cases ha.symm.trans hb
      rw [Function.update_self, hback]
    · rw [Function.update_of_ne hj, ← h.returning j b hb]
      exact hlinks _ _ (fun heq => hdistinct.peerId_ne hb heq.1)
        (fun heq => hother hb hj heq.1)
  · intro j b hb hstatus
    by_cases hj : j = k
    · subst hj
      cases ha.symm.trans hb
      rw [Function.update_self] at hstatus
      exact hloaded hstatus
    · rw [Function.update_of_ne hj] at hstatus
      rw [Loaded, hworkers _ (hother hb hj)]
      exact h.loaded j b hb hstatus
  · intro src dst hne
    by_cases hout : src = d.initiator.localId ∧ dst = a.peerId
    · exact ⟨k, a, ha, Or.inl hout⟩
    by_cases hback : src = a.peerId ∧ dst = d.initiator.localId
    · exact ⟨k, a, ha, Or.inr hback⟩
    rw [hlinks src dst hout hback] at hne
    exact h.quiet src dst hne

/-- Setup sends an assignment. -/
theorem SettingUp.assign (h : d.SettingUp net status) (hdistinct : d.Distinct)
    {peer : NodeId} {message : MeshMessage}
    (next : (d.initiator.setupMessages d.modelSource)[net.assigned]? = some (peer, message)) :
    d.SettingUp
      { net with
        links := post net.links d.initiator.localId peer message
        assigned := net.assigned + 1 }
      (Function.update status net.assigned .assigning) := by
  obtain ⟨a, ha, rfl, rfl⟩ := d.setupMessages_eq_some next
  have hold : status net.assigned = .unassigned := h.unassigned _ (Nat.le_refl _)
  have hne := hdistinct.peerId_ne ha
  refine h.move hdistinct ha ⟨rfl, rfl, rfl⟩ ?_ ?_ ?_ ?_ ?_ ?_ ?_
  · intro j hj
    rw [Function.update_of_ne (Nat.ne_of_gt hj)]
    exact h.unassigned j (Nat.le_of_succ_le hj)
  · rw [readyStages_update (by rw [hold]; decide) (by decide)]
    exact h.acks
  · show post net.links d.initiator.localId a.peerId _ d.initiator.localId a.peerId = _
    rw [post_self, h.outgoing _ a ha, hold]
    rfl
  · show post net.links d.initiator.localId a.peerId _ a.peerId d.initiator.localId = _
    rw [post_of_ne _ _ _ (fun heq => hne heq.1), h.returning _ a ha, hold]
    rfl
  · intro hnext
    simp at hnext
  · intro src dst hout _
    exact post_of_ne _ _ _ hout _
  · intro peer _
    rfl

/-- Moving on a stage that was assigned leaves the unassigned ones alone. -/
theorem SettingUp.unassigned_update (h : d.SettingUp net status) {k : ℕ}
    (hold : status k ≠ .unassigned) (next : StageStatus) (j : ℕ) (hj : net.assigned ≤ j) :
    Function.update status k next j = .unassigned := by
  have hunassigned := h.unassigned j hj
  rw [Function.update_of_ne, hunassigned]
  intro heq
  exact hold (heq ▸ hunassigned)

/-- A worker that gets a message during setup gets its assignment. -/
theorem SettingUp.assign_of_head (h : d.SettingUp net status) (hdistinct : d.Distinct) {k : ℕ}
    {a : LayerAssignment F} (ha : d.stages[k]? = some a) {sender : NodeId}
    {message : MeshMessage} {rest : List MeshMessage}
    (head : net.links sender a.peerId = message :: rest) :
    sender = d.initiator.localId ∧ status k = .assigning ∧
      message = d.initiator.assignMessage d.modelSource k a ∧ rest = [] := by
  obtain ⟨j, b, hb, hlink⟩ := h.quiet sender a.peerId (by rw [head]; exact List.cons_ne_nil _ _)
  have hsender : sender = d.initiator.localId := by
    rcases hlink with hlink | hlink
    · exact hlink.1
    · exact absurd hlink.2 (hdistinct.peerId_ne ha)
  subst hsender
  rw [h.outgoing k a ha] at head
  cases hstatus : status k with
  | assigning =>
      rw [hstatus] at head
      cases head
      exact ⟨rfl, rfl, rfl, rfl⟩
  | unassigned | acknowledging | ready =>
      rw [hstatus] at head
      cases head

/-- A worker loads its range and acknowledges. -/
theorem SettingUp.deliver (h : d.SettingUp net status) (hdistinct : d.Distinct) {k : ℕ}
    {a : LayerAssignment F} (ha : d.stages[k]? = some a) {sender : NodeId}
    {message : MeshMessage} {rest : List MeshMessage}
    (head : net.links sender a.peerId = message :: rest) :
    d.SettingUp (d.deliver net sender a.peerId message rest)
      (Function.update status k .acknowledging) := by
  obtain ⟨rfl, hold, rfl, rfl⟩ := h.assign_of_head hdistinct ha head
  have hne := hdistinct.peerId_ne ha
  obtain ⟨hstate, hsends⟩ := d.functions.handle_assignLayers d.sha256 a.peerId
    d.initiator.localId (net.workers a.peerId) (d.stageSession k a)
  have hdeliver : d.deliver net d.initiator.localId a.peerId
      (d.initiator.assignMessage d.modelSource k a) [] =
    { net with
      links := post (setLink net.links d.initiator.localId a.peerId []) a.peerId
        d.initiator.localId (.assignLayersAck d.initiator.sessionId true none)
      workers := Function.update net.workers a.peerId
        { handler := some (d.stageStack k)
          sessions := Function.update (net.workers a.peerId).sessions d.initiator.sessionId
            (some (d.stageSession k a)) } } := by
    rw [d.stageStack_eq ha, d.assignMessage_eq]
    show ({ net with links := _, workers := _ } : PipelineNetwork S) = _
    rw [hstate, hsends]
    rfl
  rw [hdeliver]
  refine h.move hdistinct ha ⟨rfl, rfl, rfl⟩ ?_ ?_ ?_ ?_ ?_ ?_ ?_
  · exact h.unassigned_update (by rw [hold]; decide) _
  · rw [readyStages_update (by rw [hold]; decide) (by decide)]
    exact h.acks
  · show post (setLink net.links _ _ []) a.peerId d.initiator.localId _ _ _ = _
    rw [post_of_ne _ _ _ (fun heq => hne heq.1.symm), setLink_self]
    rfl
  · show post (setLink net.links _ _ []) a.peerId d.initiator.localId _ _ _ = _
    rw [post_self, setLink_of_ne _ _ _ (fun heq => hne heq.1), h.returning k a ha, hold]
    rfl
  · intro _
    show (Function.update net.workers a.peerId _ a.peerId).handler = _ ∧
      (Function.update net.workers a.peerId _ a.peerId).sessions d.initiator.sessionId = _
    rw [Function.update_self]
    exact ⟨rfl, Function.update_self _ _ _⟩
  · intro src dst hout hback
    show post (setLink net.links _ _ []) a.peerId d.initiator.localId _ _ _ = _
    rw [post_of_ne _ _ _ hback, setLink_of_ne _ _ _ hout]
  · intro peer hpeer
    exact Function.update_of_ne hpeer _ _

/-- What the initiator gets during setup is the acknowledgement of a stage. -/
theorem SettingUp.ack_of_head (h : d.SettingUp net status) (hdistinct : d.Distinct)
    {sender : NodeId} {message : MeshMessage} {rest : List MeshMessage}
    (head : net.links sender d.initiator.localId = message :: rest) :
    ∃ (k : ℕ) (a : LayerAssignment F), d.stages[k]? = some a ∧ sender = a.peerId ∧
      status k = .acknowledging ∧
      message = .assignLayersAck d.initiator.sessionId true none ∧ rest = [] := by
  obtain ⟨k, a, ha, hlink⟩ := h.quiet sender d.initiator.localId
    (by rw [head]; exact List.cons_ne_nil _ _)
  have hsender : sender = a.peerId := by
    rcases hlink with hlink | hlink
    · exact absurd hlink.2.symm (hdistinct.peerId_ne ha)
    · exact hlink.1
  subst hsender
  rw [h.returning k a ha] at head
  refine ⟨k, a, ha, rfl, ?_⟩
  cases hstatus : status k with
  | acknowledging =>
      rw [hstatus] at head
      cases head
      exact ⟨rfl, rfl, rfl⟩
  | unassigned | assigning | ready =>
      rw [hstatus] at head
      cases head

/-- Making a stage ready adds it to the ready stages. -/
theorem readyStages_update_ready {k : ℕ} (hk : k < d.stages.length)
    (hold : status k ≠ .ready) :
    (d.readyStages (Function.update status k .ready)).card =
      (d.readyStages status).card + 1 := by
  have hinsert : d.readyStages (Function.update status k .ready) =
      insert k (d.readyStages status) := by
    ext j
    simp only [readyStages, Finset.mem_insert, Finset.mem_filter, Finset.mem_range]
    by_cases hj : j = k
    · subst hj
      rw [Function.update_self]
      exact iff_of_true ⟨hk, rfl⟩ (Or.inl rfl)
    · rw [Function.update_of_ne hj, or_iff_right hj]
  rw [hinsert]
  apply Finset.card_insert_of_notMem
  rw [readyStages, Finset.mem_filter, not_and]
  exact fun _ => hold

/-- The acknowledgement of a stage is counted. -/
theorem collect_ack (sender : NodeId) :
    d.collect net sender (.assignLayersAck d.initiator.sessionId true none) [] =
      { net with
        links := setLink net.links sender d.initiator.localId []
        acks := net.acks + 1 } := by
  simp [PipelineDeployment.collect, PipelineInitiator.setupReceive]

/-- The initiator counts an acknowledgement, and the stage is ready. -/
theorem SettingUp.collect (h : d.SettingUp net status) (hdistinct : d.Distinct) {k : ℕ}
    {a : LayerAssignment F} (ha : d.stages[k]? = some a) (hold : status k = .acknowledging) :
    d.SettingUp
      (d.collect net a.peerId (.assignLayersAck d.initiator.sessionId true none) [])
      (Function.update status k .ready) := by
  have hne := hdistinct.peerId_ne ha
  rw [collect_ack]
  refine h.move hdistinct ha ⟨rfl, rfl, rfl⟩ ?_ ?_ ?_ ?_ ?_ ?_ ?_
  · exact h.unassigned_update (by rw [hold]; decide) _
  · show net.acks + 1 = _
    rw [readyStages_update_ready (List.getElem?_eq_some_iff.mp ha).1 (by rw [hold]; decide),
      h.acks]
  · show setLink net.links _ _ [] _ _ = _
    rw [setLink_of_ne _ _ _ (fun heq => hne heq.1.symm), h.outgoing k a ha, hold]
    rfl
  · exact setLink_self _ _ _ _
  · intro _
    exact h.loaded k a ha (Or.inl hold)
  · intro src dst _ hback
    exact setLink_of_ne _ _ _ hback _
  · intro peer _
    rfl

/-- Setup ends with every stage ready. -/
theorem SettingUp.ready (h : d.SettingUp net status) (hready : d.Ready net) {k : ℕ}
    (hk : k < d.stages.length) : status k = .ready := by
  have hcard : (d.readyStages status).card = (Finset.range d.stages.length).card := by
    rw [← h.acks, hready.2.2, Finset.card_range]
  exact Finset.card_filter_eq_iff.mp hcard k (Finset.mem_range.mpr hk)

/-- A stage that is not ready has not been counted. -/
theorem SettingUp.acks_lt (h : d.SettingUp net status) {k : ℕ} (hk : k < d.stages.length)
    (hstatus : status k ≠ .ready) : net.acks < d.stages.length := by
  rw [h.acks, ← Finset.card_range d.stages.length]
  apply Finset.card_lt_card
  exact Finset.filter_ssubset.mpr ⟨k, Finset.mem_range.mpr hk, hstatus⟩

/-- During setup no logits are on their way. -/
theorem SettingUp.isLogits_eq_false (h : d.SettingUp net status) {src dst : NodeId}
    {message : MeshMessage} (hmem : message ∈ net.links src dst) : message.isLogits = false := by
  obtain ⟨k, a, ha, hlink⟩ := h.quiet src dst (List.ne_nil_of_mem hmem)
  rcases hlink with ⟨rfl, rfl⟩ | ⟨rfl, rfl⟩
  · rw [h.outgoing k a ha] at hmem
    cases hstatus : status k with
    | assigning =>
        rw [hstatus] at hmem
        cases List.mem_singleton.mp hmem
        rfl
    | unassigned | acknowledging | ready =>
        rw [hstatus] at hmem
        cases hmem
  · rw [h.returning k a ha] at hmem
    cases hstatus : status k with
    | acknowledging =>
        rw [hstatus] at hmem
        cases List.mem_singleton.mp hmem
        rfl
    | unassigned | assigning | ready =>
        rw [hstatus] at hmem
        cases hmem

/-! ## Setup can finish -/

/-- If each stage can be moved from one state to the next, all stages can. -/
theorem exists_run_moving {good : PipelineNetwork S → (ℕ → StageStatus) → Prop}
    {old new : StageStatus}
    (hmove : ∀ net status k, good net status → k < d.stages.length → status k = old →
      ∃ event net', d.Step net event net' ∧ good net' (Function.update status k new))
    (hgood : good net status) (hold : ∀ k < d.stages.length, status k = old) :
    ∃ events net' status', Run d.Step net events net' ∧ good net' status' ∧
      ∀ k < d.stages.length, status' k = new := by
  have hfront : ∀ m ≤ d.stages.length, ∃ events net' status', Run d.Step net events net' ∧
      good net' status' ∧ (∀ k < m, status' k = new) ∧
      ∀ k < d.stages.length, m ≤ k → status' k = old := by
    intro m
    induction m with
    | zero =>
        intro _
        exact ⟨[], net, status, Run.nil net, hgood, fun k hk => absurd hk (Nat.not_lt_zero k),
          fun k hk _ => hold k hk⟩
    | succ m ih =>
        intro hm
        obtain ⟨events, net', status', hrun, hgood', hnew, hrest⟩ := ih (Nat.le_of_succ_le hm)
        obtain ⟨event, net'', hstep, hgood''⟩ :=
          hmove net' status' m hgood' hm (hrest m hm (Nat.le_refl m))
        refine ⟨_, net'', _, hrun.snoc hstep, hgood'', ?_, ?_⟩
        · intro k hk
          rcases Nat.lt_succ_iff_lt_or_eq.mp hk with hlt | rfl
          · rw [Function.update_of_ne (Nat.ne_of_lt hlt)]
            exact hnew k hlt
          · exact Function.update_self _ _ _
        · intro k hk hmk
          rw [Function.update_of_ne (Nat.ne_of_gt hmk)]
          exact hrest k hk (Nat.le_of_succ_le hmk)
  obtain ⟨events, net', status', hrun, hgood', hnew, -⟩ := hfront _ (Nat.le_refl _)
  exact ⟨events, net', status', hrun, hgood', hnew⟩

/-- Setup can send all assignments. -/
theorem exists_assigned (hdistinct : d.Distinct) {m : ℕ} (hm : m ≤ d.stages.length) :
    ∃ events net status, Run d.Step (PipelineNetwork.start : PipelineNetwork S) events net ∧
      d.SettingUp net status ∧ net.assigned = m ∧ ∀ k < m, status k = .assigning := by
  induction m with
  | zero =>
      exact ⟨[], _, _, Run.nil _, settingUp_start, rfl, fun k hk => absurd hk (Nat.not_lt_zero k)⟩
  | succ m ih =>
      obtain ⟨events, net, status, hrun, hsetup, rfl, hassigning⟩ := ih (Nat.le_of_succ_le hm)
      have hnext := d.setupMessages_getElem? (List.getElem?_eq_getElem hm)
      refine ⟨_, _, _, hrun.snoc (Step.assign hsetup.setupError hnext),
        hsetup.assign hdistinct hnext, rfl, ?_⟩
      intro k hk
      rcases Nat.lt_succ_iff_lt_or_eq.mp hk with hlt | rfl
      · rw [Function.update_of_ne (Nat.ne_of_lt hlt)]
        exact hassigning k hlt
      · exact Function.update_self _ _ _

/-- **Setup can finish.** From the start, a run leads to a network in which all workers
have acknowledged. -/
theorem exists_ready (hdistinct : d.Distinct) :
    ∃ events net, Run d.Step (PipelineNetwork.start : PipelineNetwork S) events net ∧
      d.Ready net := by
  obtain ⟨events, net, status, hrun, hsetup, hassigned, hassigning⟩ :=
    exists_assigned hdistinct (Nat.le_refl d.stages.length)
  -- every worker gets its assignment, then the initiator every acknowledgement
  obtain ⟨events', net', status', hrun', ⟨hsetup', hassigned'⟩, hacknowledging⟩ :
      ∃ events net' status', Run d.Step net events net' ∧
        (d.SettingUp net' status' ∧ net'.assigned = d.stages.length) ∧
        ∀ k < d.stages.length, status' k = .acknowledging := by
    apply exists_run_moving _ ⟨hsetup, hassigned⟩ hassigning
    rintro net status k ⟨hsetup, hassigned⟩ hk hstatus
    have ha := List.getElem?_eq_getElem hk
    have head := hsetup.outgoing k _ ha
    rw [hstatus] at head
    exact ⟨_, _, Step.deliver _ (List.getElem_mem hk) head, hsetup.deliver hdistinct ha head,
      hassigned⟩
  obtain ⟨events'', net'', status'', hrun'', ⟨hsetup'', hassigned''⟩, hready⟩ :
      ∃ events net'' status', Run d.Step net' events net'' ∧
        (d.SettingUp net'' status' ∧ net''.assigned = d.stages.length) ∧
        ∀ k < d.stages.length, status' k = .ready := by
    apply exists_run_moving _ ⟨hsetup', hassigned'⟩ hacknowledging
    rintro net status k ⟨hsetup, hassigned⟩ hk hstatus
    have ha := List.getElem?_eq_getElem hk
    have head := hsetup.returning k _ ha
    rw [hstatus] at head
    have hwaiting : net.acks < d.initiator.plan.peerCount :=
      hsetup.acks_lt hk (by rw [hstatus]; decide)
    refine ⟨_, _, Step.collect _ hsetup.setupError hassigned hwaiting head,
      hsetup.collect hdistinct ha hstatus, ?_⟩
    rw [collect_ack]
    exact hassigned
  refine ⟨_, net'', (hrun.append hrun').append hrun'', hsetup''.setupError, hassigned'', ?_⟩
  rw [hsetup''.acks, readyStages, Finset.filter_true_of_mem, Finset.card_range]
  intro k hk
  exact hready k (Finset.mem_range.mp hk)

end HiveBear.Mesh.PipelineDeployment
