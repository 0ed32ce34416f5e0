/-
# A pipeline is a chain of stages

Once setup is over, activations travel over the links between consecutive nodes, and
all other links stay empty. `Running` relates such a network to a chain in which stage
`k` holds the layers of its range. Every step of the network is then a step of the
chain, so what is known about chains is known about the network.
-/

import HiveBear.Mesh.Pipeline.Setup

namespace HiveBear.Mesh.PipelineDeployment

open FifoLinks IntervalTiling LabelledRun LayerFunctions StagePipeline

variable {F S : Type*} (d : PipelineDeployment F S)

/-! ## What travels between consecutive nodes -/

/-- What travels behind the first `k` stages: activations, and logits at the end. -/
def hopMessage (k : ℕ) (x : ℕ × Tensor) : MeshMessage :=
  if k < d.stages.length then tensorMessage d.initiator.sessionId x
  else logitsMessage d.initiator.sessionId x

/-- The links between consecutive nodes carry the queues of a chain, and no other link
carries anything. -/
structure HopsCarry (links : Links NodeId MeshMessage) (queues : ℕ → List (ℕ × Tensor)) :
    Prop where
  hop : ∀ k ≤ d.stages.length,
    links (d.node k) (d.node (k + 1)) = (queues k).map (d.hopMessage k)
  quiet : ∀ src dst, links src dst ≠ [] →
    ∃ k ≤ d.stages.length, src = d.node k ∧ dst = d.node (k + 1)

variable {d} {links : Links NodeId MeshMessage} {queues : ℕ → List (ℕ × Tensor)}

/-- Changing the content of one link between consecutive nodes. -/
theorem HopsCarry.setLink (h : d.HopsCarry links queues) (hdistinct : d.Distinct) {k : ℕ}
    (hk : k ≤ d.stages.length) (xs : List (ℕ × Tensor)) :
    d.HopsCarry
      (FifoLinks.setLink links (d.node k) (d.node (k + 1)) (xs.map (d.hopMessage k)))
      (Function.update queues k xs) where
  hop j hj := by
    by_cases hjk : j = k
    · subst hjk
      rw [setLink_self, Function.update_self]
    · rw [setLink_of_ne _ _ _ (fun heq => hjk (node_injective hdistinct hj hk heq.1)),
        Function.update_of_ne hjk]
      exact h.hop j hj
  quiet src dst hne := by
    by_cases hlink : src = d.node k ∧ dst = d.node (k + 1)
    · exact ⟨k, hk, hlink⟩
    · rw [setLink_of_ne _ _ _ hlink] at hne
      exact h.quiet src dst hne

/-- Sending one more message over such a link. -/
theorem HopsCarry.post (h : d.HopsCarry links queues) (hdistinct : d.Distinct) {k : ℕ}
    (hk : k ≤ d.stages.length) (x : ℕ × Tensor) :
    d.HopsCarry (FifoLinks.post links (d.node k) (d.node (k + 1)) (d.hopMessage k x))
      (Function.update queues k (queues k ++ [x])) := by
  have hset := h.setLink hdistinct hk (queues k ++ [x])
  rwa [List.map_append, List.map_singleton, ← h.hop k hk] at hset

/-- A message on its way to a stage comes from the node in front of it. -/
theorem HopsCarry.to_stage (h : d.HopsCarry links queues) (hdistinct : d.Distinct) {k : ℕ}
    (hk : k < d.stages.length) {sender : NodeId} {message : MeshMessage}
    {rest : List MeshMessage} (head : links sender (d.node (k + 1)) = message :: rest) :
    sender = d.node k ∧ ∃ x xs, queues k = x :: xs ∧
      message = tensorMessage d.initiator.sessionId x ∧ rest = xs.map (d.hopMessage k) := by
  obtain ⟨j, hj, rfl, hnode⟩ := h.quiet sender _ (by rw [head]; exact List.cons_ne_nil _ _)
  have hjk : j = k := by
    rcases Nat.lt_or_eq_of_le hj with hlt | rfl
    · exact (Nat.succ.inj (node_injective hdistinct hk hlt hnode)).symm
    · rw [d.node_of_length_lt (Nat.lt_succ_self _), ← node_zero] at hnode
      exact absurd (node_injective hdistinct hk (Nat.zero_le _) hnode) (Nat.succ_ne_zero k)
  subst hjk
  rw [h.hop j hj] at head
  obtain ⟨x, xs, hqueue, hmessage, hrest⟩ := List.map_eq_cons_iff.mp head
  rw [hopMessage, if_pos hk] at hmessage
  exact ⟨rfl, x, xs, hqueue, hmessage.symm, hrest.symm⟩

/-- A message on its way to the initiator comes from the last stage. -/
theorem HopsCarry.to_initiator (h : d.HopsCarry links queues) (hdistinct : d.Distinct)
    {sender : NodeId} {message : MeshMessage} {rest : List MeshMessage}
    (head : links sender d.initiator.localId = message :: rest) :
    sender = d.node d.stages.length ∧ ∃ x xs, queues d.stages.length = x :: xs ∧
      message = logitsMessage d.initiator.sessionId x ∧
      rest = xs.map (d.hopMessage d.stages.length) := by
  obtain ⟨j, hj, rfl, hnode⟩ := h.quiet sender _ (by rw [head]; exact List.cons_ne_nil _ _)
  have hjn : j = d.stages.length := by
    rcases Nat.lt_or_eq_of_le hj with hlt | heq
    · rw [← node_zero] at hnode
      exact absurd (node_injective hdistinct (Nat.zero_le _) hlt hnode).symm (Nat.succ_ne_zero j)
    · exact heq
  subst hjn
  rw [hnode, h.hop _ hj] at head
  obtain ⟨x, xs, hqueue, hmessage, hrest⟩ := List.map_eq_cons_iff.mp head
  rw [hopMessage, if_neg (Nat.lt_irrefl _)] at hmessage
  exact ⟨rfl, x, xs, hqueue, hmessage.symm, hrest.symm⟩

/-! ## Where a stage sends its output -/

/-- In a well-formed plan exactly the last range reaches the end of the model. -/
theorem stop_eq_totalLayers_iff (hplan : d.initiator.plan.WellFormed) {k : ℕ}
    {a : LayerAssignment F} (ha : d.stages[k]? = some a) :
    a.layerRange.stop = d.initiator.plan.totalLayers ↔ k + 1 = d.stages.length := by
  have htiles : Tiles 0 (d.stages.map LayerAssignment.layerRange) d.initiator.plan.totalLayers :=
    hplan.tiles
  obtain ⟨hk, hget⟩ := List.getElem?_eq_some_iff.mp ha
  have hlt : k < (d.stages.map LayerAssignment.layerRange).length := by
    rw [List.length_map]
    exact hk
  simpa only [List.getElem_map, List.length_map, hget] using htiles.stop_eq_iff hlt

/-- Every stage but the last sends its output to the next one, and the last one sends
logits to the initiator. -/
theorem stageOutput_stageSession (hplan : d.initiator.plan.WellFormed) {k : ℕ}
    {a : LayerAssignment F} (ha : d.stages[k]? = some a) (output : ℕ × Tensor) :
    stageOutput (d.stageSession k a) output =
      [(d.node (k + 2), d.hopMessage (k + 1) output)] := by
  have hlast : (d.stageSession k a).layerRange.stop = (d.stageSession k a).totalLayers ↔
      k + 1 = d.stages.length := stop_eq_totalLayers_iff hplan ha
  by_cases hk : k + 1 = d.stages.length
  · rw [stageOutput, if_pos (hlast.mpr hk), hopMessage, if_neg (Nat.not_lt.mpr hk.ge),
      d.node_of_length_lt (hk ▸ Nat.lt_succ_self _)]
    rfl
  · have hlt : k + 1 < d.stages.length :=
      lt_of_le_of_ne (List.getElem?_eq_some_iff.mp ha).1 hk
    have hnext := List.getElem?_eq_getElem hlt
    have hpeer : (d.stageSession k a).nextPeer = some d.stages[k + 1].peerId := by
      rw [stageSession, hnext]
      rfl
    rw [stageOutput, if_neg (fun heq => hk (hlast.mp heq)), hopMessage, if_pos hlt,
      d.node_succ hnext, hpeer]
    rfl

/-! ## The network is a chain of stages -/

variable (d) in
/-- The network after setup and the chain it implements. -/
structure Running (net : PipelineNetwork S) (p : Pipeline (List (ℕ × S)) (ℕ × Tensor)) :
    Prop where
  ready : d.Ready net
  hops : d.HopsCarry net.links p.queues
  handler : ∀ k a, d.stages[k]? = some a →
    (net.workers a.peerId).handler = some (p.stages k)
  session : ∀ k a, d.stages[k]? = some a →
    (net.workers a.peerId).sessions d.initiator.sessionId = some (d.stageSession k a)
  fed : net.fed = p.fed
  received : net.received = p.received.map fun x =>
    (d.node d.stages.length, logitsMessage d.initiator.sessionId x)

variable {net : PipelineNetwork S} {p : Pipeline (List (ℕ × S)) (ℕ × Tensor)}

/-- Setup leaves a chain whose stages hold fresh layers. -/
theorem running_of_settingUp {status : ℕ → StageStatus} (h : d.SettingUp net status)
    (hready : d.Ready net) : d.Running net (Pipeline.start d.stageStack) := by
  have hempty : ∀ src dst, net.links src dst = [] := by
    intro src dst
    by_contra hne
    obtain ⟨k, a, ha, hlink⟩ := h.quiet src dst hne
    have hstatus := h.ready hready (List.getElem?_eq_some_iff.mp ha).1
    rcases hlink with ⟨rfl, rfl⟩ | ⟨rfl, rfl⟩
    · exact hne (by rw [h.outgoing k a ha, hstatus]; rfl)
    · exact hne (by rw [h.returning k a ha, hstatus]; rfl)
  have hloaded : ∀ k a, d.stages[k]? = some a → d.Loaded net k a := fun k a ha =>
    h.loaded k a ha (Or.inr (h.ready hready (List.getElem?_eq_some_iff.mp ha).1))
  exact
    { ready := hready
      hops := ⟨fun _ _ => hempty _ _, fun src dst hne => absurd (hempty src dst) hne⟩
      handler := fun k a ha => (hloaded k a ha).1
      session := fun k a ha => (hloaded k a ha).2
      fed := h.fed
      received := h.received }

/-- An activation enters the pipeline. -/
theorem Running.feed (h : d.Running net p) (hdistinct : d.Distinct) {first : LayerAssignment F}
    {others : List (LayerAssignment F)} (hstages : d.stages = first :: others)
    (activation : ℕ × Tensor) :
    d.Running
      { net with
        links := FifoLinks.post net.links d.initiator.localId first.peerId
          (d.initiator.activationMessage activation.1 activation.2.data activation.2.shape
            activation.2.dtype)
        fed := net.fed ++ [activation] }
      (p.feed activation) := by
  have hpos : 0 < d.stages.length := by
    rw [hstages]
    exact Nat.succ_pos _
  have hfirst : d.node 1 = first.peerId := d.node_succ (by rw [hstages]; rfl)
  have hmessage : d.hopMessage 0 activation =
      d.initiator.activationMessage activation.1 activation.2.data activation.2.shape
        activation.2.dtype := by
    rw [hopMessage, if_pos hpos]
    rfl
  have hhops := h.hops.post hdistinct (Nat.zero_le _) activation
  rw [hmessage, hfirst] at hhops
  exact
    { ready := h.ready
      hops := hhops
      handler := h.handler
      session := h.session
      fed := congrArg (· ++ [activation]) h.fed
      received := h.received }

/-- A worker handles the next activation. -/
theorem Running.deliver (h : d.Running net p) (hplan : d.initiator.plan.WellFormed)
    (hdistinct : d.Distinct) {k : ℕ} {a : LayerAssignment F} (ha : d.stages[k]? = some a)
    {sender : NodeId} {message : MeshMessage} {rest : List MeshMessage}
    (head : net.links sender a.peerId = message :: rest) :
    ∃ x xs, p.queues k = x :: xs ∧
      d.Running (d.deliver net sender a.peerId message rest)
        (p.fire d.functions.react k x xs) := by
  have hk := (List.getElem?_eq_some_iff.mp ha).1
  have hnode := d.node_succ ha
  rw [← hnode] at head
  obtain ⟨rfl, x, xs, hqueue, rfl, rfl⟩ := h.hops.to_stage hdistinct hk head
  have hsession : (net.workers a.peerId).sessions (d.stageSession k a).sessionId =
      some (d.stageSession k a) := h.session k a ha
  obtain ⟨hstate, hsends⟩ := handle_activation d.functions d.sha256 a.peerId (d.node k)
    (net.workers a.peerId) (h.handler k a ha) hsession x
  rw [stageSession_sessionId] at hstate
  rw [stageSession_sessionId, stageOutput_stageSession hplan ha] at hsends
  have hdeliver : d.deliver net (d.node k) a.peerId (tensorMessage d.initiator.sessionId x)
      (xs.map (d.hopMessage k)) =
    { net with
      links := FifoLinks.post
        (FifoLinks.setLink net.links (d.node k) (d.node (k + 1)) (xs.map (d.hopMessage k)))
        (d.node (k + 1)) (d.node (k + 2))
        (d.hopMessage (k + 1) (d.functions.react (p.stages k) x).2)
      workers := Function.update net.workers a.peerId
        ⟨some (d.functions.react (p.stages k) x).1, (net.workers a.peerId).sessions⟩ } := by
    show ({ net with links := _, workers := _ } : PipelineNetwork S) = _
    rw [hstate, hsends, hnode, postAll_singleton]
  refine ⟨x, xs, hqueue, ?_⟩
  rw [hdeliver]
  have hhops := (h.hops.setLink hdistinct hk.le xs).post hdistinct hk
    (d.functions.react (p.stages k) x).2
  rw [Function.update_of_ne (Nat.succ_ne_self k)] at hhops
  exact
    { ready := h.ready
      hops := hhops
      handler := by
        intro j b hb
        show (Function.update net.workers a.peerId _ b.peerId).handler =
          some (Function.update p.stages k _ j)
        by_cases hjk : j = k
        · subst hjk
          cases ha.symm.trans hb
          rw [Function.update_self, Function.update_self]
        · rw [Function.update_of_ne (fun heq => hjk (hdistinct.stage_eq hb ha heq)),
            Function.update_of_ne hjk]
          exact h.handler j b hb
      session := by
        intro j b hb
        show (Function.update net.workers a.peerId _ b.peerId).sessions _ = _
        by_cases hpeer : b.peerId = a.peerId
        · rw [← h.session j b hb, hpeer, Function.update_self]
        · rw [Function.update_of_ne hpeer]
          exact h.session j b hb
      fed := h.fed
      received := h.received }

/-- The initiator receives logits. -/
theorem Running.receive (h : d.Running net p) (hdistinct : d.Distinct) {sender : NodeId}
    {message : MeshMessage} {rest : List MeshMessage}
    (head : net.links sender d.initiator.localId = message :: rest) :
    ∃ x xs, p.queues d.stages.length = x :: xs ∧
      d.Running
        { net with
          links := FifoLinks.setLink net.links sender d.initiator.localId rest
          received := net.received ++ [(sender, message)] }
        (p.emit d.stages.length x xs) := by
  obtain ⟨rfl, x, xs, hqueue, rfl, rfl⟩ := h.hops.to_initiator hdistinct head
  have hhops := h.hops.setLink hdistinct (Nat.le_refl _) xs
  rw [d.node_of_length_lt (Nat.lt_succ_self _)] at hhops
  refine ⟨x, xs, hqueue, ?_⟩
  exact
    { ready := h.ready
      hops := hhops
      handler := h.handler
      session := h.session
      fed := h.fed
      received := by
        show net.received ++ _ = (p.received ++ [x]).map _
        rw [h.received, List.map_append]
        rfl }

variable (d) in
/-- A network implements a chain: it is still being set up and the chain has not been
used, or setup is over and the two agree. -/
def Implements (net : PipelineNetwork S) (p : Pipeline (List (ℕ × S)) (ℕ × Tensor)) : Prop :=
  (∃ status, d.SettingUp net status) ∧ p = Pipeline.start d.stageStack ∨ d.Running net p

/-- Every step of a running network is a step of its chain. -/
theorem Running.step (h : d.Running net p) (hplan : d.initiator.plan.WellFormed)
    (hdistinct : d.Distinct) {event : PipelineEvent} {net' : PipelineNetwork S}
    (step : d.Step net event net') :
    ∃ label p', StagePipeline.Step d.functions.react d.stages.length p label p' ∧
      d.Running net' p' := by
  cases step with
  | @assign peer message _ next =>
      obtain ⟨a, ha, -⟩ := d.setupMessages_eq_some next
      rw [h.ready.2.1, List.getElem?_eq_none (Nat.le_refl _)] at ha
      cases ha
  | @collect sender message rest _ _ waiting _ =>
      exact absurd h.ready.2.2 (Nat.ne_of_lt waiting)
  | @deliver sender a message rest member head =>
      obtain ⟨k, ha⟩ := List.getElem?_of_mem member
      obtain ⟨x, xs, hqueue, hrunning⟩ := h.deliver hplan hdistinct ha head
      exact ⟨_, _, StagePipeline.Step.fire (List.getElem?_eq_some_iff.mp ha).1 hqueue, hrunning⟩
  | @feed first others activation _ plan =>
      exact ⟨_, _, StagePipeline.Step.feed, h.feed hdistinct plan activation⟩
  | @receive sender message rest _ head =>
      obtain ⟨x, xs, hqueue, hrunning⟩ := h.receive hdistinct head
      exact ⟨_, _, StagePipeline.Step.emit hqueue, hrunning⟩

/-- Every step of the network is a step of its chain, or one of setup, which leaves the
chain alone. -/
theorem Implements.step (h : d.Implements net p) (hplan : d.initiator.plan.WellFormed)
    (hdistinct : d.Distinct) {event : PipelineEvent} {net' : PipelineNetwork S}
    (step : d.Step net event net') :
    d.Implements net' p ∨
      ∃ label p', StagePipeline.Step d.functions.react d.stages.length p label p' ∧
        d.Implements net' p' := by
  have hrunning : d.Running net p → ∃ label p',
      StagePipeline.Step d.functions.react d.stages.length p label p' ∧
        d.Implements net' p' := by
    intro hrunning
    obtain ⟨label, p', hchain, hnext⟩ := hrunning.step hplan hdistinct step
    exact ⟨label, p', hchain, Or.inr hnext⟩
  rcases h with ⟨⟨status, hsetup⟩, rfl⟩ | h
  · cases step with
    | assign _ next => exact Or.inl (Or.inl ⟨⟨_, hsetup.assign hdistinct next⟩, rfl⟩)
    | collect _ _ _ _ head =>
        obtain ⟨k, a, ha, rfl, hstatus, rfl, rfl⟩ := hsetup.ack_of_head hdistinct head
        exact Or.inl (Or.inl ⟨⟨_, hsetup.collect hdistinct ha hstatus⟩, rfl⟩)
    | deliver _ member head =>
        obtain ⟨k, ha⟩ := List.getElem?_of_mem member
        exact Or.inl (Or.inl ⟨⟨_, hsetup.deliver hdistinct ha head⟩, rfl⟩)
    | feed _ ready _ => exact Or.inr (hrunning (running_of_settingUp hsetup ready))
    | receive _ ready _ => exact Or.inr (hrunning (running_of_settingUp hsetup ready))
  · exact Or.inr (hrunning h)

/-- Every run of the network is a run of a chain. -/
theorem exists_chain_of_run (hplan : d.initiator.plan.WellFormed) (hdistinct : d.Distinct)
    {events : List PipelineEvent} (run : Run d.Step PipelineNetwork.start events net) :
    ∃ labels p, Run (StagePipeline.Step d.functions.react d.stages.length)
      (Pipeline.start d.stageStack) labels p ∧ d.Implements net p := by
  apply Run.simulation _ run
  · exact Or.inl ⟨⟨_, settingUp_start⟩, rfl⟩
  · intro s label s' t himplements step
    exact himplements.step hplan hdistinct step

/-! ## The network runs empty -/

/-- Without further activations, every step of the chain is a step of the network. -/
theorem Running.drain (h : d.Running net p) (hplan : d.initiator.plan.WellFormed)
    (hdistinct : d.Distinct) {label : Label (ℕ × Tensor)}
    {q : Pipeline (List (ℕ × S)) (ℕ × Tensor)}
    (step : Drain d.functions.react d.stages.length p label q) :
    ∃ event net', d.Step net event net' ∧ d.Running net' q := by
  obtain ⟨hinternal, hstep⟩ := step
  cases hstep with
  | feed => exact absurd hinternal id
  | @fire k x rest hk head =>
      have ha := List.getElem?_eq_getElem hk
      have hlink := h.hops.hop k hk.le
      rw [head, List.map_cons, d.node_succ ha] at hlink
      obtain ⟨x', rest', hqueue, hrunning⟩ := h.deliver hplan hdistinct ha hlink
      cases head.symm.trans hqueue
      exact ⟨_, _, Step.deliver _ (List.getElem_mem hk) hlink, hrunning⟩
  | @emit x rest head =>
      have hlink := h.hops.hop _ (Nat.le_refl _)
      rw [head, List.map_cons, d.node_of_length_lt (Nat.lt_succ_self _)] at hlink
      obtain ⟨x', rest', hqueue, hrunning⟩ := h.receive hdistinct hlink
      cases head.symm.trans hqueue
      exact ⟨_, _, Step.receive _ h.ready hlink, hrunning⟩

/-- A chain with empty queues leaves nothing on its way. -/
theorem HopsCarry.links_eq_nil (h : d.HopsCarry links queues)
    (hempty : ∀ k ≤ d.stages.length, queues k = []) (src dst : NodeId) :
    links src dst = [] := by
  by_contra hne
  obtain ⟨k, hk, rfl, rfl⟩ := h.quiet src dst hne
  exact hne (by rw [h.hop k hk, hempty k hk, List.map_nil])

/-- Once setup is over, the network can run until no message is on its way. -/
theorem Running.exists_drained (h : d.Running net p) (hplan : d.initiator.plan.WellFormed)
    (hdistinct : d.Distinct) :
    ∃ events net', Run d.Step net events net' ∧ net'.fed = net.fed ∧
      ∀ src dst, net'.links src dst = [] := by
  obtain ⟨labels, q, hdrain, hfed, hempty⟩ :=
    StagePipeline.exists_drained d.functions.react d.stages.length p
  have hrun : ∃ events net', Run d.Step net events net' ∧ d.Running net' q := by
    apply Run.simulation _ hdrain
    · exact h
    · intro s label s' t hrunning step
      obtain ⟨event, net', hstep, hnext⟩ := hrunning.drain hplan hdistinct step
      exact Or.inr ⟨event, net', hstep, hnext⟩
  obtain ⟨events, net', hnetwork, hrunning⟩ := hrun
  refine ⟨events, net', hnetwork, ?_, hrunning.hops.links_eq_nil hempty⟩
  rw [hrunning.fed, hfed, h.fed]

end HiveBear.Mesh.PipelineDeployment
