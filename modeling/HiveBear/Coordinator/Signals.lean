/-
# Signals between nodes

Nodes leave signals for each other at the coordinator, which buffers up to 50 of them for
each recipient. Polling takes the whole buffer; deregistering a node and pruning one that
has not been heard of for a minute drop it.

`SignalStep` has one step for each access to a shared map, so that a list of steps is an
order in which the accesses of any number of requests and of the prune task can happen. In
every such order signals are delivered once and in the order in which they were accepted.

A `Request` takes its steps in a row. A signal may be sent to any text whatever, so a buffer
whose recipient is no node stays: the prune task only looks at nodes.
-/

import HiveBear.Coordinator.Peers
import HiveBear.Library.Mailbox
import Mathlib.Algebra.Order.BigOperators.Group.List

namespace HiveBear.Coordinator

open LabelledRun

variable {F : Type}

/-- A signal for a node. -/
structure SignalMessage (F : Type) where
  fromNode : String
  toNode : String
  signalType : String
  payload : Json.Value F

/-- The signal as it is buffered. -/
def SignalMessage.toValue (signal : SignalMessage F) : Json.Value F :=
  .obj [("from_node", .str signal.fromNode), ("to_node", .str signal.toNode),
    ("signal_type", .str signal.signalType), ("payload", signal.payload)]

/-- The maps of the coordinator that signals use. -/
structure SignalState (F : Type) where
  nodes : Nodes F
  signals : AList fun _ : String => List (Json.Value F)

/-- The answer to a signal. -/
inductive StatusCode
  | ok
  | tooManyRequests
  deriving DecidableEq

/-- How many signals are buffered for a recipient. -/
def signalCap : ℕ := 50

/-- How long a node is kept without a heartbeat, in nanoseconds. -/
def pruneAfter : ℕ := 60000000000

/-- Leave a signal. The recipient gets a buffer in any case. -/
def sendSignal (state : SignalState F) (signal : SignalMessage F) : SignalState F × StatusCode :=
  let entry := (state.signals.lookup signal.toNode).getD []
  if entry.length < signalCap then
    ({ state with signals := state.signals.insert signal.toNode (entry ++ [signal.toValue]) }, .ok)
  else
    ({ state with signals := state.signals.insert signal.toNode entry }, .tooManyRequests)

/-- Take what is buffered for a node. -/
def pollSignals (state : SignalState F) (nodeId : String) :
    SignalState F × List (Json.Value F) :=
  match state.signals.lookup nodeId with
  | some signals => ({ state with signals := state.signals.erase nodeId }, signals)
  | none => (state, [])

/-- The node has not been heard of for too long. -/
def inactive (nodes : Nodes F) (now : ℕ) (nodeId : String) : Bool :=
  (nodes.lookup nodeId).any fun entry => !decide (now - entry.lastSeen < pruneAfter)

/-- An access to a shared map. -/
inductive SignalStep (F : Type)
  | registerNode (now : ℕ) (body : Json.Value F)
  | heartbeatNode (now : ℕ) (body : Json.Value F)
  | sendSignal (signal : SignalMessage F)
  | pollSignals (nodeId : String)
  /-- The two halves of a deregistration. -/
  | deregisterNode (nodeId : String)
  | deregisterSignals (nodeId : String)
  /-- The two halves of the prune task's visit to a node. -/
  | pruneSignals (now : ℕ) (nodeId : String)
  | pruneNode (now : ℕ) (nodeId : String)

variable (texts : Mesh.Discovery.Texts F)

/-- The maps behind an access. A body that is no node record changes nothing. -/
def nextSignals (state : SignalState F) : SignalStep F → SignalState F
  | .registerNode now body =>
      { state with nodes := (registerNode texts state.nodes now body).getD state.nodes }
  | .heartbeatNode now body =>
      { state with nodes := (heartbeatNode texts state.nodes now body).getD state.nodes }
  | .sendSignal signal => (sendSignal state signal).1
  | .pollSignals nodeId => (pollSignals state nodeId).1
  | .deregisterNode nodeId => { state with nodes := state.nodes.erase nodeId }
  | .deregisterSignals nodeId => { state with signals := state.signals.erase nodeId }
  | .pruneSignals now nodeId =>
      if inactive state.nodes now nodeId then
        { state with signals := state.signals.erase nodeId }
      else state
  | .pruneNode now nodeId =>
      if inactive state.nodes now nodeId then
        { state with nodes := state.nodes.erase nodeId }
      else state

/-- A coordinator that has just started. -/
def emptySignals : SignalState F := ⟨∅, ∅⟩

/-- The maps behind these accesses. -/
def afterSteps (steps : List (SignalStep F)) : SignalState F :=
  exec (nextSignals texts) emptySignals steps

/-! ## Delivery -/

/-- The recipient whose buffer an access takes away. -/
def takesFrom (state : SignalState F) : SignalStep F → Option String
  | .pollSignals nodeId => some nodeId
  | .deregisterSignals nodeId => some nodeId
  | .pruneSignals now nodeId => if inactive state.nodes now nodeId then some nodeId else none
  | _ => none

/-- The signal sent at a place was accepted for the node, and the node's buffer has not been
taken since. -/
def Undelivered (steps : List (SignalStep F)) (nodeId : String) (place : ℕ) : Prop :=
  ∃ before signal later, steps = before ++ .sendSignal signal :: later ∧
    before.length = place ∧ signal.toNode = nodeId ∧
    (sendSignal (afterSteps texts before) signal).2 = .ok ∧
    ∀ between step rest, later = between ++ step :: rest →
      takesFrom (afterSteps texts (before ++ .sendSignal signal :: between)) step ≠ some nodeId

/-- The signal sent at a place, as it is buffered. -/
def sentAt (steps : List (SignalStep F)) (place : ℕ) : Option (Json.Value F) :=
  match steps[place]? with
  | some (.sendSignal signal) => some signal.toValue
  | _ => none

/-- The buffers, as mailboxes. -/
def buffered (state : SignalState F) : Mailbox.Boxes String (Json.Value F) :=
  fun nodeId => (state.signals.lookup nodeId).getD []

/-- What an access does to the mailboxes. -/
def mailOp (state : SignalState F) : SignalStep F → Mailbox.Op String (Json.Value F)
  | .sendSignal signal => .post signal.toNode signal.toValue
  | step => (takesFrom state step).elim .idle .take

/-- What these accesses do to the mailboxes. -/
def mailOps (steps : List (SignalStep F)) : List (Mailbox.Op String (Json.Value F)) :=
  outputs (nextSignals texts) mailOp emptySignals steps

theorem buffered_insert (signals : AList fun _ : String => List (Json.Value F)) (nodes : Nodes F)
    (nodeId : String) (content : List (Json.Value F)) :
    buffered ⟨nodes, signals.insert nodeId content⟩ =
      Function.update (buffered ⟨nodes, signals⟩) nodeId content := by
  funext other
  by_cases hother : other = nodeId
  · subst hother
    simp [buffered]
  · simp [buffered, Function.update_of_ne hother, AList.lookup_insert_ne hother]

theorem buffered_erase (signals : AList fun _ : String => List (Json.Value F)) (nodes : Nodes F)
    (nodeId : String) :
    buffered ⟨nodes, signals.erase nodeId⟩ =
      Function.update (buffered ⟨nodes, signals⟩) nodeId [] := by
  funext other
  by_cases hother : other = nodeId
  · subst hother
    simp [buffered]
  · simp [buffered, Function.update_of_ne hother, AList.lookup_erase_ne hother]

theorem buffered_sendSignal (state : SignalState F) (signal : SignalMessage F) :
    buffered (sendSignal state signal).1 =
      Mailbox.next signalCap (buffered state) (.post signal.toNode signal.toValue) := by
  rw [sendSignal, Mailbox.next]
  change buffered (if (buffered state signal.toNode).length < signalCap then _ else _ :
    SignalState F × StatusCode).1 = _
  split_ifs
  · exact buffered_insert state.signals state.nodes signal.toNode _
  · refine (buffered_insert state.signals state.nodes signal.toNode _).trans ?_
    exact Function.update_eq_self signal.toNode (buffered state)

theorem buffered_pollSignals (state : SignalState F) (nodeId : String) :
    buffered (pollSignals state nodeId).1 = Function.update (buffered state) nodeId [] := by
  rw [pollSignals]
  split
  · exact buffered_erase state.signals state.nodes nodeId
  · rename_i hnone
    refine (Function.update_eq_self_iff.mpr ?_).symm
    rw [buffered, hnone, Option.getD_none]

/-- Every access is an operation on the mailboxes. -/
theorem buffered_nextSignals (state : SignalState F) (step : SignalStep F) :
    buffered (nextSignals texts state step) =
      Mailbox.next signalCap (buffered state) (mailOp state step) := by
  cases step with
  | registerNode now body => rfl
  | heartbeatNode now body => rfl
  | sendSignal signal => exact buffered_sendSignal state signal
  | pollSignals nodeId => exact buffered_pollSignals state nodeId
  | deregisterNode nodeId => rfl
  | deregisterSignals nodeId => exact buffered_erase state.signals state.nodes nodeId
  | pruneSignals now nodeId =>
      simp only [nextSignals, mailOp, takesFrom]
      split_ifs
      · exact buffered_erase state.signals state.nodes nodeId
      · rfl
  | pruneNode now nodeId =>
      simp only [nextSignals, mailOp, takesFrom]
      split_ifs <;> rfl

theorem buffered_afterSteps (steps : List (SignalStep F)) :
    buffered (afterSteps texts steps) = Mailbox.after signalCap (mailOps texts steps) :=
  exec_view (nextSignals texts) (buffered_nextSignals texts) emptySignals steps

/-- No buffer outgrows its cap. -/
theorem length_buffered_le (steps : List (SignalStep F)) (nodeId : String) :
    (buffered (afterSteps texts steps) nodeId).length ≤ 50 := by
  rw [buffered_afterSteps]
  exact Mailbox.length_after_le signalCap (mailOps texts steps) nodeId

/-- What a poll returns is what is buffered. -/
theorem pollSignals_snd (state : SignalState F) (nodeId : String) :
    (pollSignals state nodeId).2 = buffered state nodeId := by
  rw [pollSignals, buffered]
  split <;> rename_i hlookup <;> rw [hlookup] <;> rfl

/-- A signal is accepted if there is room. -/
theorem sendSignal_ok_iff (state : SignalState F) (signal : SignalMessage F) :
    (sendSignal state signal).2 = .ok ↔ (buffered state signal.toNode).length < signalCap := by
  rw [sendSignal]
  change (if (buffered state signal.toNode).length < signalCap then _ else _ :
    SignalState F × StatusCode).2 = _ ↔ _
  split_ifs with hroom
  · exact iff_of_true rfl hroom
  · exact iff_of_false nofun hroom

theorem mailOp_eq_post_iff {state : SignalState F} {step : SignalStep F} {nodeId : String}
    {value : Json.Value F} :
    mailOp state step = .post nodeId value ↔
      ∃ signal, step = .sendSignal signal ∧ signal.toNode = nodeId ∧ signal.toValue = value := by
  cases step <;> simp only [mailOp, takesFrom]
  case pruneSignals => split_ifs <;> simp
  all_goals simp

theorem mailOp_eq_take_iff {state : SignalState F} {step : SignalStep F} {nodeId : String} :
    mailOp state step = .take nodeId ↔ takesFrom state step = some nodeId := by
  cases step <;> simp only [mailOp, takesFrom]
  case pruneSignals => split_ifs <;> simp
  all_goals simp

theorem afterSteps_append (before later : List (SignalStep F)) :
    afterSteps texts (before ++ later) = exec (nextSignals texts) (afterSteps texts before) later :=
  exec_append (nextSignals texts) emptySignals before later

theorem length_mailOps (steps : List (SignalStep F)) :
    (mailOps texts steps).length = steps.length :=
  length_outputs (nextSignals texts) mailOp emptySignals steps

variable {texts}

/-- What waits in a mailbox is undelivered, and was sent at its place. -/
theorem waiting_iff {steps : List (SignalStep F)} {nodeId : String} {place : ℕ}
    {value : Json.Value F} :
    Mailbox.Waiting signalCap (mailOps texts steps) nodeId (place, value) ↔
      Undelivered texts steps nodeId place ∧ sentAt steps place = some value := by
  constructor
  · rintro ⟨early, late, hsplit, hplace, hroom, hkept⟩
    obtain ⟨before, step, later, rfl, hearly, hstep, hlate⟩ := outputs_split _ hsplit
    obtain ⟨signal, rfl, rfl, rfl⟩ := mailOp_eq_post_iff.mp hstep
    have hbefore : before.length = place := by
      rw [← length_mailOps texts, mailOps, hearly, hplace]
    refine ⟨⟨before, signal, later, rfl, hbefore, rfl, ?_, ?_⟩, ?_⟩
    · rw [sendSignal_ok_iff, buffered_afterSteps, mailOps, hearly]
      exact hroom
    · intro between step rest hlater htakes
      rw [← hlate, mem_outputs] at hkept
      refine hkept ⟨between, step, rest, hlater, mailOp_eq_take_iff.mpr ?_⟩
      rwa [← exec_append, List.append_assoc]
    · simp [sentAt, ← hbefore]
  · rintro ⟨⟨before, signal, later, rfl, rfl, rfl, hok, hkept⟩, hsent⟩
    obtain rfl : signal.toValue = value := by simpa [sentAt] using hsent
    refine ⟨mailOps texts before, outputs (nextSignals texts) mailOp
      (afterSteps texts (before ++ [.sendSignal signal])) later, ?_, length_mailOps texts before,
      ?_, ?_⟩
    · rw [mailOps, outputs_append, afterSteps_append]
      rfl
    · rwa [sendSignal_ok_iff, buffered_afterSteps] at hok
    · rw [mem_outputs]
      rintro ⟨between, step, rest, hlater, htake⟩
      refine hkept between step rest hlater (mailOp_eq_take_iff.mp ?_)
      rwa [← afterSteps_append, List.append_assoc] at htake

/-- An undelivered signal has a value. -/
theorem Undelivered.exists_sentAt {steps : List (SignalStep F)} {nodeId : String} {place : ℕ}
    (h : Undelivered texts steps nodeId place) : ∃ value, sentAt steps place = some value := by
  obtain ⟨before, signal, later, rfl, rfl, -⟩ := h
  exact ⟨signal.toValue, by simp [sentAt]⟩

/-- A signal that a poll could return is past for a later poll. -/
theorem Undelivered.not_after_poll {before between : List (SignalStep F)} {nodeId : String}
    {place : ℕ} (h : Undelivered texts before nodeId place) (other : String) :
    ¬ Undelivered texts (before ++ .pollSignals nodeId :: between) other place := by
  obtain ⟨early, signal, later, rfl, rfl, rfl, -⟩ := h
  rintro ⟨early', signal', later', hsplit, hplace, rfl, -, hkept⟩
  rw [List.append_assoc] at hsplit
  obtain ⟨rfl, htail⟩ := List.append_inj hsplit hplace.symm
  obtain ⟨hsignal, rfl⟩ := List.cons.inj htail
  obtain rfl := SignalStep.sendSignal.inj hsignal
  exact hkept later (.pollSignals signal.toNode) between rfl rfl

variable (texts)

/-- **Signals are delivered once and in order**, in whatever order the accesses happen. A poll
returns the signals accepted for the node since its buffer was last taken, in the order in
which they were accepted; none of them is left for a later poll; and no buffer outgrows its
cap. -/
theorem signals_delivered_once_in_order (steps : List (SignalStep F)) (nodeId : String) :
    (∃ places : List ℕ, places.Pairwise (· < ·) ∧
      (∀ place, place ∈ places ↔ Undelivered texts steps nodeId place) ∧
      places.map (sentAt steps) = (pollSignals (afterSteps texts steps) nodeId).2.map some) ∧
    (∀ place, Undelivered texts steps nodeId place → ∀ later other,
      ¬ Undelivered texts (steps ++ .pollSignals nodeId :: later) other place) ∧
    (buffered (afterSteps texts steps) nodeId).length ≤ 50 := by
  refine ⟨?_, fun place h later => h.not_after_poll, length_buffered_le texts steps nodeId⟩
  have hentry : ∀ place value, (place, value) ∈ Mailbox.after signalCap
      (Mailbox.numbered (mailOps texts steps)) nodeId ↔ _ := fun place value =>
    (Mailbox.mem_numbered signalCap (mailOps texts steps) nodeId (place, value)).trans
      waiting_iff
  refine ⟨(Mailbox.after signalCap (Mailbox.numbered (mailOps texts steps)) nodeId).map
    Prod.fst, ?_, ?_, ?_⟩
  · exact List.pairwise_map.mpr (Mailbox.pairwise_numbered signalCap (mailOps texts steps) nodeId)
  · intro place
    rw [List.mem_map]
    constructor
    · rintro ⟨⟨_, value⟩, hmem, rfl⟩
      exact ((hentry _ value).mp hmem).1
    · intro hwaits
      obtain ⟨value, hvalue⟩ := hwaits.exists_sentAt
      exact ⟨(place, value), (hentry place value).mpr ⟨hwaits, hvalue⟩, rfl⟩
  · rw [pollSignals_snd, buffered_afterSteps,
      ← Mailbox.after_numbered signalCap (mailOps texts steps), List.map_map, List.map_map]
    apply List.map_congr_left
    rintro ⟨place, value⟩ hmem
    exact ((hentry place value).mp hmem).2

/-! ## Memory -/

/-- A request, or a pass of the prune task. -/
inductive Request (F : Type)
  | register (now : ℕ) (body : Json.Value F)
  | heartbeat (now : ℕ) (body : Json.Value F)
  | deregister (nodeId : Option String)
  | send (signal : SignalMessage F)
  | poll (nodeId : String)
  | prune (now : ℕ)

/-- The accesses of a request. A pass of the prune task visits every node. -/
def stepsOf (state : SignalState F) : Request F → List (SignalStep F)
  | .register now body => [.registerNode now body]
  | .heartbeat now body => [.heartbeatNode now body]
  | .deregister none => []
  | .deregister (some nodeId) => [.deregisterNode nodeId, .deregisterSignals nodeId]
  | .send signal => [.sendSignal signal]
  | .poll nodeId => [.pollSignals nodeId]
  | .prune now =>
      state.nodes.keys.flatMap fun nodeId => [.pruneSignals now nodeId, .pruneNode now nodeId]

/-- The maps behind a request that is served without interruption. -/
def serve (state : SignalState F) (request : Request F) : SignalState F :=
  exec (nextSignals texts) state (stepsOf state request)

/-- The maps behind these requests. -/
def afterRequests (requests : List (Request F)) : SignalState F :=
  exec (serve texts) emptySignals requests

/-- How many signals are buffered. -/
def SignalState.total (state : SignalState F) : ℕ :=
  (state.signals.entries.map fun entry => entry.2.length).sum

/-- Every buffer belongs to a node, and there are at most 50 signals for each node. -/
def BoundedByNodes (state : SignalState F) : Prop :=
  (∀ nodeId ∈ state.signals, nodeId ∈ state.nodes) ∧
    state.total ≤ 50 * state.nodes.keys.length

/-- The node that a body registers. -/
def registers (body : Json.Value F) : Option String :=
  (extract texts body).map fun info => info.nodeId.toHex

/-- The request makes a node of the recipient, or takes its buffer. -/
def Settles (nodeId : String) : Request F → Prop
  | .register _ body => registers texts body = some nodeId
  | .heartbeat _ body => registers texts body = some nodeId
  | .deregister other => other = some nodeId
  | .poll other => other = nodeId
  | _ => False

/-- A signal was sent to a recipient that was no node, and nobody has settled it since. -/
def Stranded (requests : List (Request F)) (nodeId : String) : Prop :=
  ∃ before signal later, requests = before ++ .send signal :: later ∧ signal.toNode = nodeId ∧
    nodeId ∉ (afterRequests texts before).nodes ∧
    ∀ request ∈ later, ¬ Settles texts nodeId request

/-- A buffer without a node. -/
def Orphan (state : SignalState F) (nodeId : String) : Prop :=
  nodeId ∈ state.signals ∧ nodeId ∉ state.nodes

theorem afterRequests_snoc (requests : List (Request F)) (request : Request F) :
    afterRequests texts (requests ++ [request]) =
      serve texts (afterRequests texts requests) request :=
  exec_snoc _ _ requests request

/-- Requests served one after the other are an order of accesses. -/
theorem exists_afterSteps (requests : List (Request F)) :
    ∃ steps, afterRequests texts requests = afterSteps texts steps := by
  induction requests using List.reverseRecOn with
  | nil => exact ⟨[], rfl⟩
  | append_singleton requests request ih =>
      obtain ⟨steps, hsteps⟩ := ih
      refine ⟨steps ++ stepsOf (afterRequests texts requests) request, ?_⟩
      rw [afterRequests_snoc, afterSteps_append, serve, hsteps]

theorem mem_registerNode (nodes : Nodes F) (now : ℕ) (body : Json.Value F) (nodeId : String) :
    nodeId ∈ (registerNode texts nodes now body).getD nodes ↔
      registers texts body = some nodeId ∨ nodeId ∈ nodes := by
  rw [registerNode, registers]
  cases extract texts body with
  | none => simp
  | some info => simp [eq_comm]

theorem inactive_mem {nodes : Nodes F} {now : ℕ} {nodeId : String}
    (h : inactive nodes now nodeId = true) : nodeId ∈ nodes := by
  rw [inactive, Option.any_eq_true] at h
  obtain ⟨entry, hlookup, -⟩ := h
  rw [← AList.lookup_isSome, hlookup]
  rfl

variable {texts}

theorem mem_sendSignal {state : SignalState F} {signal : SignalMessage F} {nodeId : String} :
    nodeId ∈ (sendSignal state signal).1.signals ↔
      nodeId = signal.toNode ∨ nodeId ∈ state.signals := by
  rw [sendSignal]
  split_ifs
  · exact AList.mem_insert _
  · exact AList.mem_insert _

theorem nodes_sendSignal (state : SignalState F) (signal : SignalMessage F) :
    (sendSignal state signal).1.nodes = state.nodes := by
  rw [sendSignal]
  split_ifs <;> rfl

theorem mem_pollSignals {state : SignalState F} {other nodeId : String} :
    nodeId ∈ (pollSignals state other).1.signals ↔ nodeId ≠ other ∧ nodeId ∈ state.signals := by
  rw [pollSignals]
  split
  · exact AList.mem_erase
  · rename_i hnone
    rw [AList.lookup_eq_none] at hnone
    refine ⟨fun h => ⟨?_, h⟩, And.right⟩
    rintro rfl
    exact hnone h

theorem nodes_pollSignals (state : SignalState F) (nodeId : String) :
    (pollSignals state nodeId).1.nodes = state.nodes := by
  rw [pollSignals]
  split <;> rfl

/-- A visit of the prune task neither makes nor removes an orphan. -/
theorem orphan_visit {state : SignalState F} {now : ℕ} {visited nodeId : String} :
    Orphan (exec (nextSignals texts) state [.pruneSignals now visited, .pruneNode now visited])
      nodeId ↔ Orphan state nodeId := by
  change Orphan (nextSignals texts (nextSignals texts state (.pruneSignals now visited))
    (.pruneNode now visited)) nodeId ↔ _
  by_cases hinactive : inactive state.nodes now visited = true
  · have hnode := inactive_mem hinactive
    simp only [nextSignals, hinactive, if_true, Orphan, AList.mem_erase]
    by_cases hvisited : nodeId = visited
    · subst hvisited
      simp [hnode]
    · simp [hvisited]
  · simp [nextSignals, hinactive]

theorem orphan_prune {state : SignalState F} {now : ℕ} {nodeId : String} (visits : List String) :
    Orphan (exec (nextSignals texts) state
        (visits.flatMap fun visited => [.pruneSignals now visited, .pruneNode now visited]))
      nodeId ↔ Orphan state nodeId := by
  induction visits generalizing state with
  | nil => rfl
  | cons visited visits ih =>
      rw [List.flatMap_cons, exec_append, ih, orphan_visit]

/-- How a request makes and removes orphans. -/
theorem orphan_serve {state : SignalState F} {request : Request F} {nodeId : String} :
    Orphan (serve texts state request) nodeId ↔
      (∃ signal, request = .send signal ∧ signal.toNode = nodeId ∧ nodeId ∉ state.nodes) ∨
        ¬ Settles texts nodeId request ∧ Orphan state nodeId := by
  cases request with
  | register now body =>
      have hnodes := mem_registerNode texts state.nodes now body nodeId
      change nodeId ∈ state.signals ∧ nodeId ∉ (registerNode texts state.nodes now body).getD _ ↔ _
      rw [hnodes]
      simp only [Settles, Orphan, reduceCtorEq, false_and, exists_false, false_or, not_or]
      tauto
  | heartbeat now body =>
      have hnodes := mem_registerNode texts state.nodes now body nodeId
      change nodeId ∈ state.signals ∧ nodeId ∉ (heartbeatNode texts state.nodes now body).getD _ ↔ _
      rw [heartbeatNode_eq_registerNode, hnodes]
      simp only [Settles, Orphan, reduceCtorEq, false_and, exists_false, false_or, not_or]
      tauto
  | deregister other =>
      cases other with
      | none => simp [serve, stepsOf, exec, Settles]
      | some other =>
          change nodeId ∈ state.signals.erase other ∧ nodeId ∉ state.nodes.erase other ↔ _
          rw [AList.mem_erase, AList.mem_erase]
          simp only [Settles, Orphan, reduceCtorEq, false_and, exists_false, false_or,
            Option.some.injEq, eq_comm]
          tauto
  | send signal =>
      change nodeId ∈ (sendSignal state signal).1.signals ∧
        nodeId ∉ (sendSignal state signal).1.nodes ↔ _
      rw [mem_sendSignal, nodes_sendSignal]
      simp only [Settles, Orphan, Request.send.injEq, exists_eq_left', not_false_eq_true,
        true_and, eq_comm]
      tauto
  | poll other =>
      change nodeId ∈ (pollSignals state other).1.signals ∧
        nodeId ∉ (pollSignals state other).1.nodes ↔ _
      rw [mem_pollSignals, nodes_pollSignals]
      simp only [Settles, Orphan, reduceCtorEq, false_and, exists_false, false_or, eq_comm]
      tauto
  | prune now =>
      rw [serve, stepsOf, orphan_prune]
      simp [Settles]

/-- The buffers without a node are the stranded ones. -/
theorem orphan_iff_stranded {requests : List (Request F)} {nodeId : String} :
    Orphan (afterRequests texts requests) nodeId ↔ Stranded texts requests nodeId := by
  induction requests using List.reverseRecOn with
  | nil =>
      refine iff_of_false (fun h => AList.notMem_empty nodeId h.1) ?_
      rintro ⟨before, signal, later, hsplit, -⟩
      simp at hsplit
  | append_singleton requests request ih =>
      rw [afterRequests_snoc, orphan_serve, ih]
      constructor
      · rintro (⟨signal, rfl, hto, hnode⟩ | ⟨hkept, before, signal, later, rfl, hto, hnode, hlater⟩)
        · exact ⟨requests, signal, [], rfl, hto, hnode, fun _ h => by cases h⟩
        · refine ⟨before, signal, later ++ [request], by simp, hto, hnode, ?_⟩
          intro other hother
          rcases List.mem_append.mp hother with hearlier | hlast
          · exact hlater other hearlier
          · rwa [List.mem_singleton.mp hlast]
      · rintro ⟨before, signal, later, hsplit, hto, hnode, hlater⟩
        cases later using List.reverseRecOn with
        | nil =>
            obtain ⟨rfl, hlast⟩ := List.append_inj' hsplit rfl
            exact Or.inl ⟨signal, List.singleton_inj.mp hlast, hto, hnode⟩
        | append_singleton later last =>
            rw [← List.cons_append, ← List.append_assoc] at hsplit
            obtain ⟨rfl, hlast⟩ := List.append_inj' hsplit rfl
            obtain rfl : request = last := List.singleton_inj.mp hlast
            have hkept := hlater request (List.mem_append_right _ (List.mem_singleton.mpr rfl))
            refine Or.inr ⟨hkept, before, signal, later, rfl, hto, hnode, ?_⟩
            intro other hother
            exact hlater other (List.mem_append_left _ hother)

/-- Buffers that all belong to nodes hold at most 50 signals for each node. -/
theorem total_le_of_subset {steps : List (SignalStep F)}
    (h : ∀ nodeId ∈ (afterSteps texts steps).signals, nodeId ∈ (afterSteps texts steps).nodes) :
    (afterSteps texts steps).total ≤ 50 * (afterSteps texts steps).nodes.keys.length := by
  have hbuffer : ∀ n ∈ (afterSteps texts steps).signals.entries.map (fun entry => entry.2.length),
      n ≤ 50 := by
    intro n hn
    obtain ⟨⟨nodeId, content⟩, hentry, rfl⟩ := List.mem_map.mp hn
    have hheld : buffered (afterSteps texts steps) nodeId = content := by
      rw [buffered, AList.mem_lookup_iff.mpr hentry, Option.getD_some]
    rw [← hheld]
    exact length_buffered_le texts steps nodeId
  have hkeys : (afterSteps texts steps).signals.keys.length ≤
      (afterSteps texts steps).nodes.keys.length :=
    (List.subperm_of_subset (AList.keys_nodup _) fun nodeId => h nodeId).length_le
  have hsum := List.sum_le_card_nsmul _ 50 hbuffer
  rw [List.length_map, Nat.nsmul_eq_mul, mul_comm] at hsum
  have hlength : (afterSteps texts steps).signals.entries.length =
      (afterSteps texts steps).signals.keys.length := (List.length_map _).symm
  rw [hlength] at hsum
  exact hsum.trans (Nat.mul_le_mul_left 50 hkeys)

variable (texts)

end HiveBear.Coordinator
