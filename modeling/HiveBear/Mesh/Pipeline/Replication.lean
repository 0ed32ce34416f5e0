/-
# One chat request over the network

An initiator asks one peer for a whole answer; the daemon there streams it back. Two
loops on two machines spell the answer in messages and read it again, and the two
first-in first-out links between them may hold any number of messages meanwhile.

What the consumer has got, what is on its way and what the daemon will still send
always make up the same answer. That answer is determined by the handler's results:
a token for each text before the first error or the end, and then one termination.
-/

import HiveBear.Library.Run
import HiveBear.Mesh.Pipeline.Daemon
import HiveBear.Mesh.Pipeline.Replicated

namespace HiveBear.Mesh

open LabelledRun ReplicatedStream

/-! ## The answer a handler's results spell -/

/-- The texts of a result stream before its first error or its end, and that error. -/
def streamOutcome : List (Except String String) → List String × Option String
  | [] => ([], none)
  | .error err :: _ => ([], some err)
  | .ok text :: results => (text :: (streamOutcome results).1, (streamOutcome results).2)

/-- The texts a handler delivers and the error it ends with. -/
def chatOutcome : ChatResult → List String × Option String
  | .error err => ([], some err)
  | .ok results => streamOutcome results

/-- An item that says the answer is over: the "done" token or an error. -/
def isTermination : Except MeshError Token → Bool
  | .ok token => token.isSpecial
  | .error _ => true

/-- The text of an item. -/
def itemText : Except MeshError Token → String
  | .ok token => token.text
  | .error _ => ""

/-- A consumer has got the outcome of a handler: its texts in order, then exactly one
termination, which is the handler's error if it has one. -/
structure Delivered (outcome : List String × Option String)
    (yielded : List (Except MeshError Token)) : Prop where
  texts : yielded.dropLast.map itemText = outcome.1
  one_termination : yielded.countP isTermination = 1
  last : ∃ item, yielded.getLast? = some item ∧ isTermination item = true ∧ itemText item = "" ∧
    ∀ err, item = .error (.pipeline err) ↔ outcome.2 = some err

namespace RequestTask

/-- The messages of a task from a stream of results on. -/
def streamMessages (sessionId : Uuid) :
    String → ℕ → List (Except String String) → List MeshMessage
  | fullText, tokenCount, [] =>
      [.inferenceToken sessionId "" tokenCount true,
        .inferenceComplete sessionId fullText tokenCount none]
  | fullText, tokenCount, .error err :: _ =>
      [.inferenceComplete sessionId fullText tokenCount (some err)]
  | fullText, tokenCount, .ok text :: results =>
      .inferenceToken sessionId text ((tokenCount + 1) % 2 ^ 32) false ::
        streamMessages sessionId (fullText ++ text) ((tokenCount + 1) % 2 ^ 32) results

/-- The messages a task will still send. -/
def pending (task : RequestTask) : List MeshMessage :=
  match task.phase with
  | .called (.error err) => [.inferenceComplete task.sessionId "" 0 (some err)]
  | .called (.ok results) | .streaming results =>
      streamMessages task.sessionId task.fullText task.tokenCount results
  | .completing => [.inferenceComplete task.sessionId task.fullText task.tokenCount none]
  | .returned => []

/-- The texts a task will still receive from its handler. -/
def pendingTexts (task : RequestTask) : List String :=
  match task.phase with
  | .called result => (chatOutcome result).1
  | .streaming results => (streamOutcome results).1
  | .completing | .returned => []

/-- The task has sent the message that ends the answer. -/
def hasEnded (task : RequestTask) : Bool :=
  match task.phase with
  | .called _ | .streaming _ => false
  | .completing | .returned => true

/-- The steps a task has left at most. -/
def stepsLeft (task : RequestTask) : ℕ :=
  match task.phase with
  | .called (.error _) => 1
  | .called (.ok results) => results.length + 3
  | .streaming results => results.length + 2
  | .completing => 1
  | .returned => 0

/-- A task that has ended the answer has got everything from its handler. -/
theorem pendingTexts_of_hasEnded {task : RequestTask} (h : task.hasEnded = true) :
    task.pendingTexts = [] := by
  rw [hasEnded] at h
  rw [pendingTexts]
  split at h
  · cases h
  · cases h
  · rfl
  · rfl

variable (task : RequestTask)

@[simp]
theorem peerId_step : task.step.2.peerId = task.peerId := by
  unfold step
  split <;> rfl

@[simp]
theorem sessionId_step : task.step.2.sessionId = task.sessionId := by
  unfold step
  split <;> rfl

/-- What one step does: it sends the next of the pending messages, to the peer that
asked, and it ends the answer exactly by sending the message that says so. -/
structure Sends (sent : List MeshMessage) : Prop where
  posted : task.step.1 = sent.map fun message => (task.peerId, message)
  pending : sent ++ task.step.2.pending = task.pending
  ends : (task.hasEnded || answerEnds sent) = task.step.2.hasEnded
  texts : task.step.2.fullText ++ String.join task.step.2.pendingTexts =
    task.fullText ++ String.join task.pendingTexts
  spends : task.phase ≠ .returned → 2 * sent.length + 3 * task.step.2.stepsLeft <
    3 * task.stepsLeft

theorem exists_sends : ∃ sent, task.Sends sent := by
  obtain ⟨peerId, sessionId, phase, fullText, tokenCount⟩ := task
  match phase with
  | .called (.error err) => exact ⟨[_], rfl, rfl, rfl, rfl, fun _ => by simp [step, stepsLeft]⟩
  | .called (.ok results) =>
      exact ⟨[], rfl, rfl, rfl, rfl, fun _ => by simp [step, stepsLeft]⟩
  | .streaming (.ok text :: results) =>
      have htext : fullText ++ text ++ String.join (streamOutcome results).1 =
          fullText ++ String.join (text :: (streamOutcome results).1) := by
        rw [String.join_cons, String.append_assoc]
      refine ⟨[_], rfl, rfl, rfl, htext, fun _ => ?_⟩
      simp [step, stepsLeft]
      omega
  | .streaming (.error err :: results) =>
      refine ⟨[_], rfl, rfl, rfl, rfl, fun _ => ?_⟩
      simp [step, stepsLeft]
      omega
  | .streaming [] => exact ⟨[_], rfl, rfl, rfl, rfl, fun _ => by simp [step, stepsLeft]⟩
  | .completing => exact ⟨[_], rfl, rfl, rfl, rfl, fun _ => by simp [step, stepsLeft]⟩
  | .returned => exact ⟨[], rfl, rfl, rfl, rfl, fun h => absurd rfl h⟩

/-- All messages of a result stream belong to the session. -/
theorem own_of_mem_streamMessages {sessionId : Uuid} {fullText : String} {tokenCount : ℕ}
    {results : List (Except String String)} {message : MeshMessage}
    (h : message ∈ streamMessages sessionId fullText tokenCount results) :
    message.Own sessionId := by
  induction results generalizing fullText tokenCount with
  | nil =>
      simp only [streamMessages, List.mem_cons, List.not_mem_nil, or_false] at h
      rcases h with rfl | rfl <;> rfl
  | cons result results ih =>
      cases result with
      | error err =>
          rw [List.mem_singleton.mp h]
          rfl
      | ok text =>
          rcases List.mem_cons.mp h with rfl | hlater
          · rfl
          · exact ih hlater

/-- All messages of a task belong to its session. -/
theorem own_of_mem_pending {task : RequestTask} {message : MeshMessage}
    (h : message ∈ task.pending) : message.Own task.sessionId := by
  rw [pending] at h
  split at h
  · rw [List.mem_singleton.mp h]
    rfl
  · exact own_of_mem_streamMessages h
  · exact own_of_mem_streamMessages h
  · rw [List.mem_singleton.mp h]
    rfl
  · cases h

end RequestTask

/-! ## What the consumer gets -/

/-- Ending at once. -/
theorem delivered_singleton {error : Option String} {item : Except MeshError Token}
    (hitem : isTermination item = true) (htext : itemText item = "")
    (herror : ∀ err, item = .error (.pipeline err) ↔ error = some err) :
    Delivered ([], error) [item] where
  texts := rfl
  one_termination := by rw [List.countP_cons_of_pos hitem, List.countP_nil]
  last := ⟨item, rfl, hitem, htext, herror⟩

/-- A token in front of a delivered answer. -/
theorem Delivered.cons {texts : List String} {error : Option String}
    {yielded : List (Except MeshError Token)} (h : Delivered (texts, error) yielded)
    (text : String) (id : ℕ) :
    Delivered (text :: texts, error) (.ok ⟨text, id, none, false⟩ :: yielded) := by
  have hne : yielded ≠ [] := by
    rintro rfl
    obtain ⟨item, hitem, _⟩ := h.last
    cases hitem
  exact {
    texts := by
      rw [List.dropLast_cons_of_ne_nil hne, List.map_cons, h.texts]
      rfl
    one_termination := by
      rw [List.countP_cons_of_neg (by simp [isTermination]), h.one_termination]
    last := by
      rw [List.getLast?_cons_of_ne_nil hne]
      exact h.last }

/-- The messages of a result stream deliver its outcome. -/
theorem delivered_streamMessages (sessionId : Uuid) (fullText : String) (tokenCount : ℕ)
    (results : List (Except String String)) :
    Delivered (streamOutcome results)
      (answer (RequestTask.streamMessages sessionId fullText tokenCount results)) := by
  induction results generalizing fullText tokenCount with
  | nil => exact delivered_singleton rfl rfl fun err => by simp
  | cons result results ih =>
      cases result with
      | error err => exact delivered_singleton rfl rfl fun err' => by simp
      | ok text => exact (ih (fullText ++ text) ((tokenCount + 1) % 2 ^ 32)).cons text _

/-- The messages of a task deliver the handler's outcome. -/
theorem delivered_spawn (peerId : NodeId) (sessionId : Uuid) (result : ChatResult) :
    Delivered (chatOutcome result)
      (answer (RequestTask.spawn peerId sessionId result).pending) := by
  cases result with
  | error err => exact delivered_singleton rfl rfl fun err' => by simp
  | ok results => exact delivered_streamMessages sessionId "" 0 results

/-- The texts of a delivered answer are the handler's, one after the other. -/
theorem Delivered.join {outcome : List String × Option String}
    {yielded : List (Except MeshError Token)} (h : Delivered outcome yielded) :
    String.join (yielded.map itemText) = String.join outcome.1 := by
  obtain ⟨item, hitem, _, htext, _⟩ := h.last
  obtain ⟨front, rfl⟩ := List.getLast?_eq_some_iff.mp hitem
  have htexts := h.texts
  rw [List.dropLast_concat] at htexts
  rw [List.map_append, htexts, List.map_singleton, htext, String.join_append]
  simp

/-! ## The network -/

/-- A chat request, the initiator that makes it and the daemon that serves it. -/
structure ReplicatedDeployment (H : Type*) where
  daemon : MeshWorkerDaemon H
  initiatorId : NodeId
  targetPeer : NodeId
  sessionId : Uuid
  modelId : String
  messagesJson : String
  maxTokens : ℕ
  temperature : UInt32
  topP : UInt32

/-- Both ends of a session and the messages between them, oldest first. -/
structure ReplicatedNetwork (H : Type*) where
  requests : List MeshMessage
  replies : List MeshMessage
  handler : H
  task : Option RequestTask
  stream : ReplicatedStream

/-- What can happen: the daemon takes a message, its task goes on, or the initiator
takes a message. -/
inductive ReplicatedEvent
  | serve
  | work
  | receive

/-- The messages that go to a peer. -/
def posted (peerId : NodeId) (sends : List Envelope) : List MeshMessage :=
  (sends.filter fun send => send.1 = peerId).map Prod.snd

@[simp]
theorem posted_map (peerId : NodeId) (sent : List MeshMessage) :
    posted peerId (sent.map fun message => (peerId, message)) = sent := by
  rw [posted, List.filter_eq_self.mpr (by simp), List.map_map]
  exact List.map_id sent

namespace ReplicatedDeployment

variable {H : Type*} (d : ReplicatedDeployment H)

/-- What the handler makes of the request. -/
def result : ChatResult :=
  d.daemon.handler.handleInference d.modelId d.messagesJson d.maxTokens d.temperature

/-- The request is on its way. -/
def start (handler : H) : ReplicatedNetwork H :=
  let started := ReplicatedStream.start d.sessionId d.targetPeer d.modelId d.messagesJson
    d.maxTokens d.temperature d.topP (.ok ())
  { requests := posted d.targetPeer started.2
    replies := []
    handler := handler
    task := none
    stream := started.1 }

/-- The daemon takes a message, which leaves `rest` on its way. -/
def serve (net : ReplicatedNetwork H) (message : MeshMessage) (rest : List MeshMessage) :
    ReplicatedNetwork H :=
  let reaction := d.daemon.handle net.handler d.initiatorId message
  { net with
    requests := rest
    replies := net.replies ++ posted d.initiatorId reaction.sends
    handler := reaction.handler
    task := reaction.spawned.or net.task }

/-- A task goes on. -/
def work (net : ReplicatedNetwork H) (task : RequestTask) : ReplicatedNetwork H :=
  { net with
    replies := net.replies ++ posted d.initiatorId task.step.1
    task := some task.step.2 }

/-- The stream takes a message, which leaves `rest` on its way. -/
def receive (net : ReplicatedNetwork H) (message : MeshMessage) (rest : List MeshMessage) :
    ReplicatedNetwork H :=
  let reaction := net.stream.onReceive (.ok (d.targetPeer, message)) true
  { net with
    requests := net.requests ++ posted d.targetPeer reaction.2
    replies := rest
    stream := reaction.1 }

/-- The steps of the network. -/
inductive Step : ReplicatedNetwork H → ReplicatedEvent → ReplicatedNetwork H → Prop
  | serve {net : ReplicatedNetwork H} {message : MeshMessage} {rest : List MeshMessage}
      (head : net.requests = message :: rest) : Step net .serve (d.serve net message rest)
  | work {net : ReplicatedNetwork H} {task : RequestTask} (spawned : net.task = some task)
      (running : task.phase ≠ .returned) : Step net .work (d.work net task)
  | receive {net : ReplicatedNetwork H} {message : MeshMessage} {rest : List MeshMessage}
      (reading : net.stream.ended = false) (head : net.replies = message :: rest) :
      Step net .receive (d.receive net message rest)

/-! ## What every step keeps -/

/-- The daemon serves the request: what the consumer has got, what is on its way and
what the task will still send make up the handler's answer. -/
structure Serving (net : ReplicatedNetwork H) (task : RequestTask) : Prop where
  spawned : net.task = some task
  peer : task.peerId = d.initiatorId
  session : task.sessionId = d.sessionId
  stream : net.stream.sessionId = d.sessionId
  released : ∀ message ∈ net.requests, message = .releaseSession d.sessionId
  own : ∀ message ∈ net.replies, message.Own d.sessionId
  yields : net.stream.yielded ++
      (if net.stream.ended then [] else answer (net.replies ++ task.pending)) =
    answer (RequestTask.spawn d.initiatorId d.sessionId d.result).pending
  ends : (net.stream.ended || answerEnds net.replies) = task.hasEnded
  texts : task.fullText ++ String.join task.pendingTexts =
    String.join (chatOutcome d.result).1

/-- The request is on its way, or it is served. -/
def Agrees (net : ReplicatedNetwork H) : Prop :=
  (∃ handler, net = d.start handler) ∨ ∃ task, d.Serving net task

variable {d}

/-- The request is what the daemon takes first. -/
theorem requests_start (handler : H) :
    (d.start handler).requests = [.inferenceRequest d.sessionId d.modelId d.messagesJson
      d.maxTokens d.temperature d.topP] :=
  posted_map d.targetPeer [_]

/-- Serving the request spawns its task. -/
theorem serving_serve_start (handler : H) {message : MeshMessage} {rest : List MeshMessage}
    (head : (d.start handler).requests = message :: rest) :
    d.Serving (d.serve (d.start handler) message rest)
      (RequestTask.spawn d.initiatorId d.sessionId d.result) := by
  rw [requests_start] at head
  cases head
  exact {
    spawned := rfl
    peer := rfl
    session := rfl
    stream := rfl
    released := fun message h => nomatch h
    own := fun message h => nomatch h
    yields := rfl
    ends := rfl
    texts := String.empty_append }

variable {net : ReplicatedNetwork H} {task : RequestTask}

/-- A served daemon does nothing when the session is released. -/
theorem Serving.reaction (h : d.Serving net task) {message : MeshMessage}
    {rest : List MeshMessage} (head : net.requests = message :: rest) :
    (d.serve net message rest).replies = net.replies ∧
      (d.serve net message rest).task = net.task := by
  have hmessage := h.released message (by rw [head]; exact List.mem_cons_self)
  have hreaction : (d.daemon.handle net.handler d.initiatorId message).sends = [] ∧
      (d.daemon.handle net.handler d.initiatorId message).spawned = none := by
    rw [hmessage, MeshWorkerDaemon.handle, MeshWorkerDaemon.onReleaseSession]
    split <;> exact ⟨rfl, rfl⟩
  rw [ReplicatedDeployment.serve, hreaction.1, hreaction.2]
  exact ⟨List.append_nil _, rfl⟩

/-- A served daemon ignores the release of the session. -/
theorem Serving.serve (h : d.Serving net task) {message : MeshMessage}
    {rest : List MeshMessage} (head : net.requests = message :: rest) :
    d.Serving (d.serve net message rest) task where
  spawned := by
    rw [(h.reaction head).2]
    exact h.spawned
  peer := h.peer
  session := h.session
  stream := h.stream
  released := fun later hlater => h.released later (by
    rw [head]
    exact List.mem_cons_of_mem _ hlater)
  own := by
    rw [(h.reaction head).1]
    exact h.own
  yields := by
    rw [(h.reaction head).1]
    exact h.yields
  ends := by
    rw [(h.reaction head).1]
    exact h.ends
  texts := h.texts

/-- What a task sends goes to the initiator. -/
theorem Serving.exists_sends (h : d.Serving net task) :
    ∃ sent, task.Sends sent ∧ (d.work net task).replies = net.replies ++ sent := by
  obtain ⟨sent, hsent⟩ := task.exists_sends
  refine ⟨sent, hsent, ?_⟩
  rw [ReplicatedDeployment.work, hsent.posted, h.peer, posted_map]

/-- A message that the task sends moves from what is pending to what is on its way. -/
theorem Serving.work (h : d.Serving net task) : d.Serving (d.work net task) task.step.2 := by
  obtain ⟨sent, hsent, hreplies⟩ := h.exists_sends
  exact {
    spawned := rfl
    peer := by rw [RequestTask.peerId_step, h.peer]
    session := by rw [RequestTask.sessionId_step, h.session]
    stream := h.stream
    released := h.released
    own := fun message hmessage => by
      rw [hreplies] at hmessage
      rcases List.mem_append.mp hmessage with hold | hnew
      · exact h.own message hold
      · rw [← h.session]
        apply RequestTask.own_of_mem_pending
        rw [← hsent.pending]
        exact List.mem_append_left _ hnew
    yields := by
      rw [hreplies, List.append_assoc, hsent.pending]
      exact h.yields
    ends := by
      rw [hreplies, answerEnds_append, ← Bool.or_assoc, ← hsent.ends, ← h.ends]
      rfl
    texts := hsent.texts.trans h.texts }

/-- A message that the stream takes moves from what is on its way to what the consumer
has got. -/
theorem Serving.receive (h : d.Serving net task) (hreading : net.stream.ended = false)
    {message : MeshMessage} {rest : List MeshMessage} (head : net.replies = message :: rest) :
    d.Serving (d.receive net message rest) task := by
  have hown : message.Own net.stream.sessionId := by
    rw [h.stream]
    exact h.own message (by rw [head]; exact List.mem_cons_self)
  have hstream : (d.receive net message rest).stream = { net.stream with
      yielded := net.stream.yielded ++ messageYield message
      ended := net.stream.ended || messageEnds message } :=
    net.stream.onReceive_own hown d.targetPeer
  exact {
    spawned := h.spawned
    peer := h.peer
    session := h.session
    stream := by
      rw [hstream]
      exact h.stream
    released := fun later hlater => by
      rcases List.mem_append.mp hlater with hold | hnew
      · exact h.released later hold
      · obtain ⟨send, hsend, rfl⟩ := List.mem_map.mp hnew
        have hmem := (List.mem_filter.mp hsend).1
        rcases net.stream.sends_onReceive (.ok (d.targetPeer, message)) true with hnil | hone
        · rw [hnil] at hmem
          cases hmem
        · rw [hone] at hmem
          rw [List.mem_singleton.mp hmem, h.stream]
    own := fun later hlater => h.own later (by
      rw [head]
      exact List.mem_cons_of_mem _ hlater)
    yields := by
      have hyields := h.yields
      rw [hreading, head, List.cons_append, answer] at hyields
      rw [hstream, hreading, ← hyields]
      exact List.append_assoc _ _ _
    ends := by
      have hends := h.ends
      rw [hreading, head, Bool.false_or] at hends
      rw [hstream, hreading, ← hends]
      rfl
    texts := h.texts }

/-- Every step keeps the answer. -/
theorem Agrees.step {event : ReplicatedEvent} {next : ReplicatedNetwork H} (h : d.Agrees net)
    (step : d.Step net event next) : d.Agrees next := by
  rcases h with ⟨handler, rfl⟩ | ⟨task, h⟩
  · cases step with
    | serve head => exact Or.inr ⟨_, serving_serve_start handler head⟩
    | work spawned running => cases spawned
    | receive reading head => cases head
  · cases step with
    | serve head => exact Or.inr ⟨task, h.serve head⟩
    | work spawned running =>
        cases h.spawned.symm.trans spawned
        exact Or.inr ⟨_, h.work⟩
    | receive reading head => exact Or.inr ⟨task, h.receive reading head⟩

/-! ## Runs come to an end -/

variable (d) in
/-- The steps a network has left at most. -/
def stepsLeft (net : ReplicatedNetwork H) : ℕ :=
  match net.task with
  | none => 1 + 3 * (RequestTask.spawn d.initiatorId d.sessionId d.result).stepsLeft
  | some task => net.requests.length + 2 * net.replies.length + 3 * task.stepsLeft

/-- What a stream sends in reaction to a message is one message at most. -/
theorem length_posted_onReceive (peerId : NodeId) (stream : ReplicatedStream)
    (received : Except MeshError Envelope) :
    (posted peerId (stream.onReceive received true).2).length ≤ 1 := by
  rw [posted, List.length_map]
  apply le_trans (List.length_filter_le _ _)
  rcases stream.sends_onReceive received true with hnil | hone
  · rw [hnil]
    exact Nat.zero_le 1
  · rw [hone]
    exact le_rfl

theorem Serving.stepsLeft_eq (h : d.Serving net task) :
    d.stepsLeft net = net.requests.length + 2 * net.replies.length + 3 * task.stepsLeft := by
  rw [stepsLeft, h.spawned]

/-- Every step uses one up. -/
theorem Agrees.stepsLeft_lt {event : ReplicatedEvent} {next : ReplicatedNetwork H}
    (h : d.Agrees net) (step : d.Step net event next) : d.stepsLeft next < d.stepsLeft net := by
  rcases h with ⟨handler, rfl⟩ | ⟨task, h⟩
  · cases step with
    | serve head =>
        rw [(serving_serve_start handler head).stepsLeft_eq]
        rw [requests_start] at head
        cases head
        exact lt_of_eq_of_lt (Nat.zero_add _) (Nat.lt_add_of_pos_left Nat.one_pos)
    | work spawned running => cases spawned
    | receive reading head => cases head
  · cases step with
    | serve head =>
        rw [(h.serve head).stepsLeft_eq, h.stepsLeft_eq, (h.reaction head).1, head,
          List.length_cons]
        dsimp only [ReplicatedDeployment.serve]
        omega
    | work spawned running =>
        cases h.spawned.symm.trans spawned
        obtain ⟨sent, hsent, hreplies⟩ := h.exists_sends
        have hspends := hsent.spends running
        rw [h.work.stepsLeft_eq, h.stepsLeft_eq, hreplies, List.length_append]
        dsimp only [ReplicatedDeployment.work]
        omega
    | @receive message rest reading head =>
        have hreleased := length_posted_onReceive d.targetPeer net.stream
          (.ok (d.targetPeer, message))
        rw [(h.receive reading head).stepsLeft_eq, h.stepsLeft_eq, head, List.length_cons]
        dsimp only [ReplicatedDeployment.receive]
        rw [List.length_append]
        omega

/-- As long as the stream reads, something can happen. -/
theorem Agrees.exists_step (h : d.Agrees net) (hreading : net.stream.ended = false) :
    ∃ event next, d.Step net event next := by
  rcases h with ⟨handler, rfl⟩ | ⟨task, h⟩
  · exact ⟨_, _, Step.serve (requests_start handler)⟩
  by_cases hreturned : task.phase = .returned
  · have hends := h.ends
    rw [hreading, Bool.false_or, RequestTask.hasEnded, hreturned] at hends
    cases hreplies : net.replies with
    | nil =>
        rw [hreplies] at hends
        cases hends
    | cons message rest => exact ⟨_, _, Step.receive hreading hreplies⟩
  · exact ⟨_, _, Step.work h.spawned hreturned⟩

/-- Once the stream has ended nothing is yielded any more. -/
theorem stream_of_run_of_ended {events : List ReplicatedEvent} {later : ReplicatedNetwork H}
    (hended : net.stream.ended = true) (run : Run d.Step net events later) :
    later.stream = net.stream := by
  induction run with
  | nil => rfl
  | snoc _ last ih =>
      cases last with
      | serve head => exact ih
      | work spawned running => exact ih
      | receive reading head =>
          rw [ih, hended] at reading
          cases reading

/-- What the consumer of a network gets: it is at no time more than the handler's
outcome, and once the stream has ended it is the outcome, with the text that the daemon
has accumulated, and stays so. -/
structure StreamingAgreement (d : ReplicatedDeployment H) (net : ReplicatedNetwork H) : Prop where
  so_far : ∃ whole, Delivered (chatOutcome d.result) whole ∧ net.stream.yielded <+: whole
  of_ended : net.stream.ended = true →
    Delivered (chatOutcome d.result) net.stream.yielded ∧
      ∃ task, net.task = some task ∧
        String.join (net.stream.yielded.map itemText) = task.fullText
  afterwards : net.stream.ended = true → ∀ {events : List ReplicatedEvent}
    {later : ReplicatedNetwork H}, Run d.Step net events later → later.stream = net.stream

theorem Agrees.streamingAgreement (h : d.Agrees net) : d.StreamingAgreement net where
  so_far := by
    refine ⟨_, delivered_spawn d.initiatorId d.sessionId d.result, ?_⟩
    rcases h with ⟨handler, rfl⟩ | ⟨task, h⟩
    · exact List.nil_prefix
    · rw [← h.yields]
      exact List.prefix_append _ _
  of_ended := fun hended => by
    rcases h with ⟨handler, rfl⟩ | ⟨task, h⟩
    · cases hended
    have hyields := h.yields
    rw [hended, if_pos rfl, List.append_nil] at hyields
    have hdelivered : Delivered (chatOutcome d.result) net.stream.yielded := by
      rw [hyields]
      exact delivered_spawn d.initiatorId d.sessionId d.result
    have hends := h.ends
    rw [hended, Bool.true_or] at hends
    have htexts := h.texts
    rw [RequestTask.pendingTexts_of_hasEnded hends.symm] at htexts
    refine ⟨hdelivered, task, h.spawned, ?_⟩
    rw [hdelivered.join, ← htexts]
    exact String.append_empty
  afterwards := fun hended _ _ run => stream_of_run_of_ended hended run

/-- Every run keeps the answer. -/
theorem agrees_of_run {handler : H} {events : List ReplicatedEvent}
    (run : Run d.Step (d.start handler) events net) : d.Agrees net := by
  apply run.invariant _ (Or.inl ⟨handler, rfl⟩)
  exact fun h step => h.step step

/-- A run is no longer than the steps there are. -/
theorem length_add_stepsLeft_le {handler : H} {events : List ReplicatedEvent}
    (run : Run d.Step (d.start handler) events net) :
    events.length + d.stepsLeft net ≤ d.stepsLeft (d.start handler) := by
  induction run with
  | nil => exact le_of_eq (Nat.zero_add _)
  | snoc run last ih =>
      have hlt := (agrees_of_run run).stepsLeft_lt last
      rw [List.length_append, List.length_singleton]
      omega

/-- **Replicated streaming agreement.** Along every run of a request over its two links,
for every result stream of the daemon's handler, the consumer gets what the handler
delivered and exactly one termination, last. Every run can go on until the stream has
ended, and no run goes on forever. -/
theorem replicated_streaming_agreement {handler : H} {events : List ReplicatedEvent}
    (run : Run d.Step (d.start handler) events net) :
    d.StreamingAgreement net ∧
      (net.stream.ended = false → ∃ event next, d.Step net event next) ∧
      events.length + d.stepsLeft net ≤ d.stepsLeft (d.start handler) := by
  have hagrees := agrees_of_run run
  exact ⟨hagrees.streamingAgreement, hagrees.exists_step, length_add_stepsLeft_le run⟩

/-- A request whose handler delivers one text and then fails. -/
def failingDeployment : ReplicatedDeployment Unit where
  daemon := ⟨⟨fun _ _ _ _ => .ok [.ok "Hello", .error "out of memory"]⟩, none⟩
  initiatorId := .ofByte 1
  targetPeer := .ofByte 2
  sessionId := 7
  modelId := "test-model"
  messagesJson := "[]"
  maxTokens := 16
  temperature := 0
  topP := 0

/-- The daemon sends both messages before the initiator takes the first. -/
def failedNetwork : ReplicatedNetwork Unit where
  requests := [.releaseSession 7]
  replies := []
  handler := ()
  task := some ⟨.ofByte 1, 7, .returned, "Hello", 1⟩
  stream := ⟨7, .ofByte 2, [.ok ⟨"Hello", 1, none, false⟩, .error (.pipeline "out of memory")],
    true⟩

theorem replicated_streaming_agreement_failing :
    failingDeployment.StreamingAgreement failedNetwork ∧
      (failedNetwork.stream.ended = false →
        ∃ event next, failingDeployment.Step failedNetwork event next) ∧
      6 + failingDeployment.stepsLeft failedNetwork ≤
        failingDeployment.stepsLeft (failingDeployment.start ()) := by
  have called : Run failingDeployment.Step (failingDeployment.start ()) _ _ :=
    Run.single (Step.serve rfl)
  have streaming := called.snoc (Step.work rfl (by decide))
  have first := streaming.snoc (Step.work rfl (by decide))
  have failed := first.snoc (Step.work rfl (by decide))
  have received := failed.snoc (Step.receive rfl rfl)
  have ended := received.snoc (Step.receive rfl rfl)
  have run : Run failingDeployment.Step (failingDeployment.start ()) _ failedNetwork := ended
  exact replicated_streaming_agreement run

end ReplicatedDeployment

end HiveBear.Mesh
