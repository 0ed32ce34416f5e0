/-
# Streams that share one transport

Every replicated stream of a node reads the same inbound queue. Which stream gets
the next message is decided by whose receive call comes first, and a stream that
gets a message of another session drops it.

The system below has any number of streams, started at any time, and one queue
into which messages arrive in any order. A stream is correct if it has delivered
a prefix of the answer its worker's messages spell, all of it once none of them
is left in the queue, and has ended exactly if that answer has. The invariant
says that what was delivered and what is still queued make up the answer; it is
kept as long as no receive call takes a message that another open stream waits
for, or somebody else's error report.
-/

import HiveBear.Library.Run
import HiveBear.Mesh.Pipeline.Replicated
import Mathlib.Logic.Function.Basic

namespace HiveBear.Mesh

open LabelledRun ReplicatedStream

/-- The streams of a node with the transport they share. `arrived` remembers all
messages that ever arrived. -/
structure SharedTransport where
  inbox : List Envelope
  outbox : List Envelope
  streams : Uuid → Option ReplicatedStream
  arrived : List Envelope

namespace SharedTransport

/-- What can happen: a stream starts, a message arrives, a stream receives. -/
inductive Event
  | start (sessionId : Uuid) (targetPeer : NodeId) (modelId messagesJson : String)
      (maxTokens : ℕ) (temperature topP : UInt32)
  | arrive (envelope : Envelope)
  | recv (sessionId : Uuid)

/-- The system after a stream has acted: what is left in the queue, the messages the
stream sent, and its new state. -/
def afterStream (system : SharedTransport) (inbox : List Envelope) (sessionId : Uuid)
    (acted : ReplicatedStream × List Envelope) : SharedTransport where
  inbox := inbox
  outbox := system.outbox ++ acted.2
  streams := Function.update system.streams sessionId (some acted.1)
  arrived := system.arrived

/-- The steps of the system. A new stream has a fresh session identity; a receive
call pops the head of the queue. -/
inductive Step : SharedTransport → Event → SharedTransport → Prop
  | start {system : SharedTransport} {sessionId : Uuid} {targetPeer : NodeId}
      {modelId messagesJson : String} {maxTokens : ℕ} {temperature topP : UInt32}
      (fresh : system.streams sessionId = none)
      (unheard : ∀ e ∈ system.arrived, ¬ e.2.Own sessionId) :
      Step system
        (.start sessionId targetPeer modelId messagesJson maxTokens temperature topP)
        (system.afterStream system.inbox sessionId
          (ReplicatedStream.start sessionId targetPeer modelId messagesJson maxTokens temperature
            topP (.ok ())))
  | arrive {system : SharedTransport} {envelope : Envelope} :
      Step system (.arrive envelope)
        { system with
          inbox := system.inbox ++ [envelope]
          arrived := system.arrived ++ [envelope] }
  | recv {system : SharedTransport} {sessionId : Uuid} {stream : ReplicatedStream}
      {envelope : Envelope} {rest : List Envelope}
      (found : system.streams sessionId = some stream) (reading : stream.ended = false)
      (head : system.inbox = envelope :: rest) :
      Step system (.recv sessionId)
        (system.afterStream rest sessionId (stream.onReceive (.ok envelope) true))

/-- A node without streams and messages. -/
def empty : SharedTransport := ⟨[], [], fun _ => none, []⟩

/-- The messages of a session, in order. -/
def ownMessages (sessionId : Uuid) (envelopes : List Envelope) : List MeshMessage :=
  (envelopes.map Prod.snd).filter fun message => message.Own sessionId

/-- A stream has delivered what its worker sent: always a prefix, everything once
it has ended or nothing is left in the queue, and it has ended only if the answer
has. -/
structure StreamCorrect (system : SharedTransport) (sessionId : Uuid)
    (stream : ReplicatedStream) : Prop where
  yielded_prefix : stream.yielded <+: answer (ownMessages sessionId system.arrived)
  of_ended : stream.ended = true →
    stream.yielded = answer (ownMessages sessionId system.arrived) ∧
      answerEnds (ownMessages sessionId system.arrived) = true
  of_drained : ownMessages sessionId system.inbox = [] →
    stream.yielded = answer (ownMessages sessionId system.arrived) ∧
      stream.ended = answerEnds (ownMessages sessionId system.arrived)

/-- The next receive call takes a message of its own session, or one that is no
error report and that no open stream waits for. -/
def Undisturbed (system : SharedTransport) (event : Event) : Prop :=
  match event with
  | .recv sessionId =>
      ∀ envelope rest, system.inbox = envelope :: rest →
        envelope.2.Own sessionId ∨
          envelope.2.isError = false ∧
            ∀ other stream, system.streams other = some stream → stream.ended = false →
              ¬ envelope.2.Own other
  | _ => True

/-! ## Delivered and queued messages make up the answer -/

/-- What a stream has delivered and what it would deliver from the queue is the
whole answer. -/
structure StreamAgrees (system : SharedTransport) (sessionId : Uuid)
    (stream : ReplicatedStream) : Prop where
  session : stream.sessionId = sessionId
  yields : stream.yielded ++
      (if stream.ended then [] else answer (ownMessages sessionId system.inbox)) =
    answer (ownMessages sessionId system.arrived)
  ends : (stream.ended || answerEnds (ownMessages sessionId system.inbox)) =
    answerEnds (ownMessages sessionId system.arrived)

/-- The invariant of the system. -/
structure Agrees (system : SharedTransport) : Prop where
  inbox_arrived : ∀ e ∈ system.inbox, e ∈ system.arrived
  streams : ∀ sessionId stream, system.streams sessionId = some stream →
    StreamAgrees system sessionId stream

@[simp]
theorem streams_afterStream_self (system : SharedTransport) (inbox : List Envelope)
    (sessionId : Uuid) (acted : ReplicatedStream × List Envelope) :
    (system.afterStream inbox sessionId acted).streams sessionId = some acted.1 :=
  Function.update_self ..

theorem streams_afterStream_of_ne (system : SharedTransport) (inbox : List Envelope)
    {sessionId other : Uuid} (h : other ≠ sessionId)
    (acted : ReplicatedStream × List Envelope) :
    (system.afterStream inbox sessionId acted).streams other = system.streams other :=
  Function.update_of_ne h ..

/-- Agreement is correctness, with the queue spelled out. -/
theorem StreamAgrees.correct {system : SharedTransport} {sessionId : Uuid}
    {stream : ReplicatedStream} (h : StreamAgrees system sessionId stream) :
    StreamCorrect system sessionId stream where
  yielded_prefix := by
    rw [← h.yields]
    exact List.prefix_append _ _
  of_ended hended := by
    have hyields := h.yields
    have hends := h.ends
    rw [hended, if_pos rfl, List.append_nil] at hyields
    rw [hended, Bool.true_or] at hends
    exact ⟨hyields, hends.symm⟩
  of_drained hdrained := by
    have hyields := h.yields
    have hends := h.ends
    rw [hdrained, answer, ite_self, List.append_nil] at hyields
    rw [hdrained, answerEnds, List.any_nil, Bool.or_false] at hends
    exact ⟨hyields, hends⟩

theorem ownMessages_append (sessionId : Uuid) (first second : List Envelope) :
    ownMessages sessionId (first ++ second) =
      ownMessages sessionId first ++ ownMessages sessionId second := by
  rw [ownMessages, List.map_append, List.filter_append]
  rfl

theorem ownMessages_cons_own {sessionId : Uuid} {envelope : Envelope}
    (h : envelope.2.Own sessionId) (rest : List Envelope) :
    ownMessages sessionId (envelope :: rest) = envelope.2 :: ownMessages sessionId rest := by
  rw [ownMessages, List.map_cons, List.filter_cons_of_pos (by simpa using h)]
  rfl

theorem ownMessages_cons_foreign {sessionId : Uuid} {envelope : Envelope}
    (h : ¬ envelope.2.Own sessionId) (rest : List Envelope) :
    ownMessages sessionId (envelope :: rest) = ownMessages sessionId rest := by
  rw [ownMessages, List.map_cons, List.filter_cons_of_neg (by simpa using h)]
  rfl

/-- No message is queued for a session that nothing arrived for. -/
theorem ownMessages_eq_nil {sessionId : Uuid} {envelopes : List Envelope}
    (h : ∀ e ∈ envelopes, ¬ e.2.Own sessionId) : ownMessages sessionId envelopes = [] := by
  rw [ownMessages, List.filter_eq_nil_iff]
  intro message hmessage
  obtain ⟨e, he, rfl⟩ := List.mem_map.mp hmessage
  simpa using h e he

/-- A message belongs to at most one session. -/
theorem own_unique {message : MeshMessage} {first second : Uuid} (hfirst : message.Own first)
    (hsecond : message.Own second) : first = second := by
  cases message with
  | inferenceToken sid text tokenId isDone => exact hfirst.symm.trans hsecond
  | inferenceComplete sid fullText tokensGenerated error => exact hfirst.symm.trans hsecond
  | error sid message => exact Option.some.inj (hfirst.symm.trans hsecond)
  | _ => cases hfirst

variable {system next : SharedTransport} {event : Event}

/-- An arriving message extends the queue and the answer alike. -/
theorem StreamAgrees.arrive {sessionId : Uuid} {stream : ReplicatedStream}
    (h : StreamAgrees system sessionId stream) (envelope : Envelope) :
    StreamAgrees { system with
      inbox := system.inbox ++ [envelope]
      arrived := system.arrived ++ [envelope] } sessionId stream where
  session := h.session
  yields := by
    rw [ownMessages_append, ownMessages_append, answer_append, answer_append, ← h.yields, ← h.ends]
    cases stream.ended with
    | true => simp
    | false => simp [List.append_assoc]
  ends := by
    rw [ownMessages_append, ownMessages_append, answerEnds_append, answerEnds_append, ← h.ends,
      Bool.or_assoc]

/-- A receive call that takes nobody else's message keeps the other streams. -/
theorem StreamAgrees.recv_other {sessionId : Uuid} {stream : ReplicatedStream}
    (h : StreamAgrees system sessionId stream) {envelope : Envelope} {rest : List Envelope}
    (hinbox : system.inbox = envelope :: rest)
    (hspared : stream.ended = true ∨ ¬ envelope.2.Own sessionId)
    (outbox : List Envelope) (streams : Uuid → Option ReplicatedStream) :
    StreamAgrees ⟨rest, outbox, streams, system.arrived⟩ sessionId stream := by
  have hyields := h.yields
  have hends := h.ends
  rw [hinbox] at hyields hends
  rcases hspared with hended | hforeign
  · rw [hended] at hyields hends
    rw [if_pos rfl] at hyields
    rw [Bool.true_or] at hends
    exact {
      session := h.session
      yields := by rw [hended, if_pos rfl, hyields]
      ends := by rw [hended, Bool.true_or, hends] }
  · rw [ownMessages_cons_foreign hforeign] at hyields hends
    exact ⟨h.session, hyields, hends⟩

/-- A stream that receives its own message moves it from the queue to what it has
delivered. -/
theorem StreamAgrees.recv_own {sessionId : Uuid} {stream : ReplicatedStream}
    (h : StreamAgrees system sessionId stream) (hreading : stream.ended = false)
    {envelope : Envelope} {rest : List Envelope} (hinbox : system.inbox = envelope :: rest)
    (hown : envelope.2.Own sessionId) (outbox : List Envelope)
    (streams : Uuid → Option ReplicatedStream) :
    StreamAgrees ⟨rest, outbox, streams, system.arrived⟩ sessionId
      (stream.onReceive (.ok envelope) true).1 := by
  have hreact := onReceive_own stream (by rw [h.session]; exact hown) envelope.1
  have hyields := h.yields
  have hends := h.ends
  rw [hinbox, ownMessages_cons_own hown, hreading] at hyields hends
  rw [show envelope = (envelope.1, envelope.2) from rfl, hreact, hreading]
  exact {
    session := h.session
    yields := by
      rw [← hyields]
      simp [answer, List.append_assoc]
    ends := by
      rw [← hends]
      simp [answerEnds] }

/-- A new stream has delivered nothing, and nothing is queued or answered for it. -/
theorem streamAgrees_start (hinbox : ∀ e ∈ system.inbox, e ∈ system.arrived) {sessionId : Uuid}
    (unheard : ∀ e ∈ system.arrived, ¬ e.2.Own sessionId) (targetPeer : NodeId)
    (modelId messagesJson : String) (maxTokens : ℕ) (temperature topP : UInt32)
    (outbox : List Envelope) (streams : Uuid → Option ReplicatedStream) :
    StreamAgrees ⟨system.inbox, outbox, streams, system.arrived⟩ sessionId
      (ReplicatedStream.start sessionId targetPeer modelId messagesJson maxTokens temperature topP
        (.ok ())).1 := by
  have hqueued : ownMessages sessionId system.inbox = [] :=
    ownMessages_eq_nil fun e he => unheard e (hinbox e he)
  have hanswered : ownMessages sessionId system.arrived = [] := ownMessages_eq_nil unheard
  exact {
    session := rfl
    yields := by
      rw [hqueued, hanswered]
      rfl
    ends := by
      rw [hqueued, hanswered]
      rfl }

/-- Every undisturbed step keeps the invariant. -/
theorem agrees_of_step (h : Agrees system) (step : Guarded Undisturbed Step system event next) :
    Agrees next := by
  obtain ⟨hundisturbed, step⟩ := step
  cases step with
  | @start sessionId targetPeer modelId messagesJson maxTokens temperature topP fresh unheard =>
      refine ⟨h.inbox_arrived, fun other stream hstream => ?_⟩
      by_cases hother : other = sessionId
      · subst hother
        rw [streams_afterStream_self, Option.some_inj] at hstream
        subst hstream
        exact streamAgrees_start h.inbox_arrived unheard ..
      · rw [streams_afterStream_of_ne _ _ hother] at hstream
        have hagrees := h.streams other stream hstream
        exact ⟨hagrees.session, hagrees.yields, hagrees.ends⟩
  | @arrive envelope =>
      refine ⟨fun e he => ?_, fun sessionId stream hstream => ?_⟩
      · rcases List.mem_append.mp he with hold | hnew
        · exact List.mem_append_left _ (h.inbox_arrived e hold)
        · exact List.mem_append_right _ hnew
      · exact (h.streams sessionId stream hstream).arrive envelope
  | @recv sessionId stream envelope rest found reading head =>
      have hinbox : ∀ e ∈ rest, e ∈ system.arrived := fun e he =>
        h.inbox_arrived e (head ▸ List.mem_cons_of_mem _ he)
      have hagrees := h.streams sessionId stream found
      refine ⟨hinbox, fun other stream' hstream' => ?_⟩
      by_cases hother : other = sessionId
      · subst hother
        rw [streams_afterStream_self, Option.some_inj] at hstream'
        subst hstream'
        rcases hundisturbed envelope rest head with hown | ⟨herror, hnobody⟩
        · exact hagrees.recv_own reading head hown _ _
        · have hforeign := hnobody other stream found reading
          have hdropped := onReceive_foreign stream (by rw [hagrees.session]; exact hforeign) herror
            envelope.1
          rw [show stream.onReceive (.ok envelope) true = (stream, []) from hdropped]
          exact hagrees.recv_other head (Or.inr hforeign) _ _
      · rw [streams_afterStream_of_ne _ _ hother] at hstream'
        apply (h.streams other stream' hstream').recv_other head
        rcases hundisturbed envelope rest head with hown | ⟨_, hnobody⟩
        · exact Or.inr fun hown' => hother (own_unique hown' hown)
        · cases hended : stream'.ended with
          | true => exact Or.inl rfl
          | false => exact Or.inr (hnobody other stream' hstream' hended)

/-- **Concurrent streams.** Along every run whose receive calls are undisturbed,
each stream delivers what its worker sent for its session, in order, and ends
when and only when that does. -/
theorem streams_correct_of_run {events : List Event}
    (run : Run (Guarded Undisturbed Step) empty events system) {sessionId : Uuid}
    {stream : ReplicatedStream} (hstream : system.streams sessionId = some stream) :
    StreamCorrect system sessionId stream := by
  have hagrees : Agrees system := by
    apply run.invariant fun hagrees step => agrees_of_step hagrees step
    exact ⟨fun e he => (nomatch he), fun sessionId stream hstream => (nomatch hstream)⟩
  exact (hagrees.streams sessionId stream hstream).correct

/-! ## Two streams -/

/-- A stream that asks node 1 for the answer to an empty chat. -/
def exampleStart (sessionId : Uuid) : Event :=
  .start sessionId (.ofByte 1) "test-model" "[]" 16 0 0

/-- The first token of the answer for a session. -/
def exampleToken (sessionId : Uuid) : Envelope :=
  (.ofByte 1, .inferenceToken sessionId "hello" 7 false)

/-- The first token of session 1 arrives and its own stream receives it. -/
theorem streams_correct_of_run_own_token :
    ∃ system stream,
      Run (Guarded Undisturbed Step) empty
        [exampleStart 1, .arrive (exampleToken 1), .recv 1] system ∧
      system.streams 1 = some stream ∧ StreamCorrect system 1 stream := by
  have started : Run (Guarded Undisturbed Step) empty [exampleStart 1] _ :=
    Run.single ⟨trivial, Step.start rfl fun e he => nomatch he⟩
  have arrived : Run (Guarded Undisturbed Step) empty
      [exampleStart 1, .arrive (exampleToken 1)] _ :=
    started.snoc ⟨trivial, Step.arrive⟩
  have received : Run (Guarded Undisturbed Step) empty
      [exampleStart 1, .arrive (exampleToken 1), .recv 1] _ :=
    arrived.snoc
      ⟨fun envelope rest hinbox => Or.inl (by cases hinbox; rfl), Step.recv rfl rfl rfl⟩
  exact ⟨_, _, received, rfl, streams_correct_of_run received rfl⟩

/-- The first token of session 1 arrives, but the stream of session 2 receives it and
drops it. The queue is empty and the token is lost. -/
theorem token_lost_between_streams :
    ∃ system stream,
      Run Step empty
        [exampleStart 1, exampleStart 2, .arrive (exampleToken 1), .recv 2] system ∧
      system.streams 1 = some stream ∧ system.inbox = [] ∧ stream.yielded = [] ∧
      ¬ StreamCorrect system 1 stream := by
  have first : Run Step empty [exampleStart 1] _ :=
    Run.single (Step.start rfl fun e he => nomatch he)
  have second : Run Step empty [exampleStart 1, exampleStart 2] _ :=
    first.snoc (Step.start rfl fun e he => nomatch he)
  have arrived : Run Step empty
      [exampleStart 1, exampleStart 2, .arrive (exampleToken 1)] _ :=
    second.snoc Step.arrive
  have received : Run Step empty
      [exampleStart 1, exampleStart 2, .arrive (exampleToken 1), .recv 2] _ :=
    arrived.snoc (Step.recv rfl rfl rfl)
  refine ⟨_, _, received, rfl, rfl, rfl, fun hcorrect => ?_⟩
  have hlost := (hcorrect.of_drained rfl).1
  cases hlost

end SharedTransport

end HiveBear.Mesh
