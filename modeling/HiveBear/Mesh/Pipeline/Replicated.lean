/-
# Streaming from one full-model peer

`stream_tokens_replicated` sends one request to one peer and then reads the
transport's inbound queue until the answer ends. This module models one such
stream: how it starts and what it does with each message it receives. Messages
of its own session drive it, an error message of any session ends it, and every
other message is dropped.
-/

import HiveBear.Mesh.Transport.Protocol

namespace HiveBear.Mesh

/-- A replicated stream: what it has delivered to its consumer, and whether it has
stopped reading. -/
structure ReplicatedStream where
  sessionId : Uuid
  targetPeer : NodeId
  yielded : List (Except MeshError Token)
  ended : Bool

/-- A message belongs to a session. -/
def MeshMessage.Own (sessionId : Uuid) : MeshMessage → Prop
  | .inferenceToken sid .. => sid = sessionId
  | .inferenceComplete sid .. => sid = sessionId
  | .error sid _ => sid = some sessionId
  | _ => False

instance (sessionId : Uuid) : DecidablePred (MeshMessage.Own sessionId) := fun message => by
  cases message <;> unfold MeshMessage.Own <;> infer_instance

/-- A message is an error report. -/
def MeshMessage.isError : MeshMessage → Bool
  | .error .. => true
  | _ => false

namespace ReplicatedStream

/-- Send the inference request. If that fails the stream ends with an error. -/
def start (sessionId : Uuid) (targetPeer : NodeId) (modelId messagesJson : String)
    (maxTokens : ℕ) (temperature topP : UInt32) (sendResult : Except MeshError Unit) :
    ReplicatedStream × List Envelope :=
  match sendResult with
  | .ok _ => (⟨sessionId, targetPeer, [], false⟩,
      [(targetPeer, .inferenceRequest sessionId modelId messagesJson maxTokens temperature topP)])
  | .error e => (⟨sessionId, targetPeer,
      [.error (.transport s!"Failed to send inference request: {e}")], true⟩, [])

variable (stream : ReplicatedStream)

/-- Deliver an item if the consumer still listens. -/
def deliver (item : Except MeshError Token) (listening : Bool) : ReplicatedStream :=
  if listening then { stream with yielded := stream.yielded ++ [item] } else stream

/-- Stop reading and release the session on the peer. -/
def finish : ReplicatedStream × List Envelope :=
  ({ stream with ended := true }, [(stream.targetPeer, .releaseSession stream.sessionId)])

/-- The reaction to what the transport delivers. -/
def onReceive (received : Except MeshError Envelope) (listening : Bool) :
    ReplicatedStream × List Envelope :=
  match received with
  | .ok (_, .inferenceToken sid text tokenId isDone) =>
      if sid = stream.sessionId then
        let delivered := stream.deliver (.ok ⟨text, tokenId, none, isDone⟩) listening
        if !listening || isDone then delivered.finish else (delivered, [])
      else (stream, [])
  | .ok (_, .inferenceComplete sid _ _ error) =>
      if sid = stream.sessionId then
        match error with
        | some err => (stream.deliver (.error (.pipeline err)) listening).finish
        | none => stream.finish
      else (stream, [])
  | .ok (_, .error _ message) => (stream.deliver (.error (.pipeline message)) listening).finish
  | .error e => (stream.deliver (.error e) listening).finish
  | .ok _ => (stream, [])

/-! ## What a worker's answer amounts to -/

/-- What a message of its own session makes a stream deliver. -/
def messageYield : MeshMessage → List (Except MeshError Token)
  | .inferenceToken _ text tokenId isDone => [.ok ⟨text, tokenId, none, isDone⟩]
  | .inferenceComplete _ _ _ (some err) => [.error (.pipeline err)]
  | .error _ message => [.error (.pipeline message)]
  | _ => []

/-- A message of its own session ends a stream. -/
def messageEnds : MeshMessage → Bool
  | .inferenceToken _ _ _ isDone => isDone
  | .inferenceComplete .. => true
  | .error .. => true
  | _ => false

/-- The answer that a worker's messages spell: everything up to the end marker. -/
def answer : List MeshMessage → List (Except MeshError Token)
  | [] => []
  | message :: rest => messageYield message ++ if messageEnds message then [] else answer rest

/-- A worker's messages contain an end marker. -/
def answerEnds (messages : List MeshMessage) : Bool := messages.any messageEnds

theorem answer_append (first second : List MeshMessage) :
    answer (first ++ second) =
      answer first ++ if answerEnds first then [] else answer second := by
  induction first with
  | nil => rfl
  | cons message rest ih =>
      rw [List.cons_append, answer, answer, ih]
      cases hends : messageEnds message with
      | true => simp [answerEnds, hends]
      | false => simp [answerEnds, hends]

@[simp]
theorem answerEnds_append (first second : List MeshMessage) :
    answerEnds (first ++ second) = (answerEnds first || answerEnds second) :=
  List.any_append

/-- A stream reacts to its own messages as the answer says. -/
theorem onReceive_own {message : MeshMessage} (h : message.Own stream.sessionId)
    (sender : NodeId) :
    (stream.onReceive (.ok (sender, message)) true).1 =
      { stream with
        yielded := stream.yielded ++ messageYield message
        ended := stream.ended || messageEnds message } := by
  cases message with
  | inferenceToken sid text tokenId isDone =>
      cases h
      cases isDone <;> simp [onReceive, deliver, finish, messageYield, messageEnds]
  | inferenceComplete sid fullText tokensGenerated error =>
      cases h
      cases error <;> simp [onReceive, deliver, finish, messageYield, messageEnds]
  | error sid message => simp [onReceive, deliver, finish, messageYield, messageEnds]
  | _ => cases h

/-- All a stream ever sends while it reads is the release of its session. -/
theorem sends_onReceive (received : Except MeshError Envelope) (listening : Bool) :
    (stream.onReceive received listening).2 = [] ∨
      (stream.onReceive received listening).2 =
        [(stream.targetPeer, .releaseSession stream.sessionId)] := by
  have hfinish : ∀ item, (stream.deliver item listening).finish.2 =
      [(stream.targetPeer, .releaseSession stream.sessionId)] := by
    intro item
    cases listening <;> rfl
  unfold onReceive
  split
  · split
    · dsimp only
      split
      · exact Or.inr (hfinish _)
      · exact Or.inl rfl
    · exact Or.inl rfl
  · split
    · split
      · exact Or.inr (hfinish _)
      · exact Or.inr rfl
    · exact Or.inl rfl
  · exact Or.inr (hfinish _)
  · exact Or.inr (hfinish _)
  · exact Or.inl rfl

/-- A stream drops the messages of others, unless they report an error. -/
theorem onReceive_foreign {message : MeshMessage} (h : ¬ message.Own stream.sessionId)
    (herror : message.isError = false) (sender : NodeId) :
    stream.onReceive (.ok (sender, message)) true = (stream, []) := by
  cases message with
  | inferenceToken sid text tokenId isDone => exact if_neg h
  | inferenceComplete sid fullText tokensGenerated error => exact if_neg h
  | error sid message => cases herror
  | _ => rfl

end ReplicatedStream

end HiveBear.Mesh
