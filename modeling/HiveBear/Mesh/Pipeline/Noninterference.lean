/-
# Sessions that share an initiator

An initiator's streams all read the same transport, so a stream sees messages of other
sessions. Every arm of the receive loops checks the session of what it gets, except the
one for error reports: there the report of any session is yielded and ends the stream.

What a stream yields and how it ends is therefore what its own messages say exactly as
long as no error report of another session arrives, unless the stream would have ended
with the same error on its own.
-/

import HiveBear.Mesh.Pipeline.Positions
import HiveBear.Mesh.Pipeline.Replicated
import HiveBear.Mesh.Pipeline.TokenLoop

namespace HiveBear.Mesh

open MessageMachine

/-- What the transport delivers carries the identity of another session. -/
def carriesOther (sessionId : Uuid) : Except MeshError Envelope → Bool
  | .ok (_, message) => message.session.any fun sid => sid != sessionId
  | .error _ => false

/-- Foreign messages make no difference to an outcome exactly for harmless inputs, and
inputs with the same own messages have the same outcome if they are harmless. -/
structure NoninterferingExactly {M O : Type*} (foreign : M → Bool) (outcome : List M → O)
    (harmless : List M → Prop) : Prop where
  purge_iff : ∀ received, outcome (purge foreign received) = outcome received ↔ harmless received
  same : ∀ received received', purge foreign received = purge foreign received' →
    harmless received → harmless received' → outcome received = outcome received'

/-! ## The token loop -/

/-- How a stream stands: it waits, it has come to its end, or its task has panicked. -/
inductive StreamEnd
  | waiting
  | finished
  | panicked
  deriving DecidableEq

/-- How the token loop stands. -/
def LoopState.kind {H : Type*} : LoopState H → StreamEnd
  | .reading .. => .waiting
  | .finished => .finished
  | .panicked => .panicked

/-- The item that an action hands to the consumer. -/
def StreamAction.yielded : StreamAction → Option (Except MeshError Token)
  | .yield item => some item
  | _ => none

namespace PipelineInitiator

variable {F H : Type*} (initiator : PipelineInitiator F) (handler : MeshPipelineHandler H)
  (environment : StreamEnvironment) (firstWorker : NodeId) (maxTokens : ℕ)

/-- What the consumer of a stream sees: how it stands and what it has yielded. -/
def streamOutcome (handlerState : H) (promptTokens : List ℕ)
    (received : List (Except MeshError Envelope)) :
    StreamEnd × List (Except MeshError Token) :=
  observe LoopState.kind StreamAction.yielded
    (streamRun initiator handler environment maxTokens handlerState promptTokens received)

/-- Every error report of another session that reaches the loop is matched. -/
def StreamHarmless (handlerState : H) (promptTokens : List ℕ)
    (received : List (Except MeshError Envelope)) : Prop :=
  Harmless (loopStep initiator handler environment initiator.firstPeer maxTokens)
    LoopState.kind StreamAction.yielded (carriesOther initiator.sessionId)
    (beginStream initiator handler environment maxTokens handlerState promptTokens).1 received

variable {initiator handler environment firstWorker maxTokens}

/-- A foreign message that the loop does not pass over is an error report. -/
theorem error_of_not_idle {state : LoopState H} {received : Except MeshError Envelope}
    (hforeign : carriesOther initiator.sessionId received = true)
    (hidle : ¬ Idle (loopStep initiator handler environment firstWorker maxTokens) state
      received) :
    ∃ position handlerState sender sid text, state = .reading position handlerState ∧
      received = .ok (sender, .error sid text) := by
  cases state with
  | finished => exact absurd rfl hidle
  | panicked => exact absurd rfl hidle
  | reading position handlerState =>
      cases received with
      | error e => cases hforeign
      | ok envelope =>
          obtain ⟨sender, message⟩ := envelope
          cases message with
          | logits sid tokenPosition data vocabSize =>
              apply absurd _ hidle
              rw [Idle, loopStep]
              exact if_neg (by simpa [carriesOther, MeshMessage.session] using hforeign)
          | error sid text => exact ⟨position, handlerState, sender, sid, text, rfl, rfl⟩
          | _ => exact absurd rfl hidle

/-- A turn starts with sampling, so a consumer never sees an error first unless the turn
ends the loop. -/
theorem exists_token_of_next {handlerState next : H} {position : ℕ} {data : List UInt8}
    (h : (generateToken initiator handler environment firstWorker handlerState position data).2 =
      .next next) :
    ∃ token rest,
      (generateToken initiator handler environment firstWorker handlerState position
        data).1.filterMap StreamAction.yielded = .ok token :: rest := by
  unfold generateToken at h ⊢
  dsimp only at h ⊢
  split at h
  · cases h
  · split_ifs at h ⊢
    exact ⟨_, _, rfl⟩

/-- To the token loop an error report of another session is fatal. -/
theorem fatalForeign_loopStep :
    FatalForeign (loopStep initiator handler environment firstWorker maxTokens) LoopState.kind
      StreamAction.yielded (carriesOther initiator.sessionId) (fun _ => True) where
  kept := fun _ => trivial
  ends := fun _ hforeign hidle => by
    obtain ⟨position, handlerState, sender, sid, text, rfl, rfl⟩ :=
      error_of_not_idle hforeign hidle
    exact ended_finished
  seen := fun _ hforeign hidle => by
    obtain ⟨position, handlerState, sender, sid, text, rfl, rfl⟩ :=
      error_of_not_idle hforeign hidle
    intro hsame
    cases congrArg Prod.fst hsame
  visible := fun {state m n ms} _ hforeign hidle _ hn hsame => by
    obtain ⟨position, handlerState, sender, sid, text, rfl, rfl⟩ :=
      error_of_not_idle hforeign hidle
    cases n with
    | error e => exact ended_finished
    | ok envelope =>
        obtain ⟨sender', message⟩ := envelope
        cases message with
        | error sid' text' => exact ended_finished
        | logits sid' tokenPosition data vocabSize =>
            by_cases hown : sid' = initiator.sessionId
            · rw [run] at hsame
              simp only [loopStep, if_pos hown] at hsame ⊢
              cases hcontrol : (generateToken initiator handler environment firstWorker
                handlerState position data).2 with
              | next next =>
                  -- a turn that goes on has yielded a token, not an error
                  obtain ⟨token, rest, htoken⟩ := exists_token_of_next hcontrol
                  simp only [hcontrol, observe, List.append_assoc, List.filterMap_append,
                    htoken] at hsame
                  cases congrArg (fun seen => seen.2.head?) hsame
              | stop => exact ended_finished
              | panic => exact ended_panicked
            · apply absurd _ hn
              rw [Idle, loopStep]
              exact if_neg hown
        | _ => exact absurd rfl hn

/-- What a stream starts with can be left out of a comparison. -/
theorem streamOutcome_eq_iff {handlerState : H} {promptTokens : List ℕ}
    {received received' : List (Except MeshError Envelope)} :
    streamOutcome initiator handler environment maxTokens handlerState promptTokens received =
        streamOutcome initiator handler environment maxTokens handlerState promptTokens received' ↔
      observe LoopState.kind StreamAction.yielded
          (run (loopStep initiator handler environment initiator.firstPeer maxTokens)
            (beginStream initiator handler environment maxTokens handlerState promptTokens).1
            received) =
        observe LoopState.kind StreamAction.yielded
          (run (loopStep initiator handler environment initiator.firstPeer maxTokens)
            (beginStream initiator handler environment maxTokens handlerState promptTokens).1
            received') :=
  observe_append_iff _ _ _

/-- The token loop ignores other sessions exactly if their error reports are matched. -/
theorem noninterferingExactly_streamOutcome (handlerState : H) (promptTokens : List ℕ) :
    NoninterferingExactly (carriesOther initiator.sessionId)
      (streamOutcome initiator handler environment maxTokens handlerState promptTokens)
      (StreamHarmless initiator handler environment maxTokens handlerState promptTokens) where
  purge_iff := fun received => by
    rw [streamOutcome_eq_iff]
    exact observe_purge_iff fatalForeign_loopStep trivial received
  same := fun received received' hpurge h h' => by
    rw [streamOutcome_eq_iff]
    exact observe_eq_of_harmless fatalForeign_loopStep trivial hpurge h h'

end PipelineInitiator

/-! ## The replicated stream -/

namespace ReplicatedStream

/-- What a replicated stream does with the next message; `listening` says of each item
whether the consumer is still there to take it. -/
def readStep (listening : ℕ → Bool) (stream : ReplicatedStream)
    (received : Except MeshError Envelope) : ReplicatedStream × List Envelope :=
  if stream.ended then (stream, [])
  else stream.onReceive received (listening stream.yielded.length)

/-- What the consumer of a stream sees: whether it has ended and what it has yielded. -/
def seen (stream : ReplicatedStream) : Bool × List (Except MeshError Token) :=
  (stream.ended, stream.yielded)

variable {listening : ℕ → Bool} {stream : ReplicatedStream}

theorem ended_readStep (h : stream.ended = true) : Ended (readStep listening) stream :=
  fun _ => if_pos h

/-- A foreign message that the stream does not pass over is an error report. -/
theorem error_of_not_idle {received : Except MeshError Envelope}
    (hforeign : carriesOther stream.sessionId received = true)
    (hidle : ¬ Idle (readStep listening) stream received) :
    stream.ended = false ∧ ∃ sender sid text, received = .ok (sender, .error sid text) := by
  cases hended : stream.ended with
  | true => exact absurd (if_pos hended) hidle
  | false =>
      have hreads : readStep listening stream received =
          stream.onReceive received (listening stream.yielded.length) :=
        if_neg (by simp [hended])
      cases received with
      | error e => cases hforeign
      | ok envelope =>
          obtain ⟨sender, message⟩ := envelope
          cases message with
          | inferenceToken sid text tokenId isDone =>
              apply absurd (hreads.trans _) hidle
              exact if_neg (by simpa [carriesOther, MeshMessage.session] using hforeign)
          | inferenceComplete sid fullText tokensGenerated error =>
              apply absurd (hreads.trans _) hidle
              exact if_neg (by simpa [carriesOther, MeshMessage.session] using hforeign)
          | error sid text => exact ⟨rfl, sender, sid, text, rfl⟩
          | _ => exact absurd hreads hidle

/-- What has been yielded stays so. -/
theorem yielded_prefix_onReceive (stream : ReplicatedStream)
    (received : Except MeshError Envelope) (listening : Bool) :
    stream.yielded <+: (stream.onReceive received listening).1.yielded := by
  have hdeliver : ∀ item, stream.yielded <+: (stream.deliver item listening).yielded := by
    intro item
    rw [deliver]
    split
    · exact List.prefix_append _ _
    · exact List.prefix_refl _
  unfold onReceive
  split
  · split
    · dsimp only
      split <;> exact hdeliver _
    · exact List.prefix_refl _
  · split
    · split
      · exact hdeliver _
      · exact List.prefix_refl _
    · exact List.prefix_refl _
  · exact hdeliver _
  · exact hdeliver _
  · exact List.prefix_refl _

theorem yielded_prefix_run (listening : ℕ → Bool) (stream : ReplicatedStream)
    (received : List (Except MeshError Envelope)) :
    stream.yielded <+: (run (readStep listening) stream received).1.yielded := by
  induction received generalizing stream with
  | nil => exact List.prefix_refl _
  | cons message rest ih =>
      rw [run]
      apply List.IsPrefix.trans _ (ih _)
      rw [readStep]
      split
      · exact List.prefix_refl _
      · exact yielded_prefix_onReceive stream message _

/-- A stream keeps its session. -/
theorem sessionId_readStep (stream : ReplicatedStream) (received : Except MeshError Envelope) :
    (readStep listening stream received).1.sessionId = stream.sessionId := by
  have hdeliver : ∀ item listens, (stream.deliver item listens).sessionId = stream.sessionId := by
    intro item listens
    rw [deliver]
    split <;> rfl
  unfold readStep onReceive
  split
  · rfl
  split
  · split
    · dsimp only
      split <;> exact hdeliver _ _
    · rfl
  · split
    · split
      · exact hdeliver _ _
      · rfl
    · rfl
  · exact hdeliver _ _
  · exact hdeliver _ _
  · rfl

/-- A stream that reads a message and goes on has yielded a token. -/
theorem token_of_not_ended (hreading : stream.ended = false)
    {received : Except MeshError Envelope}
    (hidle : ¬ Idle (readStep listening) stream received)
    (hgoes : (readStep listening stream received).1.ended = false) :
    listening stream.yielded.length = true ∧ ∃ token,
      (readStep listening stream received).1.yielded = stream.yielded ++ [.ok token] := by
  have hreads : readStep listening stream received =
      stream.onReceive received (listening stream.yielded.length) :=
    if_neg (by simp [hreading])
  rw [Idle, hreads] at hidle
  rw [hreads] at hgoes ⊢
  cases received with
  | error e => cases hgoes
  | ok envelope =>
      obtain ⟨sender, message⟩ := envelope
      cases message with
      | inferenceToken sid text tokenId isDone =>
          rw [onReceive] at hidle hgoes ⊢
          split at hidle
          · rename_i hown
            rw [if_pos hown] at hgoes ⊢
            dsimp only at hgoes ⊢
            split at hgoes
            · cases hgoes
            · rename_i hlistening
              rw [if_neg hlistening]
              rw [Bool.or_eq_true, not_or, Bool.not_eq_true', Bool.not_eq_false] at hlistening
              refine ⟨hlistening.1, ⟨text, tokenId, none, isDone⟩, ?_⟩
              rw [deliver, if_pos hlistening.1]
          · exact absurd rfl hidle
      | inferenceComplete sid fullText tokensGenerated error =>
          unfold onReceive at hidle hgoes
          dsimp only at hidle hgoes
          split at hidle
          · rename_i hown
            rw [if_pos hown] at hgoes
            cases error <;> cases hgoes
          · exact absurd rfl hidle
      | error sid text => cases hgoes
      | _ => exact absurd rfl hidle

/-- To a replicated stream an error report of another session is fatal. -/
theorem fatalForeign_readStep (sessionId : Uuid) :
    FatalForeign (readStep listening) seen (fun _ => (none : Option Unit))
      (carriesOther sessionId) (fun stream => stream.sessionId = sessionId) where
  kept := fun hsession => by rw [sessionId_readStep, hsession]
  ends := fun {stream m} hsession hforeign hidle => by
    rw [← hsession] at hforeign
    obtain ⟨hreading, sender, sid, text, rfl⟩ := error_of_not_idle hforeign hidle
    apply ended_readStep
    rw [readStep, if_neg (by simp [hreading])]
    rfl
  seen := fun {stream m} hsession hforeign hidle hsame => by
    rw [← hsession] at hforeign
    obtain ⟨hreading, sender, sid, text, rfl⟩ := error_of_not_idle hforeign hidle
    have hended := congrArg (fun observed => observed.1.1) hsame
    rw [readStep, if_neg (by simp [hreading])] at hended
    simp [observe, seen, onReceive, finish, hreading] at hended
  visible := fun {stream m n ms} hsession hforeign hidle _ hn hsame => by
    rw [← hsession] at hforeign
    obtain ⟨hreading, sender, sid, text, rfl⟩ := error_of_not_idle hforeign hidle
    apply ended_readStep
    by_contra hgoes
    rw [Bool.not_eq_true] at hgoes
    obtain ⟨hlistening, token, hyielded⟩ := token_of_not_ended hreading hn hgoes
    -- the token comes first, where the error should be
    have hpart := yielded_prefix_run listening (readStep listening stream n).1 ms
    have hsameYield := congrArg (fun observed => observed.1.2) hsame
    have herror : (readStep listening stream (.ok (sender, .error sid text))).1.yielded =
        stream.yielded ++ [.error (.pipeline text)] := by
      rw [readStep, if_neg (by simp [hreading]), onReceive, finish, deliver, if_pos hlistening]
    have hrun : (run (readStep listening) stream (n :: ms)).1.yielded =
        stream.yielded ++ [.error (.pipeline text)] := hsameYield.trans herror
    rw [hyielded] at hpart
    have heq := (hrun ▸ hpart).eq_of_length (by simp)
    cases (List.append_cancel_left heq)

end ReplicatedStream

/-! ## Both kinds of streams -/

namespace PipelineInitiator

variable {F H : Type*} (initiator : PipelineInitiator F)

/-- A request for whole-model inference, whether it can be sent, and which of the items
the consumer is there to take. -/
structure ReplicatedRequest where
  sessionId : Uuid
  modelId : String
  messagesJson : String
  maxTokens : ℕ
  temperature : UInt32
  topP : UInt32
  sendResult : Except MeshError Unit
  listening : ℕ → Bool

/-- Stream tokens using full-model replication: the stream after these messages and what
it has sent, or the only thing it yields if there is no peer to ask. -/
def streamTokensReplicated (request : ReplicatedRequest)
    (received : List (Except MeshError Envelope)) :
    Except MeshError (ReplicatedStream × List Envelope) :=
  match initiator.plan.assignments with
  | [] => .error (.pipeline "No peers in plan")
  | first :: _ =>
      let started := ReplicatedStream.start request.sessionId first.peerId request.modelId
        request.messagesJson request.maxTokens request.temperature request.topP request.sendResult
      let later := run (ReplicatedStream.readStep request.listening) started.1 received
      .ok (later.1, started.2 ++ later.2)

/-- What the consumer of a replicated stream sees: whether it has ended and what it has
yielded. -/
def replicatedOutcome (request : ReplicatedRequest)
    (received : List (Except MeshError Envelope)) : Bool × List (Except MeshError Token) :=
  match initiator.streamTokensReplicated request received with
  | .error e => (true, [.error e])
  | .ok (stream, _) => stream.seen

/-- Every error report of another session that reaches the stream is matched. -/
def ReplicatedHarmless (request : ReplicatedRequest)
    (received : List (Except MeshError Envelope)) : Prop :=
  ∀ first ∈ initiator.plan.assignments.head?,
    Harmless (ReplicatedStream.readStep request.listening) ReplicatedStream.seen
      (fun _ => (none : Option Unit)) (carriesOther request.sessionId)
      (ReplicatedStream.start request.sessionId first.peerId request.modelId request.messagesJson
        request.maxTokens request.temperature request.topP request.sendResult).1 received

variable {initiator}

/-- The replicated stream ignores other sessions exactly if their error reports are
matched. -/
theorem noninterferingExactly_replicatedOutcome (request : ReplicatedRequest) :
    NoninterferingExactly (carriesOther request.sessionId)
      (initiator.replicatedOutcome request) (initiator.ReplicatedHarmless request) := by
  cases hplan : initiator.plan.assignments with
  | nil =>
      have hconst : ∀ received, initiator.replicatedOutcome request received =
          (true, [.error (.pipeline "No peers in plan")]) := by
        intro received
        rw [replicatedOutcome, streamTokensReplicated, hplan]
      exact {
        purge_iff := fun received => by
          rw [hconst, hconst]
          exact iff_of_true rfl fun first hfirst => by simp [hplan] at hfirst
        same := fun received received' _ _ _ => by rw [hconst, hconst] }
  | cons first others =>
      let started := (ReplicatedStream.start request.sessionId first.peerId request.modelId
        request.messagesJson request.maxTokens request.temperature request.topP
        request.sendResult).1
      have hsession : started.sessionId = request.sessionId := by
        dsimp only [started]
        unfold ReplicatedStream.start
        split <;> rfl
      have houtcome : ∀ received received', initiator.replicatedOutcome request received =
            initiator.replicatedOutcome request received' ↔
          observe ReplicatedStream.seen (fun _ => (none : Option Unit))
              (run (ReplicatedStream.readStep request.listening) started received) =
            observe ReplicatedStream.seen (fun _ => (none : Option Unit))
              (run (ReplicatedStream.readStep request.listening) started received') := by
        intro received received'
        simp only [replicatedOutcome, streamTokensReplicated, hplan, observe, Prod.mk.injEq,
          List.filterMap_none, and_true]
        rfl
      have hharmless : ∀ received, initiator.ReplicatedHarmless request received ↔
          Harmless (ReplicatedStream.readStep request.listening) ReplicatedStream.seen
            (fun _ => (none : Option Unit)) (carriesOther request.sessionId) started received := by
        intro received
        simp [ReplicatedHarmless, hplan, started]
      exact {
        purge_iff := fun received => by
          rw [houtcome, hharmless]
          exact observe_purge_iff (ReplicatedStream.fatalForeign_readStep _) hsession received
        same := fun received received' hpurge h h' => by
          rw [houtcome]
          rw [hharmless] at h h'
          exact observe_eq_of_harmless (ReplicatedStream.fatalForeign_readStep _) hsession hpurge
            h h' }

/-- **Noninterference between sessions at the initiator.** Both kinds of streams yield the
same items and end in the same way on every two inputs with the same own messages, if the
error reports of other sessions are harmless in both; and they treat an input as they
would without the messages of other sessions exactly if these are harmless. -/
theorem sessions_noninterfering_exactly {H : Type*} (handler : MeshPipelineHandler H)
    (environment : StreamEnvironment) (maxTokens : ℕ) (handlerState : H)
    (promptTokens : List ℕ) (request : ReplicatedRequest) :
    NoninterferingExactly (carriesOther initiator.sessionId)
        (streamOutcome initiator handler environment maxTokens handlerState promptTokens)
        (StreamHarmless initiator handler environment maxTokens handlerState promptTokens) ∧
      NoninterferingExactly (carriesOther request.sessionId)
        (initiator.replicatedOutcome request) (initiator.ReplicatedHarmless request) :=
  ⟨noninterferingExactly_streamOutcome handlerState promptTokens,
    noninterferingExactly_replicatedOutcome request⟩

/-! ### An error of somebody else -/

/-- A request of session 7 to one peer. -/
def exampleRequest : ReplicatedRequest where
  sessionId := 7
  modelId := "model"
  messagesJson := "[]"
  maxTokens := 1
  temperature := 0
  topP := 0
  sendResult := .ok ()
  listening _ := true

/-- Messages of session 7: logits for a pipeline, and an answer to a request. -/
def ownAnswer : List (Except MeshError Envelope) :=
  [.ok (.ofByte 1, .logits 7 0 [1, 2, 3, 4] 1), .ok (.ofByte 1, .inferenceToken 7 "a" 1 true)]

/-- The same messages behind an error report of session 9. -/
def disturbedAnswer : List (Except MeshError Envelope) :=
  .ok (.ofByte 3, .error (some 9) "worker 3 failed") :: ownAnswer

/-- The error report of session 9 ends both kinds of streams of session 7. -/
theorem foreign_error_ends_streams :
    purge (carriesOther 7) ownAnswer = purge (carriesOther 7) disturbedAnswer ∧
      streamOutcome singlePeer copyingHandler quietEnvironment 1 () [8] ownAnswer ≠
        streamOutcome singlePeer copyingHandler quietEnvironment 1 () [8] disturbedAnswer ∧
      singlePeer.replicatedOutcome exampleRequest ownAnswer ≠
        singlePeer.replicatedOutcome exampleRequest disturbedAnswer :=
  ⟨by decide, by decide, by decide⟩

end PipelineInitiator

end HiveBear.Mesh
