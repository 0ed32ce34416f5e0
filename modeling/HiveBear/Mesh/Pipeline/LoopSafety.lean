/-
# The safety of the token loop

The loop hands out a token for each logits message it takes, so it hands out no more than it may,
and it stops behind a token that ends the stream. It takes the first logits of its session that
arrive, whatever position they carry, and it cuts the text of a token out of whatever bytes the
handler returns.

So it is safe just as long as the logits it takes carry the position it waits for, and the handler
answers them with an error or with at least the four bytes of an identifier.
-/

import HiveBear.Mesh.Pipeline.Release

namespace HiveBear.Mesh

open MessageMachine

/-- The token that an action hands to the consumer. -/
def StreamAction.token : StreamAction → Option Token
  | .yield (.ok token) => some token
  | _ => none

/-- The tokens handed out, in order. -/
def emittedTokens (trace : List StreamAction) : List Token :=
  trace.filterMap StreamAction.token

/-- The action hands out a token that is marked as the end of the sequence. -/
def StreamAction.EndsSequence (action : StreamAction) : Prop :=
  ∃ token, action = .yield (.ok token) ∧ token.isSpecial = true

/-- Nothing is handed out behind an end of the sequence. -/
def QuietAfterEnd (trace : List StreamAction) : Prop :=
  trace.Pairwise fun earlier later => earlier.EndsSequence → later.yielded = none

@[simp]
theorem emittedTokens_append (xs ys : List StreamAction) :
    emittedTokens (xs ++ ys) = emittedTokens xs ++ emittedTokens ys :=
  List.filterMap_append

/-- What hands out nothing may follow anything. -/
theorem QuietAfterEnd.append_silent {trace rest : List StreamAction} (h : QuietAfterEnd trace)
    (hsilent : ∀ action ∈ rest, action.yielded = none) : QuietAfterEnd (trace ++ rest) := by
  apply List.pairwise_append.mpr
  refine ⟨h, List.pairwise_of_forall_mem_list fun _ _ later hlater _ => hsilent later hlater, ?_⟩
  exact fun _ _ later hlater _ => hsilent later hlater

/-- Anything may follow what does not end the sequence. -/
theorem QuietAfterEnd.append_of_not_ends {trace rest : List StreamAction}
    (hopen : ∀ action ∈ trace, ¬ action.EndsSequence) (hrest : QuietAfterEnd rest) :
    QuietAfterEnd (trace ++ rest) := by
  apply List.pairwise_append.mpr
  refine ⟨List.pairwise_of_forall_mem_list fun earlier hearlier _ _ hends => ?_, hrest, ?_⟩
  · exact absurd hends (hopen earlier hearlier)
  · exact fun earlier hearlier _ _ hends => absurd hends (hopen earlier hearlier)

/-- A trace that does not end the sequence is quiet. -/
theorem QuietAfterEnd.of_not_ends {trace : List StreamAction}
    (hopen : ∀ action ∈ trace, ¬ action.EndsSequence) : QuietAfterEnd trace := by
  have hquiet := QuietAfterEnd.append_of_not_ends hopen List.Pairwise.nil
  rwa [List.append_nil] at hquiet

namespace PipelineInitiator

variable {F H : Type*} (initiator : PipelineInitiator F) (handler : MeshPipelineHandler H)
  (environment : StreamEnvironment) (firstWorker : NodeId) (maxTokens : ℕ)

/-- A stream and what it has done so far. -/
abbrev Stream (H : Type*) := LoopState H × List StreamAction

/-- The stream has not panicked, has handed out no more tokens than it may, and nothing behind the
end of the sequence. -/
structure SafeStream (stream : Stream H) : Prop where
  running : stream.1 ≠ .panicked
  bounded : (emittedTokens stream.2).length ≤ maxTokens
  quiet : QuietAfterEnd stream.2

/-- If the stream samples from the next message, that carries the position of the activation it
last sent. -/
def SamplesFresh (stream : Stream H) (delivered : Except MeshError Envelope) : Prop :=
  ∀ sender sid tokenPosition data vocabSize indexPos,
    delivered = .ok (sender, .logits sid tokenPosition data vocabSize) →
    .forward data [1] 255 indexPos ∈ (loopStep initiator handler environment firstWorker maxTokens
      stream.1 delivered).2 →
    (sentPositions stream.2).getLast? = some tokenPosition

/-- Logits that the stream takes are those it waits for, and the handler answers them with an
error or with the bytes of an identifier. -/
def Usable (state : LoopState H) (delivered : Except MeshError Envelope) : Prop :=
  ∀ position handlerState sender tokenPosition data vocabSize,
    state = .reading position handlerState →
    delivered = .ok (sender, .logits initiator.sessionId tokenPosition data vocabSize) →
    tokenPosition = position ∧
      ∀ sampled, (handler.forwardLayers handlerState data [1] 255 position).1 = .ok sampled →
        4 ≤ sampled.1.length

/-- Safety of a stream over everything that is delivered to it. -/
structure LoopSafe (handlerState : H) (promptTokens : List ℕ)
    (received : List (Except MeshError Envelope)) : Prop where
  safe : ∀ before, before <+: received → SafeStream maxTokens
    (streamRun initiator handler environment maxTokens handlerState promptTokens before)
  fresh : ∀ before delivered, before ++ [delivered] <+: received →
    SamplesFresh initiator handler environment initiator.firstPeer maxTokens
      (streamRun initiator handler environment maxTokens handlerState promptTokens before) delivered

variable {initiator handler environment firstWorker maxTokens}

/-! ## What a turn does -/

/-- Feeding a token hands out no token, and goes on only when its activation is sent. -/
theorem feedToken_adds (s : H) (position tokenId : ℕ) :
    let fed := feedToken initiator handler environment firstWorker s position tokenId
    emittedTokens fed.1 = [] ∧ (∀ action ∈ fed.1, ¬ action.EndsSequence) ∧ fed.2 ≠ .panic ∧
      ∀ next, fed.2 = .next next → sentPositions fed.1 = [position + 1] := by
  rw [feedToken]
  dsimp only
  split
  · exact ⟨rfl, by simp [StreamAction.EndsSequence], by simp, by simp⟩
  · split
    · refine ⟨?_, ?_, by simp, by simp⟩
      · split <;> rfl
      · split <;> simp [StreamAction.EndsSequence]
    · refine ⟨?_, ?_, by simp, fun _ _ => ?_⟩
      · split <;> rfl
      · split <;> simp [StreamAction.EndsSequence]
      · split <;> rfl

/-- What a turn of the loop adds to a trace: at most one token, and if the loop goes on, one that
does not end the sequence, and the next activation. -/
structure TurnAdds (position : ℕ) (turn : List StreamAction × LoopControl H) : Prop where
  atMostOne : (emittedTokens turn.1).length ≤ 1
  quiet : QuietAfterEnd turn.1
  next : ∀ s, turn.2 = .next s → (emittedTokens turn.1).length = 1 ∧
    (∀ action ∈ turn.1, ¬ action.EndsSequence) ∧ sentPositions turn.1 = [position + 1]

/-- A turn that hands out a token which does not end the sequence, and then feeds it. -/
theorem turnAdds_of_fed {position : ℕ} {fed : List StreamAction × LoopControl H}
    (htokens : emittedTokens fed.1 = []) (hopen : ∀ action ∈ fed.1, ¬ action.EndsSequence)
    (hnext : ∀ next, fed.2 = .next next → sentPositions fed.1 = [position + 1])
    {data : List UInt8} {token : Token} (hgoes : token.isSpecial = false) :
    TurnAdds position
      (.forward data [1] 255 position :: .yield (.ok token) :: fed.1, fed.2) := by
  have hall : ∀ action ∈ StreamAction.forward data [1] 255 position :: .yield (.ok token) :: fed.1,
      ¬ action.EndsSequence := by
    intro action hmem
    rcases List.mem_cons.mp hmem with rfl | hmem
    · simp [StreamAction.EndsSequence]
    rcases List.mem_cons.mp hmem with rfl | hmem
    · simp [StreamAction.EndsSequence, hgoes]
    · exact hopen action hmem
  have hone : emittedTokens (.forward data [1] 255 position :: .yield (.ok token) :: fed.1) =
      token :: emittedTokens fed.1 := rfl
  rw [htokens] at hone
  exact {
    atMostOne := (congrArg List.length hone).le
    quiet := QuietAfterEnd.of_not_ends hall
    next := fun next h => ⟨congrArg List.length hone, hall, hnext next h⟩ }

/-- A turn that hands out no token adds nothing unless it goes on. -/
theorem turnAdds_of_none {position : ℕ} {actions : List StreamAction} {control : LoopControl H}
    (htokens : emittedTokens actions = []) (hopen : ∀ action ∈ actions, ¬ action.EndsSequence)
    (hstops : ∀ next, control ≠ .next next) : TurnAdds position (actions, control) where
  atMostOne := (congrArg List.length htokens).le.trans (Nat.zero_le 1)
  quiet := QuietAfterEnd.of_not_ends hopen
  next := fun next h => absurd h (hstops next)

theorem turnAdds_generateToken (s : H) (position : ℕ) (data : List UInt8) :
    TurnAdds position
      (generateToken initiator handler environment firstWorker s position data) := by
  rw [generateToken]
  dsimp only
  split
  · exact turnAdds_of_none rfl (by simp [StreamAction.EndsSequence]) (by simp)
  split
  · exact turnAdds_of_none rfl (by simp [StreamAction.EndsSequence]) (by simp)
  split
  · exact turnAdds_of_none rfl (by simp [StreamAction.EndsSequence]) (by simp)
  split
  · refine ⟨le_rfl, ?_, by simp⟩
    apply List.pairwise_cons.mpr
    refine ⟨?_, List.pairwise_singleton _ _⟩
    rintro later - ⟨token, hsample, -⟩
    cases hsample
  · rename_i hgoes
    obtain ⟨htokens, hopen, -, hnext⟩ := @feedToken_adds F H initiator handler environment
      firstWorker (handler.forwardLayers s data [1] 255 position).2 position _
    exact turnAdds_of_fed htokens hopen hnext (by simpa using hgoes)

/-- A turn panics just if the handler returns fewer bytes than an identifier has. -/
theorem generateToken_panics_iff (s : H) (position : ℕ) (data : List UInt8) :
    (generateToken initiator handler environment firstWorker s position data).2 = .panic ↔
      ¬ ∀ sampled, (handler.forwardLayers s data [1] 255 position).1 = .ok sampled →
        4 ≤ sampled.1.length := by
  rw [generateToken]
  dsimp only
  split
  · rename_i hsampled
    rw [hsampled]
    exact iff_of_false (by simp) (not_not.mpr (by simp))
  rename_i tokenBytes shape dtype hsampled
  rw [hsampled]
  have hbytes : (∀ sampled, (Except.ok (tokenBytes, shape, dtype) :
      Except String (List UInt8 × List ℕ × UInt8)) = .ok sampled → 4 ≤ sampled.1.length) ↔
        4 ≤ tokenBytes.length :=
    ⟨fun h => h _ rfl, fun h sampled heq => by cases heq; exact h⟩
  rw [hbytes, not_le]
  split
  · exact iff_of_true rfl ‹_›
  rename_i hlong
  apply iff_of_false _ hlong
  split
  · simp
  split
  · simp
  · exact (feedToken_adds _ _ _).2.2.1

/-! ## What the loop keeps -/

/-- Where a stream stands: while it reads it has handed out a token for each position behind it,
none of them at the end of the sequence, and has last sent the activation it waits for. -/
structure Steady (maxTokens : ℕ) (stream : Stream H) : Prop where
  bounded : (emittedTokens stream.2).length ≤ maxTokens
  quiet : QuietAfterEnd stream.2
  reading : ∀ position s, stream.1 = .reading position s → position < maxTokens ∧
    (emittedTokens stream.2).length = position ∧
    (∀ action ∈ stream.2, ¬ action.EndsSequence) ∧
    (sentPositions stream.2).getLast? = some position

theorem silent_releaseActions : ∀ action ∈ initiator.releaseActions, action.yielded = none := by
  intro action hmem
  obtain ⟨envelope, -, rfl⟩ := List.mem_map.mp hmem
  rfl

theorem silent_cleanup : ∀ action ∈ initiator.cleanup, action.yielded = none := by
  rw [cleanup, List.forall_mem_cons]
  exact ⟨rfl, silent_releaseActions⟩

theorem emittedTokens_of_silent {trace : List StreamAction}
    (hsilent : ∀ action ∈ trace, action.yielded = none) : emittedTokens trace = [] := by
  apply List.filterMap_eq_nil_iff.mpr
  intro action hmem
  have hnone := hsilent action hmem
  cases action with
  | yield item => cases hnone
  | _ => rfl

theorem finished_not_reading (position : ℕ) (s : H) : LoopState.finished ≠ .reading position s := by
  simp

theorem panicked_not_reading (position : ℕ) (s : H) : LoopState.panicked ≠ .reading position s := by
  simp

/-- A stream that stops stays steady when it hands out one more token at most. -/
theorem Steady.of_stopped {state : LoopState H} {trace rest : List StreamAction}
    (hstopped : ∀ position s, state ≠ .reading position s)
    (hopen : ∀ action ∈ trace, ¬ action.EndsSequence) (hquiet : QuietAfterEnd rest)
    (hle : (emittedTokens trace).length + (emittedTokens rest).length ≤ maxTokens) :
    Steady maxTokens (state, trace ++ rest) where
  bounded := by
    rw [emittedTokens_append, List.length_append]
    exact hle
  quiet := QuietAfterEnd.append_of_not_ends hopen hquiet
  reading := fun position s h => absurd h (hstopped position s)

/-- What hands out nothing is quiet. -/
theorem quietAfterEnd_of_silent {trace : List StreamAction}
    (hsilent : ∀ action ∈ trace, action.yielded = none) : QuietAfterEnd trace :=
  QuietAfterEnd.append_silent List.Pairwise.nil hsilent

/-- Entering a turn keeps a stream steady. -/
theorem Steady.enterTurn {position : ℕ} {s : H} {trace : List StreamAction}
    (hle : position ≤ maxTokens) (hcount : (emittedTokens trace).length = position)
    (hopen : ∀ action ∈ trace, ¬ action.EndsSequence)
    (hlast : (sentPositions trace).getLast? = some position) :
    Steady maxTokens ((enterTurn initiator maxTokens position s).1,
      trace ++ (enterTurn initiator maxTokens position s).2) := by
  rw [PipelineInitiator.enterTurn]
  split
  · apply Steady.of_stopped finished_not_reading hopen (quietAfterEnd_of_silent silent_cleanup)
    rw [emittedTokens_of_silent silent_cleanup, hcount]
    exact hle
  · rename_i hlt
    rw [List.append_nil]
    refine ⟨hcount.le.trans hle, QuietAfterEnd.of_not_ends hopen, ?_⟩
    intro position' s' h
    cases h
    exact ⟨not_le.mp hlt, hcount, hopen, hlast⟩

/-- Logits of the stream's own session keep it steady. -/
theorem Steady.turn {position : ℕ} {s : H} {trace : List StreamAction}
    (h : Steady maxTokens (.reading position s, trace)) (sender : NodeId) (tokenPosition : ℕ)
    (data : List UInt8) (vocabSize : ℕ) :
    let after := loopStep initiator handler environment firstWorker maxTokens (.reading position s)
      (.ok (sender, .logits initiator.sessionId tokenPosition data vocabSize))
    Steady maxTokens (after.1, trace ++ after.2) := by
  obtain ⟨hlt, hcount, hopen, hlast⟩ := h.reading position s rfl
  rw [loopStep_logits]
  have hadds := @turnAdds_generateToken F H initiator handler environment firstWorker s position
    data
  generalize generateToken initiator handler environment firstWorker s position data = turn at hadds
  obtain ⟨actions, control⟩ := turn
  have hone : position + (emittedTokens actions).length ≤ maxTokens := by
    have hle : (emittedTokens actions).length ≤ 1 := hadds.atMostOne
    omega
  rw [← hcount] at hone
  cases control with
  | panic => exact Steady.of_stopped panicked_not_reading hopen hadds.quiet hone
  | stop =>
      apply Steady.of_stopped finished_not_reading hopen
        (hadds.quiet.append_silent silent_cleanup)
      rwa [emittedTokens_append, emittedTokens_of_silent silent_cleanup, List.append_nil]
  | next s' =>
      obtain ⟨htoken, hgoes, hsent⟩ := hadds.next s' rfl
      have hentered := @Steady.enterTurn F H initiator maxTokens (position + 1) s'
        (trace ++ actions) hlt (by simp [hcount, htoken])
        (List.forall_mem_append.mpr ⟨hopen, hgoes⟩) (by simp [hsent])
      rwa [List.append_assoc] at hentered

/-- What a stream hands out when a worker reports an error is quiet, and no token. -/
theorem quietAfterEnd_reported (text : String) :
    QuietAfterEnd (.yield (.error (.pipeline text)) :: initiator.releaseActions) := by
  apply List.pairwise_cons.mpr
  exact ⟨fun later hlater _ => silent_releaseActions later hlater,
    quietAfterEnd_of_silent silent_releaseActions⟩

theorem emittedTokens_reported (text : String) :
    emittedTokens (.yield (.error (.pipeline text)) :: initiator.releaseActions) = [] :=
  show emittedTokens initiator.releaseActions = [] from
    emittedTokens_of_silent silent_releaseActions

/-- A message keeps a stream steady. -/
theorem Steady.step {stream : Stream H} (h : Steady maxTokens stream)
    (delivered : Except MeshError Envelope) :
    let after := loopStep initiator handler environment firstWorker maxTokens stream.1 delivered
    Steady maxTokens (after.1, stream.2 ++ after.2) := by
  obtain ⟨state, trace⟩ := stream
  have hstays : Steady maxTokens (state, trace ++ []) := by
    rw [List.append_nil]
    exact h
  cases state with
  | finished => exact hstays
  | panicked => exact hstays
  | reading position s =>
      obtain ⟨hlt, hcount, hopen, hlast⟩ := h.reading position s rfl
      cases delivered with
      | error e =>
          apply Steady.of_stopped finished_not_reading hopen (List.pairwise_singleton _ _)
          exact hcount.le.trans hlt.le
      | ok envelope =>
          obtain ⟨sender, message⟩ := envelope
          cases message with
          | logits sid tokenPosition data vocabSize =>
              by_cases hown : sid = initiator.sessionId
              · subst hown
                exact h.turn sender tokenPosition data vocabSize
              · rw [loopStep, if_neg hown]
                exact hstays
          | error sid text =>
              apply Steady.of_stopped finished_not_reading hopen (quietAfterEnd_reported text)
              rw [emittedTokens_reported, hcount]
              exact hlt.le
          | _ => exact hstays

/-- A stream starts steady. -/
theorem steady_beginStream (handlerState : H) (promptTokens : List ℕ) :
    Steady maxTokens (beginStream initiator handler environment maxTokens handlerState
      promptTokens) := by
  have hstopped : ∀ trace : List StreamAction, emittedTokens trace = [] →
      (∀ action ∈ trace, ¬ action.EndsSequence) →
        Steady maxTokens ((.finished : LoopState H), trace) := by
    intro trace hnone hopen
    refine ⟨?_, QuietAfterEnd.of_not_ends hopen, by simp⟩
    rw [hnone]
    exact Nat.zero_le _
  rw [beginStream]
  split
  · exact hstopped _ rfl (by simp [StreamAction.EndsSequence])
  dsimp only
  split
  · exact hstopped _ rfl (by simp [StreamAction.EndsSequence])
  split
  · exact hstopped _ rfl (by simp [StreamAction.EndsSequence])
  · apply @Steady.enterTurn F H initiator maxTokens 0 _ [_, _] (Nat.zero_le _) rfl _ rfl
    simp [StreamAction.EndsSequence]

/-- Behind any messages a stream is steady. -/
theorem steady_streamRun (handlerState : H) (promptTokens : List ℕ)
    (received : List (Except MeshError Envelope)) :
    Steady maxTokens (streamRun initiator handler environment maxTokens handlerState promptTokens
      received) := by
  induction received using List.reverseRecOn with
  | nil =>
      rw [streamRun, run, List.append_nil]
      exact steady_beginStream handlerState promptTokens
  | append_singleton received delivered ih =>
      rw [streamRun, run_snoc]
      dsimp only
      rw [← List.append_assoc]
      exact ih.step delivered

/-! ## When a stream is safe -/

/-- A turn samples from the logits it takes. -/
theorem forward_mem_generateToken (s : H) (position : ℕ) (data : List UInt8) :
    .forward data [1] 255 position ∈
      (generateToken initiator handler environment firstWorker s position data).1 := by
  rw [generateToken]
  dsimp only
  split
  · exact List.mem_cons_self
  split
  · exact List.mem_cons_self
  split
  · exact List.mem_cons_self
  split <;> exact List.mem_cons_self

/-- The loop panics on logits of its session that the handler answers with too few bytes. -/
theorem loopStep_panics_iff {state : LoopState H} (hrunning : state ≠ .panicked)
    (delivered : Except MeshError Envelope) :
    (loopStep initiator handler environment firstWorker maxTokens state delivered).1 = .panicked ↔
      ∃ position s sender tokenPosition data vocabSize, state = .reading position s ∧
        delivered = .ok (sender, .logits initiator.sessionId tokenPosition data vocabSize) ∧
        ¬ ∀ sampled, (handler.forwardLayers s data [1] 255 position).1 = .ok sampled →
          4 ≤ sampled.1.length := by
  constructor
  · intro hpanics
    cases state with
    | finished => cases hpanics
    | panicked => exact absurd rfl hrunning
    | reading position s =>
        cases delivered with
        | error e => cases hpanics
        | ok envelope =>
            obtain ⟨sender, message⟩ := envelope
            cases message with
            | logits sid tokenPosition data vocabSize =>
                by_cases hown : sid = initiator.sessionId
                · subst hown
                  refine ⟨position, s, sender, tokenPosition, data, vocabSize, rfl, rfl, ?_⟩
                  rw [loopStep_logits] at hpanics
                  dsimp only at hpanics
                  apply (generateToken_panics_iff s position data).mp
                  split at hpanics
                  · rw [PipelineInitiator.enterTurn] at hpanics
                    split at hpanics <;> cases hpanics
                  · cases hpanics
                  · assumption
                · rw [loopStep, if_neg hown] at hpanics
                  cases hpanics
            | _ => cases hpanics
  · rintro ⟨position, s, sender, tokenPosition, data, vocabSize, rfl, rfl, hshort⟩
    rw [loopStep_logits, (generateToken_panics_iff s position data).mpr hshort]

/-- Only logits of the session are sampled, and all of them while the loop reads. -/
theorem samples_iff {state : LoopState H} {sender : NodeId} {sid : Uuid}
    {tokenPosition vocabSize : ℕ} {data : List UInt8} :
    (∃ indexPos, .forward data [1] 255 indexPos ∈ (loopStep initiator handler environment
        firstWorker maxTokens state (.ok (sender, .logits sid tokenPosition data vocabSize))).2) ↔
      sid = initiator.sessionId ∧ ∃ position s, state = .reading position s := by
  constructor
  · rintro ⟨indexPos, hsample⟩
    cases state with
    | finished => cases hsample
    | panicked => cases hsample
    | reading position s =>
        refine ⟨?_, position, s, rfl⟩
        by_contra hother
        rw [loopStep, if_neg hother] at hsample
        cases hsample
  · rintro ⟨rfl, position, s, rfl⟩
    have hsample := @forward_mem_generateToken F H initiator handler environment firstWorker s
      position data
    refine ⟨position, ?_⟩
    rw [loopStep_logits]
    dsimp only
    split
    · exact List.mem_append_left _ hsample
    · exact List.mem_append_left _ hsample
    · exact hsample

theorem streamRun_snoc (handlerState : H) (promptTokens : List ℕ)
    (before : List (Except MeshError Envelope)) (delivered : Except MeshError Envelope) :
    (streamRun initiator handler environment maxTokens handlerState promptTokens
        (before ++ [delivered])).1 =
      (loopStep initiator handler environment initiator.firstPeer maxTokens (streamRun initiator
        handler environment maxTokens handlerState promptTokens before).1 delivered).1 := by
  rw [streamRun, run_snoc, streamRun]

theorem beginStream_running (handlerState : H) (promptTokens : List ℕ) :
    (beginStream initiator handler environment maxTokens handlerState promptTokens).1 ≠
      .panicked := by
  rw [beginStream]
  split
  · simp
  dsimp only
  split
  · simp
  split
  · simp
  · rw [PipelineInitiator.enterTurn]
    split <;> simp

/-- A stream all of whose messages are usable does not panic. -/
theorem running_of_usable {handlerState : H} {promptTokens : List ℕ}
    {received : List (Except MeshError Envelope)}
    (husable : ∀ before delivered, before ++ [delivered] <+: received →
      Usable initiator handler
        (streamRun initiator handler environment maxTokens handlerState promptTokens before).1
        delivered) :
    (streamRun initiator handler environment maxTokens handlerState promptTokens received).1 ≠
      .panicked := by
  induction received using List.reverseRecOn with
  | nil => exact beginStream_running handlerState promptTokens
  | append_singleton received delivered ih =>
      have hrunning := ih fun before last hpart =>
        husable before last (hpart.trans (List.prefix_append _ _))
      rw [streamRun_snoc]
      intro hpanics
      obtain ⟨position, s, sender, tokenPosition, data, vocabSize, hstate, hdelivered, hshort⟩ :=
        (loopStep_panics_iff hrunning delivered).mp hpanics
      exact hshort (husable received delivered List.prefix_rfl position s sender tokenPosition data
        vocabSize hstate hdelivered).2

/-- **Token loop safety.** A stream is safe, whatever is delivered to it, if and only if each message
is usable where it arrives. -/
theorem loopSafe_iff (handlerState : H) (promptTokens : List ℕ)
    (received : List (Except MeshError Envelope)) :
    LoopSafe initiator handler environment maxTokens handlerState promptTokens received ↔
      ∀ before delivered, before ++ [delivered] <+: received →
        Usable initiator handler
          (streamRun initiator handler environment maxTokens handlerState promptTokens before).1
          delivered := by
  constructor
  · intro hsafe before delivered hpart position s sender tokenPosition data vocabSize hstate
      hdelivered
    have hbefore : before <+: received := (List.prefix_append _ _).trans hpart
    subst hdelivered
    constructor
    · have hsteady := @steady_streamRun F H initiator handler environment maxTokens handlerState
        promptTokens before
      obtain ⟨indexPos, hsample⟩ := samples_iff.mpr ⟨rfl, position, s, hstate⟩
      have hlast := hsafe.fresh before _ hpart sender _ tokenPosition data vocabSize indexPos rfl
        hsample
      rw [(hsteady.reading position s hstate).2.2.2] at hlast
      exact (Option.some_inj.mp hlast).symm
    · by_contra hshort
      apply (hsafe.safe _ hpart).running
      rw [streamRun_snoc]
      exact (loopStep_panics_iff (hsafe.safe before hbefore).running _).mpr
        ⟨position, s, sender, tokenPosition, data, vocabSize, hstate, rfl, hshort⟩
  · intro husable
    constructor
    · intro before hpart
      have hsteady := @steady_streamRun F H initiator handler environment maxTokens handlerState
        promptTokens before
      refine ⟨running_of_usable fun earlier last hearlier => ?_, hsteady.bounded, hsteady.quiet⟩
      exact husable earlier last (hearlier.trans hpart)
    · intro before delivered hpart sender sid tokenPosition data vocabSize indexPos hdelivered
        hsample
      subst hdelivered
      obtain ⟨rfl, position, s, hstate⟩ := samples_iff.mp ⟨indexPos, hsample⟩
      have hsteady := @steady_streamRun F H initiator handler environment maxTokens handlerState
        promptTokens before
      rw [(hsteady.reading position s hstate).2.2.2,
        (husable before _ hpart position s sender tokenPosition data vocabSize hstate rfl).1]

/-- Embeds by copying, and samples nothing at all. -/
def emptyHandler : MeshPipelineHandler Unit where
  loadLayers _ _ _ _ := (.ok (), ())
  forwardLayers _ data shape dtype _ :=
    if dtype = 255 then (.ok ([], shape, 0), ()) else (.ok (data, shape, 0), ())
  unloadLayers _ := (.ok (), ())

/-- **An empty answer of the handler panics the loop, and it samples from logits of any position.** -/
theorem empty_and_stale_not_loopSafe :
    ¬ LoopSafe singlePeer emptyHandler quietEnvironment 1 () [8]
        [.ok (.ofByte 1, .logits 7 0 [1] 1)] ∧
      ¬ LoopSafe singlePeer copyingHandler quietEnvironment 1 () [8]
        [.ok (.ofByte 1, .logits 7 3 [1] 1)] := by
  constructor
  · intro hsafe
    exact (hsafe.safe _ List.prefix_rfl).running rfl
  · intro hsafe
    obtain ⟨indexPos, hsample⟩ := (@samples_iff ℚ Unit singlePeer copyingHandler quietEnvironment
      singlePeer.firstPeer 1 (streamRun singlePeer copyingHandler quietEnvironment 1 () [8] []).1
      (.ofByte 1) 7 3 1 [1]).mpr ⟨rfl, 0, (), rfl⟩
    have hlast := hsafe.fresh [] _ List.prefix_rfl _ _ _ _ _ indexPos rfl hsample
    exact absurd hlast (by decide)

end PipelineInitiator

end HiveBear.Mesh
