/-
# Speculative decoding

A speculative session asks a drafter for candidate tokens, has a verifier check them, and
yields what was accepted, round after round. It is a machine that reads messages: it
waits for the drafter, then for the verifier, and its cleanup releases both. A receive
failure, an error report of any session and a consumer that is gone end it without a
release; a request that cannot be sent is reported before the release.
-/

import HiveBear.Mesh.Pipeline.Operation

namespace HiveBear.Mesh

open MessageMachine

/-- A session between a drafter peer and a verifier swarm, which is reached through its
leader. -/
structure SpeculativeSession where
  sessionId : Uuid
  drafterPeer : NodeId
  verifierPeer : NodeId
  draftLength : ℕ

/-- What the session cannot decide: whether the requests of the round that starts with so
many tokens can be sent, and whether the consumer still takes a token. -/
structure SpeculativeEnvironment where
  draftResult : ℕ → Except MeshError Unit
  verifyResult : ℕ → Except MeshError Unit
  listening : ℕ → Bool

/-- How far the decoding loop is. -/
inductive SpeculativeState
  /-- It waits for draft tokens. -/
  | drafting (totalGenerated : ℕ) (contextTokens : List ℕ)
  /-- It waits for their verification. -/
  | verifying (totalGenerated : ℕ) (contextTokens draftTokens : List ℕ)
  | finished

/-- How the decoding loop stands. -/
def SpeculativeState.kind : SpeculativeState → StreamEnd
  | .drafting .. => .waiting
  | .verifying .. => .waiting
  | .finished => .finished

namespace SpeculativeSession

variable (session : SpeculativeSession) (environment : SpeculativeEnvironment)
  (draftModelId : String) (maxTokens : ℕ)

/-- Context tokens as they are sent to the drafter. -/
def tokensJson (tokens : List ℕ) : String :=
  "[" ++ String.intercalate "," (tokens.map toString) ++ "]"

/-- The token that is yielded for an identifier. -/
def token (tokenId : ℕ) : Token := ⟨s!"<token_{tokenId}>", tokenId, none, false⟩

/-- Release the session on both peers. -/
def cleanup : List StreamAction :=
  [session.drafterPeer, session.verifierPeer].map fun peer =>
    .send peer (.releaseSession session.sessionId)

/-- Yield tokens until the consumer is gone, and say whether it still listens. -/
def emit : ℕ → List ℕ → List StreamAction × Bool
  | _, [] => ([], true)
  | totalGenerated, tokenId :: rest =>
      if environment.listening totalGenerated then
        let later := emit (totalGenerated + 1) rest
        (.yield (.ok (token tokenId)) :: later.1, later.2)
      else ([], false)

/-- Start a round, or come to the end of the loop. -/
def startRound (totalGenerated : ℕ) (contextTokens : List ℕ) :
    SpeculativeState × List StreamAction :=
  if totalGenerated < maxTokens then
    match environment.draftResult totalGenerated with
    | .error e => (.finished, .yield (.error e) :: session.cleanup)
    | .ok _ =>
        -- greedy drafting: temperature 0, top-p 1
        (.drafting totalGenerated contextTokens,
          [.send session.drafterPeer (.inferenceRequest session.sessionId draftModelId
            (tokensJson contextTokens) (min session.draftLength (maxTokens - totalGenerated))
            0 0x3f800000)])
  else (.finished, session.cleanup)

/-- What the decoding loop does with the next message. -/
def step (state : SpeculativeState) (received : Except MeshError Envelope) :
    SpeculativeState × List StreamAction :=
  match state with
  | .finished => (.finished, [])
  | .drafting totalGenerated contextTokens =>
      match received with
      | .ok (_, .draftTokens sid tokens _) =>
          if sid = session.sessionId then
            if tokens.isEmpty then (.finished, session.cleanup)
            else
              match environment.verifyResult totalGenerated with
              | .error e => (.finished, .yield (.error e) :: session.cleanup)
              | .ok _ =>
                  (.verifying totalGenerated contextTokens tokens,
                    [.send session.verifierPeer
                      (.draftTokens session.sessionId tokens draftModelId)])
          else (state, [])
      | .ok (_, .error _ message) =>
          (.finished, [.yield (.error (.pipeline s!"Drafter error: {message}"))])
      | .error e => (.finished, [.yield (.error e)])
      | .ok _ => (state, [])
  | .verifying totalGenerated contextTokens draftTokens =>
      match received with
      | .ok (_, .verifyDraft sid acceptedCount correctionToken) =>
          if sid = session.sessionId then
            let tokens := draftTokens.take acceptedCount ++ correctionToken.toList
            let emitted := emit environment totalGenerated tokens
            if !emitted.2 then (.finished, emitted.1)
            else if acceptedCount = 0 ∧ correctionToken = none then
              (.finished, emitted.1 ++ session.cleanup)
            else
              let next := startRound session environment draftModelId maxTokens
                (totalGenerated + tokens.length) (contextTokens ++ tokens)
              (next.1, emitted.1 ++ next.2)
          else (state, [])
      | .ok (_, .error _ message) =>
          (.finished, [.yield (.error (.pipeline s!"Verifier error: {message}"))])
      | .error e => (.finished, [.yield (.error e)])
      | .ok _ => (state, [])

/-- Run the decoding loop on a prompt: how it stands after these messages, and what it has
done. -/
def streamTokens (promptTokens : List ℕ) (received : List (Except MeshError Envelope)) :
    StreamEnd × List StreamAction :=
  let begun := startRound session environment draftModelId maxTokens 0 promptTokens
  let later := run (step session environment draftModelId maxTokens) begun.1 received
  (later.1.kind, begun.2 ++ later.2)

/-! ## What a session owes -/

/-- A draft or verify request of the session engages both peers. -/
def opens (_ : NodeId) : MeshMessage → List NodeId
  | .inferenceRequest sid .. | .draftTokens sid .. =>
      if sid = session.sessionId then [session.drafterPeer, session.verifierPeer] else []
  | _ => []

/-- A waiting loop fails on this message: the transport fails, it is an error report of
any session, or the reaction to it meets a request that cannot be sent or a consumer that
is gone. -/
def Bad : SpeculativeState → Except MeshError Envelope → Prop
  | .finished, _ => False
  | .drafting totalGenerated _, received =>
      match received with
      | .error _ => True
      | .ok (_, .error _ _) => True
      | .ok (_, .draftTokens sid tokens _) =>
          sid = session.sessionId ∧ tokens ≠ [] ∧
            ∃ e, environment.verifyResult totalGenerated = .error e
      | .ok _ => False
  | .verifying totalGenerated _ draftTokens, received =>
      match received with
      | .error _ => True
      | .ok (_, .error _ _) => True
      | .ok (_, .verifyDraft sid acceptedCount correctionToken) =>
          let count := (draftTokens.take acceptedCount ++ correctionToken.toList).length
          sid = session.sessionId ∧
            ((∃ i < count, environment.listening (totalGenerated + i) = false) ∨
              ¬ (acceptedCount = 0 ∧ correctionToken = none) ∧ totalGenerated + count < maxTokens ∧
                ∃ e, environment.draftResult (totalGenerated + count) = .error e)
      | .ok _ => False

/-- The session fails on a message that it waits for. -/
def Fails (promptTokens : List ℕ) (received : List (Except MeshError Envelope)) : Prop :=
  Meets (step session environment draftModelId maxTokens) (Bad session environment maxTokens)
    (startRound session environment draftModelId maxTokens 0 promptTokens).1 received

/-- The two peers are owed their release, and there are no checkpoints. -/
def Engaged (owed : Debt) : Prop :=
  owed.peers ≠ [] ∧ (∀ peer ∈ owed.peers, peer ∈ [session.drafterPeer, session.verifierPeer]) ∧
    owed.checkpoints = false

/-- What a state of the loop owes. -/
def Due : SpeculativeState → Debt → Prop
  | .drafting .., owed => session.Engaged owed
  | .verifying .., owed => session.Engaged owed
  | .finished, owed => owed.Nothing

variable {session environment draftModelId maxTokens}

/-- What is owed after an action of the session. -/
abbrev charge (session : SpeculativeSession) : Debt → StreamAction → Debt :=
  Debt.charge session.sessionId session.opens

/-- The cleanup settles everything and reports nothing. -/
theorem settled_cleanup {owed : Debt}
    (hpeers : ∀ peer ∈ owed.peers, peer ∈ [session.drafterPeer, session.verifierPeer])
    (hcheckpoints : owed.checkpoints = false) :
    ReportsSettled session.charge Debt.isReport Debt.Nothing owed session.cleanup ∧
      (owing session.charge owed session.cleanup).Nothing := by
  constructor
  · apply reportsSettled_of_no_report
    intro action haction
    obtain ⟨peer, -, rfl⟩ := List.mem_map.mp haction
    rfl
  · rw [cleanup, Debt.owing_releases]
    apply And.intro _ hcheckpoints
    rw [List.filter_eq_nil_iff]
    intro peer hpeer
    rw [decide_eq_true_eq, not_not]
    exact hpeers peer hpeer

/-- A request engages both peers. -/
theorem engaged_request {owed : Debt} (peer : NodeId) {message : MeshMessage}
    (hrequest : message ≠ .releaseSession session.sessionId)
    (hopens : session.opens peer message = [session.drafterPeer, session.verifierPeer])
    (hpeers : ∀ peer ∈ owed.peers, peer ∈ [session.drafterPeer, session.verifierPeer])
    (hcheckpoints : owed.checkpoints = false) :
    session.Engaged (owing session.charge owed [.send peer message]) := by
  have hcharge : owing session.charge owed [.send peer message] =
      ⟨[session.drafterPeer, session.verifierPeer] ++ owed.peers, owed.checkpoints⟩ := by
    simp [owing, Debt.charge, hrequest, hopens]
  rw [hcharge]
  exact ⟨List.cons_ne_nil _ _, List.forall_mem_append.mpr ⟨fun _ h => h, hpeers⟩, hcheckpoints⟩

variable (session environment) in
/-- Emitted tokens change no debt and report no error. -/
theorem owing_emit (owed : Debt) (totalGenerated : ℕ) (tokens : List ℕ) :
    ReportsSettled session.charge Debt.isReport Debt.Nothing owed
        (emit environment totalGenerated tokens).1 ∧
      owing session.charge owed (emit environment totalGenerated tokens).1 = owed := by
  induction tokens generalizing totalGenerated with
  | nil => exact ⟨trivial, rfl⟩
  | cons tokenId rest ih =>
      rw [emit]
      split
      · exact ⟨⟨nofun, (ih (totalGenerated + 1)).1⟩, (ih (totalGenerated + 1)).2⟩
      · exact ⟨trivial, rfl⟩

/-- The consumer is gone at the end of an emission exactly if it does not take one of the
tokens. -/
theorem emit_gone_iff (totalGenerated : ℕ) (tokens : List ℕ) :
    (emit environment totalGenerated tokens).2 = false ↔
      ∃ i < tokens.length, environment.listening (totalGenerated + i) = false := by
  induction tokens generalizing totalGenerated with
  | nil => simp [emit]
  | cons tokenId rest ih =>
      rw [emit]
      cases hfirst : environment.listening totalGenerated with
      | false => exact iff_of_true rfl ⟨0, Nat.succ_pos _, hfirst⟩
      | true =>
          apply (ih (totalGenerated + 1)).trans
          constructor
          · rintro ⟨i, hi, hgone⟩
            rw [Nat.add_right_comm] at hgone
            exact ⟨i + 1, Nat.succ_lt_succ hi, hgone⟩
          · rintro ⟨i, hi, hgone⟩
            cases i with
            | zero =>
                rw [Nat.add_zero, hfirst] at hgone
                cases hgone
            | succ i =>
                rw [← Nat.add_assoc, Nat.add_right_comm] at hgone
                exact ⟨i, Nat.lt_of_succ_lt_succ hi, hgone⟩

/-- An error that is yielded while peers are owed a release is reported too early. -/
theorem not_reportsSettled_error {owed : Debt} (hengaged : session.Engaged owed) (e : MeshError)
    (rest : List StreamAction) :
    ¬ ReportsSettled session.charge Debt.isReport Debt.Nothing owed (.yield (.error e) :: rest) :=
  fun hreports => hengaged.1 (hreports.1 rfl).1

/-- A round starts with an open debt, or the loop ends with none, unless the request cannot
be sent. -/
theorem due_startRound {totalGenerated : ℕ} {contextTokens : List ℕ} {owed : Debt}
    (hpeers : ∀ peer ∈ owed.peers, peer ∈ [session.drafterPeer, session.verifierPeer])
    (hcheckpoints : owed.checkpoints = false)
    (hsent : totalGenerated < maxTokens → environment.draftResult totalGenerated = .ok ()) :
    let started :=
      startRound session environment draftModelId maxTokens totalGenerated contextTokens
    ReportsSettled session.charge Debt.isReport Debt.Nothing owed started.2 ∧
      Due session started.1 (owing session.charge owed started.2) := by
  dsimp only [startRound]
  split
  · rename_i hlt
    rw [hsent hlt]
    exact ⟨⟨nofun, trivial⟩, engaged_request _ nofun (if_pos rfl) hpeers hcheckpoints⟩
  · exact settled_cleanup hpeers hcheckpoints

/-- What the decoding loop does with a verification. -/
theorem step_verifyDraft (totalGenerated : ℕ) (contextTokens draftTokens : List ℕ)
    (sender : NodeId) (acceptedCount : ℕ) (correctionToken : Option ℕ) :
    let tokens := draftTokens.take acceptedCount ++ correctionToken.toList
    let emitted := emit environment totalGenerated tokens
    step session environment draftModelId maxTokens
        (.verifying totalGenerated contextTokens draftTokens)
        (.ok (sender, .verifyDraft session.sessionId acceptedCount correctionToken)) =
      if !emitted.2 then (.finished, emitted.1)
      else if acceptedCount = 0 ∧ correctionToken = none then
        (.finished, emitted.1 ++ session.cleanup)
      else
        let next := startRound session environment draftModelId maxTokens
          (totalGenerated + tokens.length) (contextTokens ++ tokens)
        (next.1, emitted.1 ++ next.2) :=
  if_pos rfl

/-- What the decoding loop does with a draft. -/
theorem step_draftTokens (totalGenerated : ℕ) (contextTokens : List ℕ) (sender : NodeId)
    (tokens : List ℕ) (modelId : String) :
    step session environment draftModelId maxTokens (.drafting totalGenerated contextTokens)
        (.ok (sender, .draftTokens session.sessionId tokens modelId)) =
      if tokens.isEmpty then (.finished, session.cleanup)
      else
        match environment.verifyResult totalGenerated with
        | .error e => (.finished, .yield (.error e) :: session.cleanup)
        | .ok _ =>
            (.verifying totalGenerated contextTokens tokens,
              [.send session.verifierPeer
                (.draftTokens session.sessionId tokens draftModelId)]) :=
  if_pos rfl

theorem ended_finished : Ended (step session environment draftModelId maxTokens) .finished :=
  fun _ => rfl

/-- A message that the loop passes over changes no debt. -/
theorem due_of_ignored {state : SpeculativeState} {received : Except MeshError Envelope}
    {owed : Debt} (hdue : Due session state owed)
    (hignored : step session environment draftModelId maxTokens state received = (state, [])) :
    let after := step session environment draftModelId maxTokens state received
    ReportsSettled session.charge Debt.isReport Debt.Nothing owed after.2 ∧
      Due session after.1 (owing session.charge owed after.2) := by
  rw [hignored]
  exact ⟨trivial, hdue⟩

/-- After a draft on which the loop does not fail, it waits or owes nothing. -/
theorem due_draftTokens {totalGenerated : ℕ} {contextTokens tokens : List ℕ} {owed : Debt}
    {sender : NodeId} {sid : Uuid} {modelId : String} (hengaged : session.Engaged owed)
    (hgood : ¬ Bad session environment maxTokens (.drafting totalGenerated contextTokens)
      (.ok (sender, .draftTokens sid tokens modelId))) :
    let after := step session environment draftModelId maxTokens
      (.drafting totalGenerated contextTokens) (.ok (sender, .draftTokens sid tokens modelId))
    ReportsSettled session.charge Debt.isReport Debt.Nothing owed after.2 ∧
      Due session after.1 (owing session.charge owed after.2) := by
  by_cases hown : sid = session.sessionId
  · subst hown
    rw [step_draftTokens]
    split_ifs with hempty
    · exact settled_cleanup hengaged.2.1 hengaged.2.2
    · cases hsent : environment.verifyResult totalGenerated with
      | error e => exact absurd ⟨rfl, by simpa using hempty, e, hsent⟩ hgood
      | ok _ =>
          exact ⟨⟨nofun, trivial⟩,
            engaged_request _ nofun (if_pos rfl) hengaged.2.1 hengaged.2.2⟩
  · exact due_of_ignored hengaged (if_neg hown)

/-- After a verification on which the loop does not fail, it waits or owes nothing. -/
theorem due_verifyDraft {totalGenerated acceptedCount : ℕ} {contextTokens draftTokens : List ℕ}
    {owed : Debt} {sender : NodeId} {sid : Uuid} {correctionToken : Option ℕ}
    (hengaged : session.Engaged owed)
    (hgood : ¬ Bad session environment maxTokens
      (.verifying totalGenerated contextTokens draftTokens)
      (.ok (sender, .verifyDraft sid acceptedCount correctionToken))) :
    let after := step session environment draftModelId maxTokens
      (.verifying totalGenerated contextTokens draftTokens)
      (.ok (sender, .verifyDraft sid acceptedCount correctionToken))
    ReportsSettled session.charge Debt.isReport Debt.Nothing owed after.2 ∧
      Due session after.1 (owing session.charge owed after.2) := by
  by_cases hown : sid = session.sessionId
  · subst hown
    obtain ⟨hreports, howing⟩ := owing_emit session environment owed totalGenerated
      (draftTokens.take acceptedCount ++ correctionToken.toList)
    rw [step_verifyDraft]
    dsimp only
    split_ifs with hgone hnone
    · rw [Bool.not_eq_true', emit_gone_iff] at hgone
      exact absurd ⟨rfl, Or.inl hgone⟩ hgood
    · obtain ⟨hcleanup, hnothing⟩ := settled_cleanup hengaged.2.1 hengaged.2.2
      rw [reportsSettled_append, owing_append, howing]
      exact ⟨⟨hreports, hcleanup⟩, hnothing⟩
    · rw [reportsSettled_append, owing_append, howing, and_assoc, and_iff_right hreports]
      apply due_startRound hengaged.2.1 hengaged.2.2
      intro hlt
      cases hsent : environment.draftResult (totalGenerated +
        (draftTokens.take acceptedCount ++ correctionToken.toList).length) with
      | error e => exact absurd ⟨rfl, Or.inr ⟨hnone, hlt, e, hsent⟩⟩ hgood
      | ok _ => rfl
  · exact due_of_ignored hengaged (if_neg hown)

/-- A draft on which the loop fails is reported before the cleanup. -/
theorem not_reportsSettled_draftTokens {totalGenerated : ℕ} {contextTokens tokens : List ℕ}
    {owed : Debt} {sender : NodeId} {sid : Uuid} {modelId : String}
    (hengaged : session.Engaged owed)
    (hbad : Bad session environment maxTokens (.drafting totalGenerated contextTokens)
      (.ok (sender, .draftTokens sid tokens modelId))) :
    ¬ ReportsSettled session.charge Debt.isReport Debt.Nothing owed
      (step session environment draftModelId maxTokens (.drafting totalGenerated contextTokens)
        (.ok (sender, .draftTokens sid tokens modelId))).2 := by
  obtain ⟨rfl, hsome, e, hsent⟩ := hbad
  rw [step_draftTokens, if_neg (by simpa using hsome), hsent]
  exact not_reportsSettled_error hengaged e session.cleanup

/-- A verification on which the loop fails is reported before the cleanup, or the loop
returns without its cleanup. -/
theorem unsettled_verifyDraft {totalGenerated acceptedCount : ℕ}
    {contextTokens draftTokens : List ℕ} {owed : Debt} {sender : NodeId} {sid : Uuid}
    {correctionToken : Option ℕ} (hengaged : session.Engaged owed)
    (hbad : Bad session environment maxTokens (.verifying totalGenerated contextTokens draftTokens)
      (.ok (sender, .verifyDraft sid acceptedCount correctionToken))) :
    let after := step session environment draftModelId maxTokens
      (.verifying totalGenerated contextTokens draftTokens)
      (.ok (sender, .verifyDraft sid acceptedCount correctionToken))
    ¬ ReportsSettled session.charge Debt.isReport Debt.Nothing owed after.2 ∨
      after.1 = .finished ∧ ¬ (owing session.charge owed after.2).Nothing := by
  obtain ⟨rfl, hbad⟩ := hbad
  obtain ⟨-, howing⟩ := owing_emit session environment owed totalGenerated
    (draftTokens.take acceptedCount ++ correctionToken.toList)
  rw [step_verifyDraft]
  dsimp only
  cases hgone : (emit environment totalGenerated
      (draftTokens.take acceptedCount ++ correctionToken.toList)).2 with
  | false =>
      rw [Bool.not_false, if_pos rfl, howing]
      exact Or.inr ⟨rfl, fun hnothing => hengaged.1 hnothing.1⟩
  | true =>
      rw [if_neg (by simp)]
      rcases hbad with hdropped | ⟨hsome, hlt, e, hsent⟩
      · rw [← emit_gone_iff, hgone] at hdropped
        cases hdropped
      · rw [if_neg hsome, startRound, if_pos hlt, hsent, reportsSettled_append, howing]
        exact Or.inl fun hsettled =>
          not_reportsSettled_error hengaged e session.cleanup hsettled.2

/-- What the decoding loop owes, and the messages it fails on. -/
theorem accounts_step :
    Accounts (step session environment draftModelId maxTokens) session.charge Debt.isReport
      Debt.Nothing (fun state => state.kind = .waiting) (Due session)
      (Bad session environment maxTokens) where
  rests := fun {state owed} hdue hover => by
    cases state with
    | drafting => exact absurd rfl hover
    | verifying => exact absurd rfl hover
    | finished => exact hdue
  good := fun {state owed received} hdue hgood => by
    cases state with
    | finished => exact due_of_ignored hdue rfl
    | drafting totalGenerated contextTokens =>
        cases received with
        | error e => exact absurd trivial hgood
        | ok envelope =>
            obtain ⟨sender, message⟩ := envelope
            cases message with
            | error sid text => exact absurd trivial hgood
            | draftTokens sid tokens modelId => exact due_draftTokens hdue hgood
            | _ => exact due_of_ignored hdue rfl
    | verifying totalGenerated contextTokens draftTokens =>
        cases received with
        | error e => exact absurd trivial hgood
        | ok envelope =>
            obtain ⟨sender, message⟩ := envelope
            cases message with
            | error sid text => exact absurd trivial hgood
            | verifyDraft sid acceptedCount correctionToken => exact due_verifyDraft hdue hgood
            | _ => exact due_of_ignored hdue rfl
  fails := fun {state owed received} hdue hbad => by
    cases state with
    | finished => exact hbad.elim
    | drafting totalGenerated contextTokens =>
        cases received with
        | error e => exact Or.inl (not_reportsSettled_error hdue e [])
        | ok envelope =>
            obtain ⟨sender, message⟩ := envelope
            cases message with
            | error sid text => exact Or.inl (not_reportsSettled_error hdue _ [])
            | draftTokens sid tokens modelId =>
                exact Or.inl (not_reportsSettled_draftTokens hdue hbad)
            | _ => exact hbad.elim
    | verifying totalGenerated contextTokens draftTokens =>
        cases received with
        | error e => exact Or.inl (not_reportsSettled_error hdue e [])
        | ok envelope =>
            obtain ⟨sender, message⟩ := envelope
            cases message with
            | error sid text => exact Or.inl (not_reportsSettled_error hdue _ [])
            | verifyDraft sid acceptedCount correctionToken =>
                apply (unsettled_verifyDraft hdue hbad).imp_right
                rintro ⟨hfinished, howed⟩
                rw [hfinished]
                exact ⟨ended_finished, nofun, howed⟩
            | _ => exact hbad.elim

variable (session environment draftModelId maxTokens)

/-- The first round owes nothing before its request is sent. -/
theorem due_begin (promptTokens : List ℕ) :
    let begun := startRound session environment draftModelId maxTokens 0 promptTokens
    ReportsSettled session.charge Debt.isReport Debt.Nothing .start begun.2 ∧
      Due session begun.1 (owing session.charge .start begun.2) := by
  have hpeers : ∀ peer ∈ Debt.start.peers, peer ∈ [session.drafterPeer, session.verifierPeer] :=
    nofun
  cases hsent : environment.draftResult 0 with
  | ok _ => exact due_startRound hpeers rfl fun _ => hsent
  | error e =>
      dsimp only [startRound]
      rw [hsent]
      obtain ⟨hcleanup, hnothing⟩ := settled_cleanup hpeers rfl
      split
      · exact ⟨⟨fun _ => ⟨rfl, rfl⟩, hcleanup⟩, hnothing⟩
      · exact ⟨hcleanup, hnothing⟩

/-- **When a speculative session is released.** -/
theorem released_streamTokens_iff (promptTokens : List ℕ)
    (received : List (Except MeshError Envelope)) :
    Debt.start.Released session.sessionId session.opens
        (streamTokens session environment draftModelId maxTokens promptTokens received) ↔
      ¬ Fails session environment draftModelId maxTokens promptTokens received := by
  obtain ⟨hreports, hdue⟩ := due_begin session environment draftModelId maxTokens promptTokens
  rw [Fails, ← settled_run_iff accounts_step hdue received, ← settled_append_iff hreports]
  exact Iff.rfl

end SpeculativeSession

/-- **When sessions are released.** A pipeline request and a speculative session release all
peers of their session, and clear its checkpoints, before they report their outcome exactly
if nothing fails once a first request of the session has been sent. -/
theorem sessions_released_exactly {F H : Type*} :
    (∀ (initiator : PipelineInitiator F) (handler : MeshPipelineHandler H)
        (environment : StreamEnvironment) (maxTokens : ℕ) (modelSource : String)
        (assignResult : ℕ → Except MeshError Unit) (handlerState : H) (promptTokens : List ℕ)
        (delivered : List (Except MeshError Envelope)),
      Debt.start.Released initiator.sessionId initiator.opens
          (initiator.operation handler environment maxTokens modelSource assignResult handlerState
            promptTokens delivered) ↔
        ¬ initiator.OperationFails handler environment maxTokens assignResult handlerState
          promptTokens delivered) ∧
    ∀ (session : SpeculativeSession) (environment : SpeculativeEnvironment)
        (draftModelId : String) (maxTokens : ℕ) (promptTokens : List ℕ)
        (delivered : List (Except MeshError Envelope)),
      Debt.start.Released session.sessionId session.opens
          (session.streamTokens environment draftModelId maxTokens promptTokens delivered) ↔
        ¬ session.Fails environment draftModelId maxTokens promptTokens delivered :=
  ⟨fun initiator handler environment maxTokens modelSource assignResult =>
      initiator.settled_operation_iff handler environment maxTokens modelSource assignResult,
    fun session => session.released_streamTokens_iff⟩

namespace PipelineInitiator

/-- A peer that is not ready ends setup while the other one keeps its layers. -/
theorem refused_setup_keeps_session :
    let refused : Except MeshError Envelope :=
      .ok (.ofByte 2, .assignLayersAck 7 false (some "out of memory"))
    ¬ Debt.start.Released twoPeers.sessionId twoPeers.opens
      (twoPeers.operation copyingHandler quietEnvironment 1 "model"
        (fun _ => .ok ()) () [1] [readyAck 1, refused]) := by
  intro refused hreleased
  have hpeers := (hreleased.2 (by decide)).1
  exact absurd hpeers (by decide)

end PipelineInitiator

end HiveBear.Mesh
