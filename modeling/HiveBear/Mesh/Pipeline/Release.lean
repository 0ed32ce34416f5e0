/-
# Releasing a session

A session that has assigned layers to peers owes each of them a release, and it owes its
checkpoints to be cleared. The cleanup at the end of the token loop settles both, before
the stream's channel closes. Every failure is reported before that or instead of it: setup
returns an error without releasing the peers it has already assigned, and the token loop
yields an error first and cleans up afterwards, partly, or not at all.

So a session is released before its outcome is reported exactly if nothing fails once the
first assignment has been sent.
-/

import HiveBear.Library.Obligations
import HiveBear.Mesh.Pipeline.Noninterference
import HiveBear.Mesh.Pipeline.SetupLoop

namespace HiveBear.Mesh

open MessageMachine

/-! ## What a session owes -/

/-- The peers that still have to be released, and whether there are checkpoints. -/
structure Debt where
  peers : List NodeId
  checkpoints : Bool

namespace Debt

/-- Nothing is owed. -/
def Nothing (owed : Debt) : Prop := owed.peers = [] ∧ owed.checkpoints = false

/-- Nothing has happened yet. -/
def start : Debt := ⟨[], false⟩

/-- What is owed after an action. `opens` says which peers a message engages for the
session. -/
def charge (sessionId : Uuid) (opens : NodeId → MeshMessage → List NodeId) (owed : Debt) :
    StreamAction → Debt
  | .send peer message =>
      if message = .releaseSession sessionId then
        { owed with peers := owed.peers.filter fun p => p ≠ peer }
      else { owed with peers := opens peer message ++ owed.peers }
  | .saveCheckpoint .. => { owed with checkpoints := true }
  | .clearCheckpoints => { owed with checkpoints := false }
  | .forward .. => owed
  | .yield _ => owed

/-- The consumer is told of an error. -/
def isReport : StreamAction → Bool
  | .yield (.error _) => true
  | _ => false

/-- What a session owes is settled whenever it reports an error and once it has ended. -/
def Released (sessionId : Uuid) (opens : NodeId → MeshMessage → List NodeId) (owed : Debt)
    (result : StreamEnd × List StreamAction) : Prop :=
  Settled (charge sessionId opens) isReport Nothing (fun stands => stands = .waiting) owed result

variable {sessionId : Uuid} {opens : NodeId → MeshMessage → List NodeId}

/-- Releasing peers settles what is owed to them. -/
theorem owing_releases (owed : Debt) (peers : List NodeId) :
    owing (charge sessionId opens) owed
        (peers.map fun peer => .send peer (.releaseSession sessionId)) =
      { owed with peers := owed.peers.filter fun p => p ∉ peers } := by
  induction peers generalizing owed with
  | nil => simp [owing]
  | cons peer rest ih =>
      rw [List.map_cons, owing, List.foldl_cons, ← owing, ih, charge, if_pos rfl]
      simp [List.filter_filter, Bool.and_comm]

/-- An action that engages and releases nobody. -/
def IsNeutral (sessionId : Uuid) (opens : NodeId → MeshMessage → List NodeId) :
    StreamAction → Prop
  | .send peer message => message ≠ .releaseSession sessionId ∧ opens peer message = []
  | _ => True

/-- Neutral actions leave the peers that are owed a release. -/
theorem peers_owing_of_neutral {owed : Debt} {trace : List StreamAction}
    (h : ∀ action ∈ trace, IsNeutral sessionId opens action) :
    (owing (charge sessionId opens) owed trace).peers = owed.peers := by
  induction trace generalizing owed with
  | nil => rfl
  | cons action rest ih =>
      rw [List.forall_mem_cons] at h
      rw [owing, List.foldl_cons, ← owing, ih h.2]
      cases action with
      | send peer message =>
          rw [charge, if_neg h.1.1, h.1.2]
          rfl
      | _ => rfl

/-- An error yielded behind neutral actions is reported while peers are owed a release. -/
theorem not_reportsSettled_of_error {owed : Debt} (howed : owed.peers ≠ [])
    {trace rest : List StreamAction} (h : ∀ action ∈ trace, IsNeutral sessionId opens action)
    (e : MeshError) :
    ¬ ReportsSettled (charge sessionId opens) isReport Nothing owed
      (trace ++ .yield (.error e) :: rest) := by
  rw [reportsSettled_append]
  rintro ⟨-, hreport, -⟩
  apply howed
  rw [← peers_owing_of_neutral h]
  exact (hreport rfl).1

end Debt

namespace PipelineInitiator

variable {F H : Type*} (initiator : PipelineInitiator F) (handler : MeshPipelineHandler H)
  (environment : StreamEnvironment) (firstWorker : NodeId) (maxTokens : ℕ)

/-- An assignment of the session engages its peer. -/
def opens (peer : NodeId) : MeshMessage → List NodeId
  | .assignLayers sid .. => if sid = initiator.sessionId then [peer] else []
  | _ => []

/-- What is owed after an action of the session. -/
abbrev charge : Debt → StreamAction → Debt := Debt.charge initiator.sessionId initiator.opens

/-! ## The token loop -/

/-- The loop fails with these logits: sampling fails, its output is too short, or the
token cannot be embedded or its activation sent. -/
def TurnFails (handlerState : H) (position : ℕ) (logitsData : List UInt8) : Prop :=
  let sampling := handler.forwardLayers handlerState logitsData [1] 255 position
  match sampling.1 with
  | .error _ => True
  | .ok (tokenBytes, _, _) =>
      tokenBytes.length < 4 ∨
        (environment.listening position = true ∧
          (environment.fromUtf8Lossy (tokenBytes.drop 4)).isEmpty = false ∧
          fromLeBytes (tokenBytes.take 4) ≠ 0) ∧
        ((∃ e, (handler.forwardLayers sampling.2 (toLeBytes (fromLeBytes (tokenBytes.take 4)))
            [1, 1] 0 (position + 1)).1 = .error e) ∨
          ∃ e, environment.sendResult (position + 1) = .error e)

/-- A waiting loop fails on this message: the transport fails, it is an error report of
any session, or it brings logits the loop fails with. -/
def LoopBad : LoopState H → Except MeshError Envelope → Prop
  | .reading position handlerState, received =>
      match received with
      | .error _ => True
      | .ok (_, .error _ _) => True
      | .ok (_, .logits sid _ data _) =>
          sid = initiator.sessionId ∧ TurnFails handler environment handlerState position data
      | .ok _ => False
  | .finished, _ => False
  | .panicked, _ => False

/-- What a state of the loop owes: while it reads, some assigned peers; at its end,
nothing. -/
def Due : LoopState H → Debt → Prop
  | .reading _ _, owed => owed.peers ≠ [] ∧ ∀ peer ∈ owed.peers, peer ∈ initiator.planPeers
  | .finished, owed => owed.Nothing
  | .panicked, _ => False

variable {initiator handler environment firstWorker maxTokens}

/-- The cleanup settles what assigned peers are owed. -/
theorem nothing_cleanup {owed : Debt} (h : ∀ peer ∈ owed.peers, peer ∈ initiator.planPeers) :
    (owing initiator.charge owed initiator.cleanup).Nothing := by
  have hreleases : initiator.releaseActions =
      initiator.planPeers.map fun peer => .send peer (.releaseSession initiator.sessionId) := by
    rw [releaseActions, releaseMessages, planPeers, List.map_map, List.map_map]
    rfl
  rw [cleanup, hreleases, owing, List.foldl_cons, ← owing, Debt.owing_releases]
  refine ⟨?_, rfl⟩
  rw [List.filter_eq_nil_iff]
  simpa [Debt.charge] using h

/-- The cleanup reports nothing. -/
theorem reportsSettled_cleanup (owed : Debt) :
    ReportsSettled initiator.charge Debt.isReport Debt.Nothing owed initiator.cleanup := by
  apply reportsSettled_of_no_report
  intro action haction
  rcases List.mem_cons.mp haction with rfl | hrelease
  · rfl
  · obtain ⟨e, _, rfl⟩ := List.mem_map.mp hrelease
    rfl

/-- An action that engages nobody, releases nobody and reports nothing. -/
def IsSilent (initiator : PipelineInitiator F) (action : StreamAction) : Prop :=
  Debt.IsNeutral initiator.sessionId initiator.opens action ∧ Debt.isReport action = false

theorem isSilent_forward (data : List UInt8) (shape : List ℕ) (dtype : UInt8) (indexPos : ℕ) :
    initiator.IsSilent (.forward data shape dtype indexPos) := ⟨trivial, rfl⟩

theorem isSilent_activation (peer : NodeId) (tokenPosition : ℕ) (data : List UInt8)
    (shape : List ℕ) (dtype : TensorDtype) :
    initiator.IsSilent (.send peer (initiator.activationMessage tokenPosition data shape dtype)) :=
  ⟨⟨nofun, rfl⟩, rfl⟩

theorem isSilent_token (token : Token) : initiator.IsSilent (.yield (.ok token)) := ⟨trivial, rfl⟩

/-- A trace that engages and releases nobody and yields an error last. -/
def FailsLast (initiator : PipelineInitiator F) (trace : List StreamAction) : Prop :=
  ∃ front e, trace = front ++ [.yield (.error e)] ∧ ∀ action ∈ front, initiator.IsSilent action

theorem FailsLast.append {front trace : List StreamAction}
    (hfront : ∀ action ∈ front, initiator.IsSilent action) (h : initiator.FailsLast trace) :
    initiator.FailsLast (front ++ trace) := by
  obtain ⟨rest, e, rfl, hrest⟩ := h
  refine ⟨front ++ rest, e, (List.append_assoc _ _ _).symm, fun action haction => ?_⟩
  rcases List.mem_append.mp haction with hmem | hmem
  · exact hfront action hmem
  · exact hrest action hmem

theorem failsLast_error (e : MeshError) : initiator.FailsLast [.yield (.error e)] :=
  ⟨[], e, rfl, fun _ h => nomatch h⟩

variable (initiator handler environment firstWorker)

/-- A token that is fed back engages and releases nobody. If that fails, an error is
yielded last. -/
theorem feedToken_spec (handlerState : H) (position tokenId : ℕ) :
    let fed := feedToken initiator handler environment firstWorker handlerState position tokenId
    let fails := (∃ e, (handler.forwardLayers handlerState (toLeBytes tokenId) [1, 1] 0
      (position + 1)).1 = .error e) ∨ ∃ e, environment.sendResult (position + 1) = .error e
    (fails ∧ initiator.FailsLast fed.1) ∨
      (¬ fails ∧ (∀ action ∈ fed.1, initiator.IsSilent action) ∧ ∃ next, fed.2 = .next next) := by
  dsimp only [feedToken]
  cases (handler.forwardLayers handlerState (toLeBytes tokenId) [1, 1] 0 (position + 1)).1 with
  | error e =>
      have hembed : initiator.IsSilent (.forward (toLeBytes tokenId) [1, 1] 0 (position + 1)) :=
        isSilent_forward _ _ _ _
      exact Or.inl ⟨Or.inl ⟨e, rfl⟩,
        (failsLast_error _).append (List.forall_mem_singleton.mpr hembed)⟩
  | ok activation =>
      dsimp only
      generalize hsaved : (if (position + 1) % checkpointInterval = 0 then
        [StreamAction.saveCheckpoint (position + 1) activation.1 activation.2.1
          ((TensorDtype.fromU8 activation.2.2).getD .f32) 0] else []) = saved
      have hcheckpoint : ∀ action ∈ saved, initiator.IsSilent action := by
        intro action haction
        rw [← hsaved] at haction
        split at haction
        · rw [List.mem_singleton.mp haction]
          exact ⟨trivial, rfl⟩
        · cases haction
      have hembed : ∀ action ∈ StreamAction.forward (toLeBytes tokenId) [1, 1] 0 (position + 1) ::
          saved, initiator.IsSilent action :=
        List.forall_mem_cons.mpr ⟨isSilent_forward _ _ _ _, hcheckpoint⟩
      have hsent : initiator.IsSilent (.send firstWorker (initiator.activationMessage (position + 1)
          activation.1 activation.2.1 ((TensorDtype.fromU8 activation.2.2).getD .f32))) :=
        isSilent_activation _ _ _ _ _
      cases environment.sendResult (position + 1) with
      | error e =>
          have hlast := (failsLast_error e).append (List.forall_mem_singleton.mpr hsent)
          exact Or.inl ⟨Or.inr ⟨e, rfl⟩, hlast.append hembed⟩
      | ok _ =>
          have hsilent := List.forall_mem_append.mpr ⟨hembed, List.forall_mem_singleton.mpr hsent⟩
          exact Or.inr ⟨by simp, hsilent, _, rfl⟩

/-- A turn either does not fail, and then it engages and releases nobody, or it fails,
and then it panics or yields an error last. -/
theorem turn_spec (handlerState : H) (position : ℕ) (data : List UInt8) :
    let turn := generateToken initiator handler environment firstWorker handlerState position data
    let fails := TurnFails handler environment handlerState position data
    (¬ fails ∧ (∀ action ∈ turn.1, initiator.IsSilent action) ∧ turn.2 ≠ .panic) ∨
      (fails ∧ turn.2 = .panic ∧ ∀ action ∈ turn.1, initiator.IsSilent action) ∨
      (fails ∧ initiator.FailsLast turn.1) := by
  dsimp only [generateToken, TurnFails]
  have hsample : ∀ action ∈ [StreamAction.forward data [1] 255 position],
      initiator.IsSilent action := List.forall_mem_singleton.mpr (isSilent_forward _ _ _ _)
  cases (handler.forwardLayers handlerState data [1] 255 position).1 with
  | error e => exact Or.inr (Or.inr ⟨trivial, (failsLast_error _).append hsample⟩)
  | ok sampled =>
      obtain ⟨tokenBytes, shape, dtype⟩ := sampled
      dsimp only
      by_cases hlength : tokenBytes.length < 4
      · rw [if_pos hlength]
        exact Or.inr (Or.inl ⟨Or.inl hlength, rfl, hsample⟩)
      rw [if_neg hlength]
      cases hlistening : environment.listening position with
      | false => exact Or.inl ⟨by simp [hlength], hsample, nofun⟩
      | true =>
          simp only [Bool.not_true, Bool.false_eq_true, if_false, hlength, false_or, true_and]
          split
          · rename_i heos
            refine Or.inl ⟨fun hfails => ?_, ?_, nofun⟩
            · rw [hfails.1.1, Bool.false_or, beq_iff_eq] at heos
              exact hfails.1.2 heos
            · exact List.forall_mem_append.mpr ⟨hsample,
                List.forall_mem_singleton.mpr (isSilent_token _)⟩
          · rename_i heos
            rw [Bool.or_eq_true, not_or, Bool.not_eq_true, beq_iff_eq] at heos
            have htoken : ∀ token, ∀ action ∈ [StreamAction.forward data [1] 255 position,
                .yield (.ok token)], initiator.IsSilent action := fun token =>
              List.forall_mem_append.mpr ⟨hsample,
                List.forall_mem_singleton.mpr (isSilent_token token)⟩
            rcases feedToken_spec initiator handler environment firstWorker
              (handler.forwardLayers handlerState data [1] 255 position).2 position
              (fromLeBytes (tokenBytes.take 4)) with ⟨hfails, hlast⟩ | ⟨hworks, hsilent, next, hnext⟩
            · exact Or.inr (Or.inr ⟨⟨heos, hfails⟩, hlast.append (htoken _)⟩)
            · refine Or.inl ⟨fun hfails => hworks hfails.2, ?_, ?_⟩
              · exact List.forall_mem_append.mpr ⟨htoken _, hsilent⟩
              · rw [hnext]
                nofun

variable {initiator handler environment firstWorker}

/-- Going on with a position keeps the accounts. -/
theorem due_enterTurn (maxTokens position : ℕ) (handlerState : H) {owed : Debt}
    (h : owed.peers ≠ [] ∧ ∀ peer ∈ owed.peers, peer ∈ initiator.planPeers) :
    let entered := enterTurn initiator maxTokens position handlerState
    ReportsSettled initiator.charge Debt.isReport Debt.Nothing owed entered.2 ∧
      Due initiator entered.1 (owing initiator.charge owed entered.2) := by
  dsimp only [enterTurn]
  split
  · exact ⟨reportsSettled_cleanup owed, nothing_cleanup h.2⟩
  · exact ⟨trivial, h⟩

/-- Silent actions report nothing and keep what peers are owed. -/
theorem due_of_silent {owed : Debt} {trace : List StreamAction}
    (hsilent : ∀ action ∈ trace, initiator.IsSilent action)
    (h : owed.peers ≠ [] ∧ ∀ peer ∈ owed.peers, peer ∈ initiator.planPeers) :
    ReportsSettled initiator.charge Debt.isReport Debt.Nothing owed trace ∧
      (owing initiator.charge owed trace).peers ≠ [] ∧
        ∀ peer ∈ (owing initiator.charge owed trace).peers, peer ∈ initiator.planPeers := by
  have hpeers : (owing initiator.charge owed trace).peers = owed.peers :=
    Debt.peers_owing_of_neutral fun action haction => (hsilent action haction).1
  rw [hpeers]
  exact ⟨reportsSettled_of_no_report fun action haction => (hsilent action haction).2, h⟩

/-- A trace that ends in an error reports it while peers are owed a release. -/
theorem FailsLast.not_reportsSettled {owed : Debt} (howed : owed.peers ≠ [])
    {trace : List StreamAction} (h : initiator.FailsLast trace) (rest : List StreamAction) :
    ¬ ReportsSettled initiator.charge Debt.isReport Debt.Nothing owed (trace ++ rest) := by
  obtain ⟨front, e, rfl, hfront⟩ := h
  rw [List.append_assoc]
  exact Debt.not_reportsSettled_of_error howed (fun action haction => (hfront action haction).1) e

/-- What the token loop does with the logits it waits for. -/
theorem loopStep_logits (position : ℕ) (handlerState : H) (sender : NodeId)
    (tokenPosition : ℕ) (data : List UInt8) (vocabSize : ℕ) :
    let turn := generateToken initiator handler environment firstWorker handlerState position data
    loopStep initiator handler environment firstWorker maxTokens (.reading position handlerState)
        (.ok (sender, .logits initiator.sessionId tokenPosition data vocabSize)) =
      match turn.2 with
      | .next handlerState =>
          let entered := enterTurn initiator maxTokens (position + 1) handlerState
          (entered.1, turn.1 ++ entered.2)
      | .stop => (.finished, turn.1 ++ initiator.cleanup)
      | .panic => (.panicked, turn.1) :=
  if_pos rfl

/-- After logits with which the loop does not fail, it reads on or owes nothing. -/
theorem due_logits {position tokenPosition vocabSize : ℕ} {handlerState : H} {owed : Debt}
    {sender : NodeId} {sid : Uuid} {data : List UInt8}
    (hdue : Due initiator (.reading position handlerState) owed)
    (hgood : ¬ LoopBad initiator handler environment (.reading position handlerState)
      (.ok (sender, .logits sid tokenPosition data vocabSize))) :
    let after := loopStep initiator handler environment firstWorker maxTokens
      (.reading position handlerState) (.ok (sender, .logits sid tokenPosition data vocabSize))
    ReportsSettled initiator.charge Debt.isReport Debt.Nothing owed after.2 ∧
      Due initiator after.1 (owing initiator.charge owed after.2) := by
  by_cases hown : sid = initiator.sessionId
  · subst hown
    have hworks : ¬ TurnFails handler environment handlerState position data :=
      fun hfails => hgood ⟨rfl, hfails⟩
    rcases turn_spec initiator handler environment firstWorker handlerState position data with
      ⟨-, hsilent, hnopanic⟩ | ⟨hfails, -⟩ | ⟨hfails, -⟩
    · obtain ⟨hreports, howed⟩ := due_of_silent hsilent hdue
      rw [loopStep_logits]
      generalize (generateToken initiator handler environment firstWorker handlerState position
        data).2 = control at hnopanic ⊢
      cases control with
      | panic => exact absurd rfl hnopanic
      | stop =>
          dsimp only
          rw [reportsSettled_append, owing_append]
          exact ⟨⟨hreports, reportsSettled_cleanup _⟩, nothing_cleanup howed.2⟩
      | next next =>
          obtain ⟨hentered, hnext⟩ := due_enterTurn maxTokens (position + 1) next howed
          dsimp only
          rw [reportsSettled_append, owing_append]
          exact ⟨⟨hreports, hentered⟩, hnext⟩
    · exact absurd hfails hworks
    · exact absurd hfails hworks
  · rw [loopStep, if_neg hown]
    exact ⟨trivial, hdue⟩

/-- Logits with which the loop fails are reported before the cleanup, or the loop panics
without one. -/
theorem unsettled_logits {position tokenPosition vocabSize : ℕ} {handlerState : H} {owed : Debt}
    {sender : NodeId} {sid : Uuid} {data : List UInt8}
    (hdue : Due initiator (.reading position handlerState) owed)
    (hbad : LoopBad initiator handler environment (.reading position handlerState)
      (.ok (sender, .logits sid tokenPosition data vocabSize))) :
    let after := loopStep initiator handler environment firstWorker maxTokens
      (.reading position handlerState) (.ok (sender, .logits sid tokenPosition data vocabSize))
    ¬ ReportsSettled initiator.charge Debt.isReport Debt.Nothing owed after.2 ∨
      after.1 = .panicked ∧ ¬ (owing initiator.charge owed after.2).Nothing := by
  obtain ⟨rfl, hfails⟩ := hbad
  rcases turn_spec initiator handler environment firstWorker handlerState position data with
    ⟨hworks, -⟩ | ⟨-, hpanic, hsilent⟩ | ⟨-, hlast⟩
  · exact absurd hfails hworks
  · rw [loopStep_logits, hpanic]
    exact Or.inr ⟨rfl, fun hnothing => (due_of_silent hsilent hdue).2.1 hnothing.1⟩
  · rw [loopStep_logits]
    apply Or.inl
    cases (generateToken initiator handler environment firstWorker handlerState position data).2 with
    | panic =>
        have hreport := hlast.not_reportsSettled hdue.1 []
        rwa [List.append_nil] at hreport
    | stop => exact hlast.not_reportsSettled hdue.1 _
    | next next => exact hlast.not_reportsSettled hdue.1 _

/-- What the token loop owes, and the messages it fails on. -/
theorem accounts_loopStep :
    Accounts (loopStep initiator handler environment firstWorker maxTokens) initiator.charge
      Debt.isReport Debt.Nothing (fun state => state.kind = .waiting) (Due initiator)
      (LoopBad initiator handler environment) where
  rests := fun {state owed} hdue hover => by
    cases state with
    | reading => exact absurd rfl hover
    | finished => exact hdue
    | panicked => exact hdue.elim
  good := fun {state owed received} hdue hgood => by
    cases state with
    | finished => exact ⟨trivial, hdue⟩
    | panicked => exact hdue.elim
    | reading position handlerState =>
        cases received with
        | error e => exact absurd trivial hgood
        | ok envelope =>
            obtain ⟨sender, message⟩ := envelope
            cases message with
            | error sid text => exact absurd trivial hgood
            | logits sid tokenPosition data vocabSize => exact due_logits hdue hgood
            | _ => exact ⟨trivial, hdue⟩
  fails := fun {state owed received} hdue hbad => by
    cases state with
    | finished => exact hbad.elim
    | panicked => exact hbad.elim
    | reading position handlerState =>
        cases received with
        | error e =>
            exact Or.inl ((failsLast_error e).not_reportsSettled hdue.1 [])
        | ok envelope =>
            obtain ⟨sender, message⟩ := envelope
            cases message with
            | error sid text =>
                exact Or.inl ((failsLast_error (.pipeline text)).not_reportsSettled hdue.1
                  initiator.releaseActions)
            | logits sid tokenPosition data vocabSize =>
                apply (unsettled_logits hdue hbad).imp_right
                rintro ⟨hpanicked, howed⟩
                rw [hpanicked]
                exact ⟨ended_panicked, nofun, howed⟩
            | _ => exact hbad.elim

/-! ## The stream -/

variable (initiator handler environment maxTokens)

/-- A stream fails: its prompt cannot be embedded or sent, or the token loop fails on a
message. -/
def StreamFails (handlerState : H) (promptTokens : List ℕ)
    (received : List (Except MeshError Envelope)) : Prop :=
  (∃ e, (handler.forwardLayers handlerState (promptTokens.flatMap toLeBytes)
      [promptTokens.length, 1] 0 0).1 = .error e) ∨
    (∃ e, environment.sendResult 0 = .error e) ∨
    Meets (loopStep initiator handler environment initiator.firstPeer maxTokens)
      (LoopBad initiator handler environment)
      (beginStream initiator handler environment maxTokens handlerState promptTokens).1 received

variable {initiator handler environment maxTokens}

/-- A stream that owes assigned peers their release settles exactly if nothing fails. -/
theorem settled_streamRun_iff {owed : Debt}
    (howed : owed.peers ≠ [] ∧ ∀ peer ∈ owed.peers, peer ∈ initiator.planPeers)
    (handlerState : H) (promptTokens : List ℕ) (received : List (Except MeshError Envelope)) :
    Settled initiator.charge Debt.isReport Debt.Nothing (fun state => state.kind = .waiting) owed
        (streamRun initiator handler environment maxTokens handlerState promptTokens received) ↔
      ¬ StreamFails initiator handler environment maxTokens handlerState promptTokens received := by
  rw [streamRun, StreamFails, beginStream]
  cases hplan : initiator.plan.assignments with
  | nil =>
      obtain ⟨peer, hpeer⟩ := List.exists_mem_of_ne_nil _ howed.1
      have hmem := howed.2 peer hpeer
      rw [planPeers, hplan] at hmem
      cases hmem
  | cons first others =>
      dsimp only
      have hembed : ∀ action ∈ [StreamAction.forward (promptTokens.flatMap toLeBytes)
          [promptTokens.length, 1] 0 0], initiator.IsSilent action :=
        List.forall_mem_singleton.mpr (isSilent_forward _ _ _ _)
      cases (handler.forwardLayers handlerState (promptTokens.flatMap toLeBytes)
        [promptTokens.length, 1] 0 0).1 with
      | error e =>
          apply iff_of_false _ (not_not.mpr (Or.inl ⟨e, rfl⟩))
          intro hsettled
          exact ((failsLast_error _).append hembed).not_reportsSettled howed.1 _ hsettled.1
      | ok activation =>
          dsimp only
          have hsent : ∀ action ∈ [StreamAction.send first.peerId (initiator.activationMessage 0
              activation.1 activation.2.1 ((TensorDtype.fromU8 activation.2.2).getD .f32))],
              initiator.IsSilent action :=
            List.forall_mem_singleton.mpr (isSilent_activation _ _ _ _ _)
          have hfront := List.forall_mem_append.mpr ⟨hembed, hsent⟩
          cases environment.sendResult 0 with
          | error e =>
              apply iff_of_false _ (not_not.mpr (Or.inr (Or.inl ⟨e, rfl⟩)))
              intro hsettled
              exact ((failsLast_error e).append hfront).not_reportsSettled howed.1 _ hsettled.1
          | ok _ =>
              obtain ⟨hreports, hdue⟩ := due_of_silent hfront howed
              obtain ⟨hentered, hnext⟩ := due_enterTurn maxTokens 0
                (handler.forwardLayers handlerState (promptTokens.flatMap toLeBytes)
                  [promptTokens.length, 1] 0 0).2 hdue
              have hbegun := reportsSettled_append.mpr ⟨hreports, hentered⟩
              have haccounts : Accounts (loopStep initiator handler environment initiator.firstPeer
                  maxTokens) initiator.charge Debt.isReport Debt.Nothing
                  (fun state => state.kind = .waiting) (Due initiator)
                  (LoopBad initiator handler environment) := accounts_loopStep
              have hrun := settled_run_iff haccounts hnext received
              rw [← owing_append] at hrun
              simpa using (settled_append_iff hbegun).trans hrun

end PipelineInitiator

end HiveBear.Mesh
