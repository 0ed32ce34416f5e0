/-
# Setting up and streaming

A request sets the pipeline up and then streams from it. Setup fails if the transport
fails or a peer refuses while acknowledgements are still missing, and then it returns
without a release. Otherwise the stream starts on what is delivered after the last
acknowledgement that setup counts. So the request releases its session before it reports
its outcome exactly if neither fails once the first assignment has been sent.
-/

import HiveBear.Mesh.Pipeline.Release

namespace HiveBear.Mesh

open MessageMachine

namespace PipelineInitiator

variable {F H : Type*} (initiator : PipelineInitiator F) (handler : MeshPipelineHandler H)
  (environment : StreamEnvironment) (maxTokens : ℕ)

/-! ## What ends setup -/

/-- A peer refuses the session: it is not ready, or it reports an error for it. -/
def refuses (envelope : Envelope) : Bool :=
  match envelope.2 with
  | .assignLayersAck sessionId ready _ => sessionId == initiator.sessionId && !ready
  | .error sessionId _ => sessionId == some initiator.sessionId
  | _ => false

/-- The transport fails or a peer refuses the session. -/
def IsRefusal : Except MeshError Envelope → Prop
  | .error _ => True
  | .ok envelope => initiator.refuses envelope = true

/-- A ready acknowledgement of the session is delivered. -/
def isAck : Except MeshError Envelope → Bool
  | .error _ => false
  | .ok envelope => initiator.isReadyAck envelope

/-- A refusal is delivered while acknowledgements are missing. -/
def SetupRefused (acksReceived : ℕ) (delivered : List (Except MeshError Envelope)) : Prop :=
  ∃ front refusal back, delivered = front ++ refusal :: back ∧
    (∀ received ∈ front, ¬ initiator.IsRefusal received) ∧
    acksReceived + front.countP initiator.isAck < initiator.plan.peerCount ∧
    initiator.IsRefusal refusal

/-- What is delivered after so many ready acknowledgements. -/
def afterAcks : ℕ → List (Except MeshError Envelope) → List (Except MeshError Envelope)
  | 0, delivered => delivered
  | _ + 1, [] => []
  | missing + 1, received :: rest =>
      afterAcks (if initiator.isAck received then missing else missing + 1) rest

variable {initiator}

/-- Setup ends with an error on a message exactly if a peer refuses with it. -/
theorem setupReceive_error_iff (acks : ℕ) (envelope : Envelope) :
    (∃ e, initiator.setupReceive acks envelope = .error e) ↔
      initiator.refuses envelope = true := by
  obtain ⟨sender, message⟩ := envelope
  cases message with
  | assignLayersAck sessionId ready error =>
      simp only [setupReceive, refuses]
      split_ifs <;> simp_all
  | error sessionId message =>
      simp only [setupReceive, refuses]
      split_ifs <;> simp_all
  | _ => simp [setupReceive, refuses]

/-- Whether setup is refused is decided by the first message, or later. -/
theorem setupRefused_cons {acks : ℕ} (hlt : acks < initiator.plan.peerCount)
    (received : Except MeshError Envelope) (rest : List (Except MeshError Envelope)) :
    initiator.SetupRefused acks (received :: rest) ↔
      initiator.IsRefusal received ∨ ¬ initiator.IsRefusal received ∧
        initiator.SetupRefused (acks + if initiator.isAck received then 1 else 0) rest := by
  constructor
  · rintro ⟨front, refusal, back, hsplit, hfront, hcount, hrefusal⟩
    cases front with
    | nil =>
        cases hsplit
        exact Or.inl hrefusal
    | cons first front =>
        cases hsplit
        rw [List.forall_mem_cons] at hfront
        rw [List.countP_cons] at hcount
        exact Or.inr ⟨hfront.1, front, refusal, back, rfl, hfront.2, by omega, hrefusal⟩
  · rintro (hrefusal | ⟨haccepts, front, refusal, back, rfl, hfront, hcount, hrefusal⟩)
    · exact ⟨[], received, rest, rfl, (fun _ hmem => nomatch hmem), hlt, hrefusal⟩
    · refine ⟨received :: front, refusal, back, rfl, ?_, ?_, hrefusal⟩
      · exact List.forall_mem_cons.mpr ⟨haccepts, hfront⟩
      rw [List.countP_cons]
      omega

theorem not_setupRefused_of_le {acks : ℕ} (hle : initiator.plan.peerCount ≤ acks)
    (delivered : List (Except MeshError Envelope)) :
    ¬ initiator.SetupRefused acks delivered := by
  rintro ⟨front, refusal, back, -, -, hcount, -⟩
  omega

/-- The loop goes on with the next message if acknowledgements are missing and the message
is no refusal. -/
theorem ackLoop_cons_ok {acks : ℕ} (hlt : acks < initiator.plan.peerCount) {envelope : Envelope}
    (haccepts : ¬ initiator.IsRefusal (.ok envelope)) (rest : List (Except MeshError Envelope)) :
    initiator.ackLoop acks (.ok envelope :: rest) =
      let later := initiator.ackLoop
        (acks + if initiator.isAck (.ok envelope) then 1 else 0) rest
      (envelope :: later.1, later.2) := by
  rw [ackLoop.eq_def]
  dsimp only
  rw [if_pos hlt]
  cases hreceived : initiator.setupReceive acks envelope with
  | error e => exact absurd ((setupReceive_error_iff acks envelope).mp ⟨e, hreceived⟩) haccepts
  | ok counted =>
      dsimp only
      rw [setupReceive_eq_ok hreceived]
      rfl

theorem ackLoop_of_le {acks : ℕ} (hle : initiator.plan.peerCount ≤ acks)
    (delivered : List (Except MeshError Envelope)) :
    initiator.ackLoop acks delivered = ([], some (.ok ())) := by
  cases delivered with
  | nil => rw [ackLoop, if_neg (not_lt.mpr hle)]
  | cons received rest =>
      rw [ackLoop.eq_def]
      exact if_neg (not_lt.mpr hle)

/-- If setup is refused, the loop returns an error. -/
theorem ackLoop_of_refused {acks : ℕ} {delivered : List (Except MeshError Envelope)}
    (h : initiator.SetupRefused acks delivered) :
    ∃ e, (initiator.ackLoop acks delivered).2 = some (.error e) := by
  induction delivered generalizing acks with
  | nil =>
      obtain ⟨front, refusal, back, hsplit, -⟩ := h
      exact absurd hsplit.symm (by simp)
  | cons received rest ih =>
      have hlt : acks < initiator.plan.peerCount :=
        not_le.mp fun hle => not_setupRefused_of_le hle _ h
      by_cases hrefusal : initiator.IsRefusal received
      · cases received with
        | error e =>
            rw [ackLoop.eq_def]
            dsimp only
            rw [if_pos hlt]
            exact ⟨e, rfl⟩
        | ok envelope =>
            obtain ⟨e, he⟩ := (setupReceive_error_iff acks envelope).mpr hrefusal
            rw [ackLoop.eq_def]
            dsimp only
            rw [if_pos hlt, he]
            exact ⟨e, rfl⟩
      · rw [setupRefused_cons hlt, or_iff_right hrefusal] at h
        cases received with
        | error e => exact absurd trivial hrefusal
        | ok envelope =>
            rw [ackLoop_cons_ok hlt hrefusal]
            exact ih h.2

/-- If setup is not refused, the loop returns once enough acknowledgements have been
delivered, and leaves what comes after them. -/
theorem ackLoop_of_not_refused {acks : ℕ} {delivered : List (Except MeshError Envelope)}
    (h : ¬ initiator.SetupRefused acks delivered) :
    (initiator.ackLoop acks delivered).2 =
        (if initiator.plan.peerCount ≤ acks + delivered.countP initiator.isAck then
          some (.ok ()) else none) ∧
      delivered.drop (initiator.ackLoop acks delivered).1.length =
        initiator.afterAcks (initiator.plan.peerCount - acks) delivered := by
  induction delivered generalizing acks with
  | nil =>
      rw [ackLoop]
      constructor
      · rw [List.countP_nil, Nat.add_zero]
        split_ifs <;> first | rfl | omega
      · cases initiator.plan.peerCount - acks <;> rfl
  | cons received rest ih =>
      rcases le_or_gt initiator.plan.peerCount acks with hle | hlt
      · rw [ackLoop_of_le hle, Nat.sub_eq_zero_of_le hle, if_pos (by omega)]
        exact ⟨rfl, rfl⟩
      · rw [setupRefused_cons hlt, not_or, not_and] at h
        cases received with
        | error e => exact absurd trivial h.1
        | ok envelope =>
            obtain ⟨hresult, hrest⟩ := ih (h.2 h.1)
            obtain ⟨missing, hmissing⟩ : ∃ missing, initiator.plan.peerCount - acks = missing + 1 :=
              ⟨initiator.plan.peerCount - acks - 1, by omega⟩
            rw [ackLoop_cons_ok hlt h.1, List.countP_cons, hmissing, afterAcks]
            dsimp only
            rw [List.length_cons, List.drop_succ_cons, hresult, hrest]
            constructor
            · rw [Nat.add_assoc, Nat.add_comm (ite _ _ _)]
            · congr 1
              split <;> omega

/-! ## The assignments -/

/-- Either all messages are sent, or those before the first that cannot be. -/
theorem sendInOrder_spec (sendResult : ℕ → Except MeshError Unit) (i : ℕ)
    (messages : List Envelope) :
    ((∀ j < messages.length, sendResult (i + j) = .ok ()) ∧
        sendInOrder sendResult i messages = (messages, .ok ())) ∨
      ∃ k e, k < messages.length ∧ (∀ j < k, sendResult (i + j) = .ok ()) ∧
        sendResult (i + k) = .error e ∧
        sendInOrder sendResult i messages = (messages.take k, .error e) := by
  induction messages generalizing i with
  | nil => exact Or.inl ⟨fun j hj => absurd hj (Nat.not_lt_zero j), rfl⟩
  | cons message rest ih =>
      rw [sendInOrder]
      cases hsend : sendResult i with
      | error e =>
          exact Or.inr ⟨0, e, Nat.succ_pos _, fun j hj => absurd hj (Nat.not_lt_zero j), hsend, rfl⟩
      | ok _ =>
          have hfirst : ∀ {n}, (∀ j < n, sendResult (i + 1 + j) = .ok ()) →
              ∀ j < n + 1, sendResult (i + j) = .ok () := by
            intro n hrest j hj
            cases j with
            | zero => exact hsend
            | succ j =>
                have hnext := hrest j (Nat.lt_of_succ_lt_succ hj)
                rwa [Nat.add_right_comm] at hnext
          dsimp only
          rcases ih (i + 1) with ⟨hall, hsent⟩ | ⟨k, e, hk, hbefore, hfails, hsent⟩
          · rw [hsent]
            exact Or.inl ⟨hfirst hall, rfl⟩
          · rw [Nat.add_right_comm] at hfails
            rw [hsent]
            exact Or.inr ⟨k + 1, e, Nat.succ_lt_succ hk, hfirst hbefore, hfails, rfl⟩

/-- Every message of setup assigns layers to its peer. -/
theorem opens_setupMessages {modelSource : String} {envelope : Envelope}
    (h : envelope ∈ initiator.setupMessages modelSource) :
    envelope.2 ≠ .releaseSession initiator.sessionId ∧
      initiator.opens envelope.1 envelope.2 = [envelope.1] := by
  obtain ⟨i, hi, rfl⟩ := List.mem_mapIdx.mp h
  exact ⟨nofun, if_pos rfl⟩

/-- Sent assignments engage their peers. -/
theorem owing_assignments {assigned : List Envelope} (owed : Debt)
    (h : ∀ envelope ∈ assigned, envelope.2 ≠ .releaseSession initiator.sessionId ∧
      initiator.opens envelope.1 envelope.2 = [envelope.1]) :
    owing initiator.charge owed (assigned.map fun e => .send e.1 e.2) =
      { owed with peers := (assigned.map Prod.fst).reverse ++ owed.peers } := by
  induction assigned generalizing owed with
  | nil => rfl
  | cons envelope rest ih =>
      rw [List.forall_mem_cons] at h
      rw [List.map_cons, owing, List.foldl_cons, ← owing, ih _ h.2, charge, Debt.charge,
        if_neg h.1.1, h.1.2]
      simp

/-- Behind its assignments a request has to settle what their peers are owed. -/
theorem settled_assigned_iff {assigned : List Envelope} (owed : Debt)
    (h : ∀ envelope ∈ assigned, envelope.2 ≠ .releaseSession initiator.sessionId ∧
      initiator.opens envelope.1 envelope.2 = [envelope.1])
    (stands : StreamEnd) (trace : List StreamAction) :
    owed.Released initiator.sessionId initiator.opens
        (stands, (assigned.map fun e => .send e.1 e.2) ++ trace) ↔
      Debt.Released initiator.sessionId initiator.opens
        ⟨(assigned.map Prod.fst).reverse ++ owed.peers, owed.checkpoints⟩ (stands, trace) := by
  have hreports : ReportsSettled initiator.charge Debt.isReport Debt.Nothing owed
      (assigned.map fun e => .send e.1 e.2) := by
    apply reportsSettled_of_no_report
    intro action haction
    obtain ⟨e, -, rfl⟩ := List.mem_map.mp haction
    rfl
  rw [← owing_assignments owed h, Debt.Released, Debt.Released, ← settled_append_iff hreports]

/-- A request that returns behind its assignments settles if it has engaged nobody. -/
theorem settled_returned_iff {assigned : List Envelope}
    (h : ∀ envelope ∈ assigned, envelope.2 ≠ .releaseSession initiator.sessionId ∧
      initiator.opens envelope.1 envelope.2 = [envelope.1]) :
    Debt.start.Released initiator.sessionId initiator.opens
        (.finished, assigned.map fun e => .send e.1 e.2) ↔ assigned = [] := by
  have hassigned := settled_assigned_iff .start h .finished []
  rw [List.append_nil] at hassigned
  rw [hassigned]
  simp [Debt.Released, Settled, ReportsSettled, owing, Debt.Nothing, Debt.start]

/-- Setup sends one message to each peer of the plan, in order. -/
theorem map_fst_setupMessages (modelSource : String) :
    (initiator.setupMessages modelSource).map Prod.fst = initiator.planPeers := by
  apply List.ext_getElem
  · simp [setupMessages, planPeers]
  · intro i _ _
    simp [setupMessages, planPeers]

theorem planPeers_ne_nil (h : 0 < initiator.plan.peerCount) : initiator.planPeers ≠ [] := by
  rw [← List.length_pos_iff, planPeers, List.length_map]
  exact h

/-! ## The operation -/

variable {handler environment maxTokens} in
/-- A plan that assigns nothing engages nobody. -/
theorem settled_streamRun_of_nil (hplan : initiator.plan.assignments = []) (handlerState : H)
    (promptTokens : List ℕ) (received : List (Except MeshError Envelope)) :
    Settled initiator.charge Debt.isReport Debt.Nothing (fun state => state.kind = .waiting) .start
      (streamRun initiator handler environment maxTokens handlerState promptTokens received) := by
  rw [streamRun, beginStream, hplan]
  dsimp only
  rw [run_of_ended ended_finished]
  exact ⟨⟨fun _ => ⟨rfl, rfl⟩, trivial⟩, fun _ => ⟨rfl, rfl⟩⟩

variable (initiator)

/-- A request: how it stands after what is delivered, and what it has done. `assignResult i`
says whether the `i`-th assignment can be sent. -/
def operation (modelSource : String) (assignResult : ℕ → Except MeshError Unit)
    (handlerState : H) (promptTokens : List ℕ) (delivered : List (Except MeshError Envelope)) :
    StreamEnd × List StreamAction :=
  let ready := initiator.setup modelSource assignResult delivered
  let assigned := ready.sent.map fun e => StreamAction.send e.1 e.2
  match ready.result with
  | none => (.waiting, assigned)
  | some (.error _) => (.finished, assigned)
  | some (.ok _) =>
      let streamed := streamRun initiator handler environment maxTokens handlerState promptTokens
        (delivered.drop ready.received.length)
      (streamed.1.kind, assigned ++ streamed.2)

/-- Once an assignment has been sent, another cannot be, setup is refused, or the stream
fails. -/
def OperationFails (assignResult : ℕ → Except MeshError Unit) (handlerState : H)
    (promptTokens : List ℕ) (delivered : List (Except MeshError Envelope)) : Prop :=
  (∃ i e, 0 < i ∧ i < initiator.plan.peerCount ∧ (∀ j < i, assignResult j = .ok ()) ∧
      assignResult i = .error e) ∨
    (∀ i < initiator.plan.peerCount, assignResult i = .ok ()) ∧
      (initiator.SetupRefused 0 delivered ∨
        0 < initiator.plan.peerCount ∧
          initiator.plan.peerCount ≤ delivered.countP initiator.isAck ∧
          StreamFails initiator handler environment maxTokens handlerState promptTokens
            (initiator.afterAcks initiator.plan.peerCount delivered))

variable {initiator}

theorem length_setupMessages (modelSource : String) :
    (initiator.setupMessages modelSource).length = initiator.plan.peerCount := by
  rw [setupMessages, List.length_mapIdx]
  rfl

/-- With all assignments sent, the session is released exactly if setup is not refused and
the stream, if it begins, does not fail. -/
theorem released_of_sent (modelSource : String) {assignResult : ℕ → Except MeshError Unit}
    (hsent : sendInOrder assignResult 0 (initiator.setupMessages modelSource) =
      (initiator.setupMessages modelSource, .ok ()))
    (handlerState : H) (promptTokens : List ℕ) (delivered : List (Except MeshError Envelope)) :
    Debt.start.Released initiator.sessionId initiator.opens
        (initiator.operation handler environment maxTokens modelSource assignResult handlerState
          promptTokens delivered) ↔
      ¬ (initiator.SetupRefused 0 delivered ∨
        0 < initiator.plan.peerCount ∧
          initiator.plan.peerCount ≤ delivered.countP initiator.isAck ∧
          StreamFails initiator handler environment maxTokens handlerState promptTokens
            (initiator.afterAcks initiator.plan.peerCount delivered)) := by
  have hopens : ∀ envelope ∈ initiator.setupMessages modelSource,
      envelope.2 ≠ .releaseSession initiator.sessionId ∧
        initiator.opens envelope.1 envelope.2 = [envelope.1] :=
    fun envelope hmem => opens_setupMessages hmem
  rw [operation, setup, hsent]
  dsimp only
  by_cases hrefused : initiator.SetupRefused 0 delivered
  · -- the assigned peers are never released
    obtain ⟨e, he⟩ := ackLoop_of_refused hrefused
    rw [he]
    dsimp only
    rw [settled_returned_iff hopens, ← List.length_eq_zero_iff, length_setupMessages]
    obtain ⟨front, refusal, back, -, -, hcount, -⟩ := id hrefused
    exact iff_of_false (by omega) (not_not.mpr (Or.inl hrefused))
  · obtain ⟨hresult, hrest⟩ := ackLoop_of_not_refused hrefused
    rw [Nat.zero_add] at hresult
    rw [hresult, or_iff_right hrefused]
    split_ifs with hacks
    · dsimp only
      rw [hrest, Nat.sub_zero, and_iff_right hacks]
      apply (settled_assigned_iff _ hopens _ _).trans
      rw [map_fst_setupMessages]
      rcases Nat.eq_zero_or_pos initiator.plan.peerCount with hzero | hpos
      · have hplan : initiator.plan.assignments = [] := List.length_eq_zero_iff.mp hzero
        rw [planPeers, hplan]
        exact iff_of_true (settled_streamRun_of_nil hplan handlerState promptTokens _)
          fun hfails => by omega
      · rw [and_iff_right hpos]
        apply settled_streamRun_iff
        simpa [Debt.start] using planPeers_ne_nil hpos
    · -- setup still waits
      have hwaits := (settled_assigned_iff .start hopens .waiting []).mpr
        ⟨trivial, fun hover => absurd rfl hover⟩
      rw [List.append_nil] at hwaits
      exact iff_of_true hwaits fun hfails => hacks hfails.2.1

/-- If an assignment cannot be sent, those sent before it are never released. -/
theorem released_of_unsent (modelSource : String) {assignResult : ℕ → Except MeshError Unit}
    {k : ℕ} {e : MeshError} (hk : k < initiator.plan.peerCount)
    (hsent : sendInOrder assignResult 0 (initiator.setupMessages modelSource) =
      ((initiator.setupMessages modelSource).take k, .error e))
    (handlerState : H) (promptTokens : List ℕ) (delivered : List (Except MeshError Envelope)) :
    Debt.start.Released initiator.sessionId initiator.opens
        (initiator.operation handler environment maxTokens modelSource assignResult handlerState
          promptTokens delivered) ↔ k = 0 := by
  have hne : initiator.setupMessages modelSource ≠ [] := by
    rw [← List.length_pos_iff, length_setupMessages]
    omega
  rw [operation, setup, hsent]
  dsimp only
  rw [settled_returned_iff fun envelope hmem => opens_setupMessages (List.mem_of_mem_take hmem),
    List.take_eq_nil_iff, or_iff_left hne]

/-- **When a pipeline session is released.** -/
theorem settled_operation_iff (modelSource : String) (assignResult : ℕ → Except MeshError Unit)
    (handlerState : H) (promptTokens : List ℕ) (delivered : List (Except MeshError Envelope)) :
    Debt.start.Released initiator.sessionId initiator.opens
        (initiator.operation handler environment maxTokens modelSource assignResult handlerState
          promptTokens delivered) ↔
      ¬ OperationFails initiator handler environment maxTokens assignResult handlerState
        promptTokens delivered := by
  rw [OperationFails]
  rcases sendInOrder_spec assignResult 0 (initiator.setupMessages modelSource) with
    ⟨hall, hsent⟩ | ⟨k, e, hk, hbefore, hfails, hsent⟩
  · simp only [Nat.zero_add, length_setupMessages] at hall
    have hnone : ¬ ∃ i e, 0 < i ∧ i < initiator.plan.peerCount ∧
        (∀ j < i, assignResult j = .ok ()) ∧ assignResult i = .error e := by
      rintro ⟨i, e, -, hi, -, hfails⟩
      rw [hall i hi] at hfails
      cases hfails
    rw [or_iff_right hnone, and_iff_right hall]
    exact released_of_sent handler environment maxTokens modelSource hsent handlerState promptTokens
      delivered
  · rw [length_setupMessages] at hk
    simp only [Nat.zero_add] at hbefore hfails
    rw [released_of_unsent handler environment maxTokens modelSource hk hsent]
    constructor
    · rintro rfl (⟨i, e', hpos, -, hsends, -⟩ | ⟨hall, -⟩)
      · rw [hsends 0 hpos] at hfails
        cases hfails
      · rw [hall 0 hk] at hfails
        cases hfails
    · intro hworks
      by_contra hpos
      exact hworks (Or.inl ⟨k, e, Nat.pos_of_ne_zero hpos, hk, hbefore, hfails⟩)

end PipelineInitiator

end HiveBear.Mesh
