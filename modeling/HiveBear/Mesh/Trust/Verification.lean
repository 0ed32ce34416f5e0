/-
# Verification of a layer

A verifier challenges a peer to answer for a layer, and draws its verdict from the next
message that the transport hands it. A worker answers with a hash of the challenge and of its
assignment, and says of itself that it passed.

The verifier does not look at the hash, and it takes whatever message comes next. So the
verdict means something exactly if the peer's own answer comes first and does not claim more
than it shows; any other message that comes first is lost, and counts against the peer.
-/

import HiveBear.Mesh.Pipeline.Worker

namespace HiveBear.Mesh

/-- The verifier. The hash function is a parameter. -/
structure TrustVerifier where
  hashBytes : List UInt8 → List UInt8

/-- A verification as far as it came: what was sent, the verdict if there is one, and what
the transport still has to hand out. -/
structure Verification where
  sends : List Envelope
  verdict : Option (Except MeshError Bool)
  remaining : List (Except MeshError Envelope)

/-- What a message says about the peer. -/
def verdictOf (peer : NodeId) (sessionId : Uuid) : Envelope → Bool
  | (respPeer, .verifyResponse sid _ passed) =>
      if sid = sessionId ∧ respPeer = peer then passed else false
  | _ => false

namespace TrustVerifier

variable (verifier : TrustVerifier) (peer : NodeId) (sessionId : Uuid) (layerIndex : ℕ)
  (expectedInput : List UInt8)

/-- The challenge for a layer. -/
def challenge : MeshMessage :=
  .verifyChallenge sessionId layerIndex (verifier.hashBytes expectedInput)

/-- Send a verification challenge to a peer and check the response. `sent` is how sending
went, and `received` what the transport hands out from then on. -/
def verifyLayer (sent : Except MeshError Unit) (received : List (Except MeshError Envelope)) :
    Verification :=
  let sends := [(peer, verifier.challenge sessionId layerIndex expectedInput)]
  match sent, received with
  | .error e, received => ⟨sends, some (.error e), received⟩
  | .ok _, [] => ⟨sends, none, []⟩
  | .ok _, .error e :: rest => ⟨sends, some (.error e), rest⟩
  | .ok _, .ok message :: rest => ⟨sends, some (.ok (verdictOf peer sessionId message)), rest⟩

end TrustVerifier

/-- The message is from another peer, or not for the session. -/
def Foreign (peer : NodeId) (sessionId : Uuid) (message : Envelope) : Prop :=
  message.1 ≠ peer ∨ message.2.session ≠ some sessionId

section Verdict

variable {H : Type*} (verifier : TrustVerifier) (worker : PipelineWorker H)
  (assigned : WorkerState H) (peer : NodeId) (sessionId : Uuid) (layerIndex : ℕ)
  (expectedInput : List UInt8)

/-- The hash that the worker's rule yields for the challenge, under its assignment. -/
def expectedOutput : List UInt8 :=
  worker.verificationHash assigned sessionId layerIndex (verifier.hashBytes expectedInput)

/-- A verdict means what it says: passed only for an answer of the peer with the right hash,
failed only for an answer of the peer, and messages that are not the peer's answer neither
count nor get lost. -/
structure VerdictSound (sent : Except MeshError Unit)
    (received : List (Except MeshError Envelope)) : Prop where
  passed : (verifier.verifyLayer peer sessionId layerIndex expectedInput sent received).verdict =
      some (.ok true) →
    ∃ taken claimed, received = taken ++
        (verifier.verifyLayer peer sessionId layerIndex expectedInput sent received).remaining ∧
      .ok (peer, .verifyResponse sessionId
        (expectedOutput verifier worker assigned sessionId layerIndex expectedInput) claimed) ∈
        taken
  failed : (verifier.verifyLayer peer sessionId layerIndex expectedInput sent received).verdict =
      some (.ok false) →
    ∃ taken outputHash claimed, received = taken ++
        (verifier.verifyLayer peer sessionId layerIndex expectedInput sent received).remaining ∧
      .ok (peer, .verifyResponse sessionId outputHash claimed) ∈ taken
  undisturbed : ∀ message rest, received = .ok message :: rest → Foreign peer sessionId message →
    (verifier.verifyLayer peer sessionId layerIndex expectedInput sent received).verdict =
        (verifier.verifyLayer peer sessionId layerIndex expectedInput sent rest).verdict ∧
      (verifier.verifyLayer peer sessionId layerIndex expectedInput sent received).remaining =
        .ok message ::
          (verifier.verifyLayer peer sessionId layerIndex expectedInput sent rest).remaining

/-- The message is the peer's answer, and claims to have passed with the right hash only. -/
def HonestAnswer (message : Envelope) : Prop :=
  ∃ outputHash claimed, message = (peer, .verifyResponse sessionId outputHash claimed) ∧
    (claimed = true →
      outputHash = expectedOutput verifier worker assigned sessionId layerIndex expectedInput)

variable {peer sessionId}

theorem verdictOf_answer (outputHash : List UInt8) (claimed : Bool) :
    verdictOf peer sessionId (peer, .verifyResponse sessionId outputHash claimed) = claimed :=
  if_pos ⟨rfl, rfl⟩

/-- Only the peer's own answer lets it pass. -/
theorem eq_answer_of_verdictOf {message : Envelope} (h : verdictOf peer sessionId message = true) :
    ∃ outputHash, message = (peer, .verifyResponse sessionId outputHash true) := by
  unfold verdictOf at h
  split at h
  · rename_i respPeer sid outputHash claimed
    split_ifs at h with hmine
    obtain ⟨rfl, rfl⟩ := hmine
    exact ⟨outputHash, by rw [h]⟩
  · cases h

/-- The peer's answer is not foreign. -/
theorem not_foreign_answer (outputHash : List UInt8) (claimed : Bool) :
    ¬ Foreign peer sessionId (peer, .verifyResponse sessionId outputHash claimed) := by
  rintro (hpeer | hsession)
  · exact hpeer rfl
  · exact hsession rfl

/-- Of messages one of which is taken, that is the first. -/
theorem eq_of_mem_taken {A : Type*} {first other : A} {rest taken : List A}
    (h : first :: rest = taken ++ rest) (hother : other ∈ taken) : other = first := by
  obtain rfl : [first] = taken := List.append_cancel_right h
  exact List.mem_singleton.mp hother

variable (peer sessionId)

/-- The verdict on the first message. -/
theorem verdict_cons (message : Envelope) (rest : List (Except MeshError Envelope)) :
    (verifier.verifyLayer peer sessionId layerIndex expectedInput (.ok ())
      (.ok message :: rest)).verdict = some (.ok (verdictOf peer sessionId message)) := rfl

variable {verifier worker assigned peer sessionId layerIndex expectedInput} in
/-- A verification without a verdict says nothing. -/
theorem verdictSound_of_none {sent : Except MeshError Unit}
    {received : List (Except MeshError Envelope)}
    (hnone : ∀ passed, (verifier.verifyLayer peer sessionId layerIndex expectedInput sent
      received).verdict ≠ some (.ok passed))
    (hfirst : ∀ message rest, sent = .ok () → received ≠ .ok message :: rest) :
    VerdictSound verifier worker assigned peer sessionId layerIndex expectedInput sent
      received where
  passed h := absurd h (hnone true)
  failed h := absurd h (hnone false)
  undisturbed message rest hreceived _ := by
    cases sent with
    | ok done => exact absurd hreceived (hfirst message rest rfl)
    | error e => exact ⟨rfl, hreceived⟩

variable {verifier worker assigned peer sessionId layerIndex expectedInput} in
/-- A verdict on the peer's honest answer is sound. -/
theorem HonestAnswer.verdictSound {message : Envelope}
    (h : HonestAnswer verifier worker assigned peer sessionId layerIndex expectedInput message)
    (rest : List (Except MeshError Envelope)) :
    VerdictSound verifier worker assigned peer sessionId layerIndex expectedInput (.ok ())
      (.ok message :: rest) := by
  obtain ⟨outputHash, claimed, rfl, hclaimed⟩ := h
  refine ⟨?_, ?_, ?_⟩
  · intro hpassed
    rw [verdict_cons, verdictOf_answer] at hpassed
    rw [← hclaimed (Except.ok.inj (Option.some.inj hpassed))]
    exact ⟨[_], claimed, rfl, List.mem_singleton.mpr rfl⟩
  · intro _
    exact ⟨[_], outputHash, claimed, rfl, List.mem_singleton.mpr rfl⟩
  · intro message later hfirst hforeign
    obtain ⟨hmessage, -⟩ := List.cons.inj hfirst
    obtain rfl := Except.ok.inj hmessage
    exact absurd hforeign (not_foreign_answer outputHash claimed)

/-- **A verdict means what it says if and only if the peer's honest answer comes first.** -/
theorem verdict_sound_iff (sent : Except MeshError Unit)
    (received : List (Except MeshError Envelope)) :
    VerdictSound verifier worker assigned peer sessionId layerIndex expectedInput sent received ↔
      (sent = .ok () → ∀ message rest, received = .ok message :: rest →
        HonestAnswer verifier worker assigned peer sessionId layerIndex expectedInput message) := by
  constructor
  · rintro hsound rfl message rest rfl
    have hverdict := verdict_cons verifier peer sessionId layerIndex expectedInput message rest
    cases hpassed : verdictOf peer sessionId message with
    | true =>
        obtain ⟨outputHash, rfl⟩ := eq_answer_of_verdictOf hpassed
        rw [hpassed] at hverdict
        obtain ⟨taken, claimed, htaken, hanswer⟩ := hsound.passed hverdict
        have hright := Except.ok.inj (eq_of_mem_taken htaken hanswer)
        cases hright
        exact ⟨_, true, rfl, fun _ => rfl⟩
    | false =>
        rw [hpassed] at hverdict
        obtain ⟨taken, outputHash, claimed, htaken, hanswer⟩ := hsound.failed hverdict
        obtain rfl := Except.ok.inj (eq_of_mem_taken htaken hanswer)
        rw [verdictOf_answer] at hpassed
        subst hpassed
        exact ⟨outputHash, false, rfl, fun hclaimed => absurd hclaimed Bool.false_ne_true⟩
  · intro hhonest
    cases sent with
    | error e => exact verdictSound_of_none nofun nofun
    | ok done =>
        cases received with
        | nil => exact verdictSound_of_none nofun nofun
        | cons first rest =>
            cases first with
            | error e => exact verdictSound_of_none nofun nofun
            | ok message => exact (hhonest rfl message rest rfl).verdictSound rest

/-- The answer of a worker that follows the rule is honest, and passes. -/
theorem verdict_of_worker (verifierId : NodeId) (rest : List (Except MeshError Envelope)) :
    ∃ answer,
      (worker.handle assigned verifierId
        (verifier.challenge sessionId layerIndex expectedInput)).sends = [(verifierId, answer)] ∧
      HonestAnswer verifier worker assigned peer sessionId layerIndex expectedInput
        (peer, answer) ∧
      (verifier.verifyLayer peer sessionId layerIndex expectedInput (.ok ())
        (.ok (peer, answer) :: rest)).verdict = some (.ok true) := by
  refine ⟨_, rfl, ⟨_, true, rfl, fun _ => rfl⟩, ?_⟩
  rw [verdict_cons, verdictOf_answer]

end Verdict

/-! ## Two messages that are taken for answers -/

/-- The digests of the empty input and of the challenge below. -/
def digests (bytes : List UInt8) : List UInt8 :=
  if bytes = [] then
    [227, 176, 196, 66, 152, 252, 28, 20, 154, 251, 244, 200, 153, 111, 185, 36, 39, 174, 65, 228,
      100, 155, 147, 76, 164, 149, 153, 27, 120, 82, 184, 85]
  else
    [125, 30, 83, 47, 35, 54, 220, 167, 128, 185, 77, 246, 89, 115, 18, 22, 85, 163, 55, 81, 101,
      155, 170, 224, 253, 62, 114, 113, 6, 16, 26, 79]

/-- A worker that holds sixteen layers of a model. -/
def holder : WorkerState Unit where
  handler := ()
  sessions := Function.update (fun _ => none) 1
    (some ⟨1, "m", ⟨0, 16⟩, 32, "m", none, NodeId.ofByte 9⟩)

/-- A peer passes with zeros for a hash, and fails when another peer's ping comes first. -/
theorem verdict_on_anything :
    ¬ VerdictSound ⟨digests⟩ ⟨NodeId.ofByte 1, none, digests⟩ holder (NodeId.ofByte 1) 1 3 []
        (.ok ()) [.ok (NodeId.ofByte 1, .verifyResponse 1 (List.replicate 32 0) true)] ∧
      ¬ VerdictSound ⟨digests⟩ ⟨NodeId.ofByte 1, none, digests⟩ holder (NodeId.ofByte 1) 1 3 []
        (.ok ()) [.ok (NodeId.ofByte 2, .ping 0)] := by
  constructor
  · intro hsound
    obtain ⟨taken, claimed, htaken, hanswer⟩ := hsound.passed rfl
    have hhash := Except.ok.inj (eq_of_mem_taken htaken hanswer)
    simp only [Prod.mk.injEq, MeshMessage.verifyResponse.injEq, true_and] at hhash
    exact absurd hhash.1 (by decide)
  · intro hsound
    obtain ⟨taken, outputHash, claimed, htaken, hanswer⟩ := hsound.failed rfl
    have hmessage := Except.ok.inj (eq_of_mem_taken htaken hanswer)
    cases hmessage

end HiveBear.Mesh
