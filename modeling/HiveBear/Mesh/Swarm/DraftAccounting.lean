/-
# The accounts of a speculative session

A session asks its drafter for no more tokens than it may still hand out, but it takes as many as the
drafter sends and the verifier accepts, and a correction on top. The context it drafts from and the
progress of its rounds are right in any case; the number of tokens is just as long as no round
hands out more than is left.
-/

import HiveBear.Library.Run
import HiveBear.Mesh.Pipeline.LoopSafety
import HiveBear.Mesh.Swarm.Speculative

namespace HiveBear.Mesh

open LabelledRun MessageMachine

namespace SpeculativeState

/-- The context that the next draft is made from. -/
def context : SpeculativeState → Option (List ℕ)
  | .drafting _ contextTokens => some contextTokens
  | .verifying _ contextTokens _ => some contextTokens
  | .finished => none

/-- The session is still in the same round. -/
def GoesOn : SpeculativeState → SpeculativeState → Prop
  | .drafting n context, .drafting n' context' => n = n' ∧ context = context'
  | .drafting n context, .verifying n' context' _ => n = n' ∧ context = context'
  | .verifying n context draft, .verifying n' context' draft' =>
      n = n' ∧ context = context' ∧ draft = draft'
  | _, _ => False

end SpeculativeState

namespace SpeculativeSession

variable (session : SpeculativeSession) (environment : SpeculativeEnvironment)
  (draftModelId : String) (maxTokens : ℕ)

/-- The state of the decoding loop behind these messages, and what it has done. -/
def sessionRun (promptTokens : List ℕ) (received : List (Except MeshError Envelope)) :
    SpeculativeState × List StreamAction :=
  let begun := startRound session environment draftModelId maxTokens 0 promptTokens
  let later := run (step session environment draftModelId maxTokens) begun.1 received
  (later.1, begun.2 ++ later.2)

theorem streamTokens_eq_sessionRun (promptTokens : List ℕ)
    (received : List (Except MeshError Envelope)) :
    let ran := sessionRun session environment draftModelId maxTokens promptTokens received
    streamTokens session environment draftModelId maxTokens promptTokens received =
      (ran.1.kind, ran.2) := rfl

/-- No more tokens than asked for, and drafts from the prompt and the tokens handed out. -/
structure Balanced (promptTokens : List ℕ) (ran : SpeculativeState × List StreamAction) :
    Prop where
  bounded : (emittedTokens ran.2).length ≤ maxTokens
  context : ∀ contextTokens, ran.1.context = some contextTokens →
    contextTokens = promptTokens ++ (emittedTokens ran.2).map Token.id

/-- The round goes on, or it ends with a token handed out or with the session. -/
def Progresses (state : SpeculativeState) (delivered : Except MeshError Envelope) : Prop :=
  let after := step session environment draftModelId maxTokens state delivered
  state.GoesOn after.1 ∨ emittedTokens after.2 ≠ [] ∨ after.1 = .finished

/-- The accounts of a session are right, whatever is delivered to it. -/
structure AccountsRight (promptTokens : List ℕ) (received : List (Except MeshError Envelope)) :
    Prop where
  balanced : ∀ before, before <+: received → Balanced maxTokens promptTokens
    (sessionRun session environment draftModelId maxTokens promptTokens before)
  progresses : ∀ before delivered, before ++ [delivered] <+: received →
    (sessionRun session environment draftModelId maxTokens promptTokens before).1 ≠ .finished →
      Progresses session environment draftModelId maxTokens
        (sessionRun session environment draftModelId maxTokens promptTokens before).1 delivered

/-- A verification accepts no more tokens than are left, its correction included, or the consumer
is gone before they are exceeded. -/
def WithinLimit (state : SpeculativeState) (delivered : Except MeshError Envelope) : Prop :=
  ∀ totalGenerated contextTokens draftTokens sender acceptedCount correctionToken,
    state = .verifying totalGenerated contextTokens draftTokens →
    delivered = .ok (sender, .verifyDraft session.sessionId acceptedCount correctionToken) →
    let count := (draftTokens.take acceptedCount ++ correctionToken.toList).length
    totalGenerated + count ≤ maxTokens ∨
      ∃ i < count, totalGenerated + i ≤ maxTokens ∧
        environment.listening (totalGenerated + i) = false

variable {session environment draftModelId maxTokens}

/-! ## What is emitted -/

/-- All tokens are handed out unless the consumer is gone. -/
theorem map_id_emittedTokens_emit {totalGenerated : ℕ} {tokens : List ℕ}
    (h : (emit environment totalGenerated tokens).2 = true) :
    (emittedTokens (emit environment totalGenerated tokens).1).map Token.id = tokens := by
  induction tokens generalizing totalGenerated with
  | nil => rfl
  | cons tokenId rest ih =>
      rw [emit] at h ⊢
      split at h
      · rename_i hlistening
        rw [if_pos hlistening]
        exact congrArg (List.cons tokenId) (ih h)
      · cases h

/-- How many tokens are handed out of a list. -/
theorem length_emittedTokens_emit_le_iff (totalGenerated limit : ℕ) (tokens : List ℕ) :
    (emittedTokens (emit environment totalGenerated tokens).1).length ≤ limit ↔
      tokens.length ≤ limit ∨
        ∃ i < tokens.length, i ≤ limit ∧ environment.listening (totalGenerated + i) = false := by
  induction tokens generalizing totalGenerated limit with
  | nil => simp [emit, emittedTokens]
  | cons tokenId rest ih =>
      rw [emit]
      cases hfirst : environment.listening totalGenerated with
      | false =>
          apply iff_of_true (Nat.zero_le _)
          exact Or.inr ⟨0, Nat.succ_pos _, Nat.zero_le _, hfirst⟩
      | true =>
          have hone : (emittedTokens (StreamAction.yield (.ok (token tokenId)) ::
              (emit environment (totalGenerated + 1) rest).1)).length =
                (emittedTokens (emit environment (totalGenerated + 1) rest).1).length + 1 := rfl
          rw [if_pos rfl, hone, List.length_cons]
          cases limit with
          | zero =>
              apply iff_of_false (Nat.not_succ_le_zero _)
              rintro (hle | ⟨i, -, hi, hgone⟩)
              · exact Nat.not_succ_le_zero _ hle
              · rw [Nat.le_zero.mp hi, Nat.add_zero, hfirst] at hgone
                cases hgone
          | succ limit =>
              rw [Nat.add_le_add_iff_right, ih, Nat.add_le_add_iff_right]
              refine or_congr Iff.rfl ⟨?_, ?_⟩
              · rintro ⟨i, hi, hle, hgone⟩
                rw [Nat.add_right_comm] at hgone
                exact ⟨i + 1, Nat.succ_lt_succ hi, Nat.succ_le_succ hle, hgone⟩
              · rintro ⟨i, hi, hle, hgone⟩
                cases i with
                | zero =>
                    rw [Nat.add_zero, hfirst] at hgone
                    cases hgone
                | succ i =>
                    rw [← Nat.add_assoc, Nat.add_right_comm] at hgone
                    exact ⟨i, Nat.lt_of_succ_lt_succ hi, Nat.le_of_succ_le_succ hle, hgone⟩

/-- Starting a round hands out no token. -/
theorem emittedTokens_startRound (totalGenerated : ℕ) (contextTokens : List ℕ) :
    emittedTokens (startRound session environment draftModelId maxTokens totalGenerated
      contextTokens).2 = [] := by
  rw [startRound]
  split
  · split <;> rfl
  · rfl

/-! ## What a message does -/

/-- Any message but the verification the session waits for hands out nothing, and ends the session,
changes nothing, or is the draft of this round. -/
theorem step_cases (state : SpeculativeState) (delivered : Except MeshError Envelope) :
    (∃ totalGenerated contextTokens draftTokens sender acceptedCount correctionToken,
      state = .verifying totalGenerated contextTokens draftTokens ∧
        delivered =
          .ok (sender, .verifyDraft session.sessionId acceptedCount correctionToken)) ∨
    ((∀ totalGenerated contextTokens draftTokens sender acceptedCount correctionToken,
      state = .verifying totalGenerated contextTokens draftTokens →
        delivered ≠
          .ok (sender, .verifyDraft session.sessionId acceptedCount correctionToken)) ∧
      let after := step session environment draftModelId maxTokens state delivered
      emittedTokens after.2 = [] ∧
      (after.1 = .finished ∨ after.1 = state ∨
        ∃ totalGenerated contextTokens tokens, state = .drafting totalGenerated contextTokens ∧
          after.1 = .verifying totalGenerated contextTokens tokens ∧ tokens ≠ [])) := by
  cases state with
  | finished => exact Or.inr ⟨by simp, rfl, Or.inl rfl⟩
  | drafting totalGenerated contextTokens =>
      refine Or.inr ⟨by simp, ?_⟩
      cases delivered with
      | error e => exact ⟨rfl, Or.inl rfl⟩
      | ok envelope =>
          obtain ⟨sender, message⟩ := envelope
          cases message with
          | draftTokens sid tokens modelId =>
              by_cases hown : sid = session.sessionId
              · subst hown
                rw [step_draftTokens]
                dsimp only
                split
                · exact ⟨rfl, Or.inl rfl⟩
                rename_i hsome
                split
                · exact ⟨rfl, Or.inl rfl⟩
                · exact ⟨rfl, Or.inr (Or.inr ⟨_, _, tokens, rfl, rfl, by simpa using hsome⟩)⟩
              · rw [step, if_neg hown]
                exact ⟨rfl, Or.inr (Or.inl rfl)⟩
          | error sid text => exact ⟨rfl, Or.inl rfl⟩
          | _ => exact ⟨rfl, Or.inr (Or.inl rfl)⟩
  | verifying totalGenerated contextTokens draftTokens =>
      cases delivered with
      | error e => exact Or.inr ⟨by simp, rfl, Or.inl rfl⟩
      | ok envelope =>
          obtain ⟨sender, message⟩ := envelope
          cases message with
          | verifyDraft sid acceptedCount correctionToken =>
              by_cases hown : sid = session.sessionId
              · subst hown
                exact Or.inl ⟨_, _, _, sender, acceptedCount, correctionToken, rfl, rfl⟩
              · refine Or.inr ⟨?_, ?_⟩
                · rintro _ _ _ _ _ _ - heq
                  injection heq with heq
                  injection heq with _ heq
                  injection heq with heq
                  exact hown heq
                · rw [step, if_neg hown]
                  exact ⟨rfl, Or.inr (Or.inl rfl)⟩
          | error sid text => exact Or.inr ⟨by simp, rfl, Or.inl rfl⟩
          | _ => exact Or.inr ⟨by simp, rfl, Or.inr (Or.inl rfl)⟩

/-- A verification hands out the accepted tokens and the correction, and then the session is at an
end, or the consumer has taken them all and the next round starts with a longer context. -/
theorem verifyDraft_cases (totalGenerated : ℕ) (contextTokens draftTokens : List ℕ)
    (sender : NodeId) (acceptedCount : ℕ) (correctionToken : Option ℕ) :
    let tokens := draftTokens.take acceptedCount ++ correctionToken.toList
    let after := step session environment draftModelId maxTokens
      (.verifying totalGenerated contextTokens draftTokens)
      (.ok (sender, .verifyDraft session.sessionId acceptedCount correctionToken))
    emittedTokens after.2 = emittedTokens (emit environment totalGenerated tokens).1 ∧
      (after.1 = .finished ∨
        after.1 = (startRound session environment draftModelId maxTokens
          (totalGenerated + tokens.length) (contextTokens ++ tokens)).1 ∧
        (emit environment totalGenerated tokens).2 = true ∧
        ¬ (acceptedCount = 0 ∧ correctionToken = none)) := by
  intro tokens after
  have hafter : after = _ := step_verifyDraft totalGenerated contextTokens draftTokens sender
    acceptedCount correctionToken
  rw [hafter]
  dsimp only
  split
  · exact ⟨rfl, Or.inl rfl⟩
  rename_i htaken
  split
  · rw [emittedTokens_append]
    exact ⟨List.append_nil _, Or.inl rfl⟩
  · rename_i hsome
    rw [emittedTokens_append, emittedTokens_startRound, List.append_nil]
    exact ⟨rfl, Or.inr ⟨rfl, by simpa using htaken, hsome⟩⟩

/-! ## What a session keeps -/

/-- While a session waits, it has counted the tokens handed out, and its context is the prompt
and these; a draft that waits for its verification is not empty. -/
def Accounted (promptTokens : List ℕ) (emitted : List Token) : SpeculativeState → Prop
  | .drafting totalGenerated contextTokens =>
      totalGenerated = emitted.length ∧ contextTokens = promptTokens ++ emitted.map Token.id
  | .verifying totalGenerated contextTokens draftTokens =>
      totalGenerated = emitted.length ∧ contextTokens = promptTokens ++ emitted.map Token.id ∧
        draftTokens ≠ []
  | .finished => True

theorem accounted_startRound {promptTokens contextTokens : List ℕ} {emitted : List Token}
    {totalGenerated : ℕ} (hcount : totalGenerated = emitted.length)
    (hcontext : contextTokens = promptTokens ++ emitted.map Token.id) :
    Accounted promptTokens emitted
      (startRound session environment draftModelId maxTokens totalGenerated contextTokens).1 := by
  rw [startRound]
  split
  · split
    · trivial
    · exact ⟨hcount, hcontext⟩
  · trivial

/-- A message keeps the accounts. -/
theorem Accounted.step {promptTokens : List ℕ} {emitted : List Token} {state : SpeculativeState}
    (h : Accounted promptTokens emitted state) (delivered : Except MeshError Envelope) :
    let after := SpeculativeSession.step session environment draftModelId maxTokens state delivered
    Accounted promptTokens (emitted ++ emittedTokens after.2) after.1 := by
  intro after
  rcases @step_cases session environment draftModelId maxTokens state delivered with
    ⟨totalGenerated, contextTokens, draftTokens, sender, acceptedCount, correctionToken, rfl, rfl⟩ |
    ⟨-, hsilent, hfinished | hsame | ⟨totalGenerated, contextTokens, tokens, rfl, hnext, hne⟩⟩
  · obtain ⟨hcount, hcontext, -⟩ := h
    obtain ⟨htokens, hfinished | ⟨hnext, htaken, -⟩⟩ := @verifyDraft_cases session environment
      draftModelId maxTokens totalGenerated contextTokens draftTokens sender acceptedCount
      correctionToken
    · rw [show after.1 = .finished from hfinished]
      trivial
    · have hids := map_id_emittedTokens_emit htaken
      rw [show after.1 = _ from hnext, show emittedTokens after.2 = _ from htokens]
      apply accounted_startRound
      · have hlength := congrArg List.length hids
        rw [List.length_map] at hlength
        rw [@List.length_append _ emitted, hlength, ← hcount]
      · rw [List.map_append, hids, hcontext, List.append_assoc]
  · rw [show after.1 = .finished from hfinished]
    trivial
  · rw [show after.1 = state from hsame, show emittedTokens after.2 = [] from hsilent,
      List.append_nil]
    exact h
  · rw [show after.1 = _ from hnext, show emittedTokens after.2 = [] from hsilent, List.append_nil]
    exact ⟨h.1, h.2, hne⟩

/-- A verification that lets the session go on has a token to hand out. -/
theorem verified_ne_nil {draftTokens : List ℕ} {acceptedCount : ℕ} {correctionToken : Option ℕ}
    (hdraft : draftTokens ≠ []) (hsome : ¬ (acceptedCount = 0 ∧ correctionToken = none)) :
    draftTokens.take acceptedCount ++ correctionToken.toList ≠ [] := by
  intro hnil
  obtain ⟨htake, hcorrection⟩ := List.append_eq_nil_iff.mp hnil
  apply hsome
  constructor
  · exact (List.take_eq_nil_iff.mp htake).resolve_right hdraft
  · cases correctionToken with
    | none => rfl
    | some tokenId => cases hcorrection

/-- Every message makes progress or lets the round go on. -/
theorem progresses_of_accounted {promptTokens : List ℕ} {emitted : List Token}
    {state : SpeculativeState} (h : Accounted promptTokens emitted state)
    (hwaits : state ≠ .finished) (delivered : Except MeshError Envelope) :
    Progresses session environment draftModelId maxTokens state delivered := by
  rw [Progresses]
  rcases @step_cases session environment draftModelId maxTokens state delivered with
    ⟨totalGenerated, contextTokens, draftTokens, sender, acceptedCount, correctionToken, rfl, rfl⟩ |
    ⟨-, -, hfinished | hsame | ⟨totalGenerated, contextTokens, tokens, rfl, hnext, -⟩⟩
  · obtain ⟨htokens, hfinished | ⟨-, htaken, hsome⟩⟩ := @verifyDraft_cases session environment
      draftModelId maxTokens totalGenerated contextTokens draftTokens sender acceptedCount
      correctionToken
    · exact Or.inr (Or.inr hfinished)
    · have hids := map_id_emittedTokens_emit htaken
      refine Or.inr (Or.inl fun hnone => verified_ne_nil h.2.2 hsome ?_)
      rw [← hids, ← htokens, hnone]
      rfl
  · exact Or.inr (Or.inr hfinished)
  · rw [hsame]
    cases state with
    | drafting totalGenerated contextTokens => exact Or.inl ⟨rfl, rfl⟩
    | verifying totalGenerated contextTokens draftTokens => exact Or.inl ⟨rfl, rfl, rfl⟩
    | finished => exact absurd rfl hwaits
  · rw [hnext]
    exact Or.inl ⟨rfl, rfl⟩

/-- A message leaves the number of tokens within the limit just if it accepts no more. -/
theorem bounded_step_iff {promptTokens : List ℕ} {emitted : List Token}
    {state : SpeculativeState} (h : Accounted promptTokens emitted state)
    (hbounded : emitted.length ≤ maxTokens) (delivered : Except MeshError Envelope) :
    (emitted ++ emittedTokens (SpeculativeSession.step session environment draftModelId maxTokens
      state delivered).2).length ≤ maxTokens ↔
        WithinLimit session environment maxTokens state delivered := by
  rcases @step_cases session environment draftModelId maxTokens state delivered with
    ⟨totalGenerated, contextTokens, draftTokens, sender, acceptedCount, correctionToken, rfl, rfl⟩ |
    ⟨hother, hsilent, -⟩
  · obtain ⟨hcount, -, -⟩ := h
    obtain ⟨htokens, -⟩ := @verifyDraft_cases session environment draftModelId maxTokens
      totalGenerated contextTokens draftTokens sender acceptedCount correctionToken
    rw [htokens, List.length_append, ← hcount]
    rw [← hcount] at hbounded
    have hleft : ∀ n, totalGenerated + n ≤ maxTokens ↔ n ≤ maxTokens - totalGenerated :=
      fun n => by omega
    rw [hleft, length_emittedTokens_emit_le_iff]
    constructor
    · intro hwithin _ _ _ _ _ _ hstate hdelivered
      cases hstate
      cases hdelivered
      dsimp only
      simpa only [hleft] using hwithin
    · intro hwithin
      have := hwithin _ _ _ sender acceptedCount correctionToken rfl rfl
      simpa only [hleft] using this
  · rw [hsilent, List.append_nil]
    apply iff_of_true hbounded
    intro totalGenerated contextTokens draftTokens sender acceptedCount correctionToken hstate
      hdelivered
    exact absurd hdelivered (hother _ _ _ _ _ _ hstate)

/-! ## Whole sessions -/

theorem sessionRun_snoc (promptTokens : List ℕ) (before : List (Except MeshError Envelope))
    (delivered : Except MeshError Envelope) :
    let ran := sessionRun session environment draftModelId maxTokens promptTokens before
    let after := step session environment draftModelId maxTokens ran.1 delivered
    sessionRun session environment draftModelId maxTokens promptTokens (before ++ [delivered]) =
      (after.1, ran.2 ++ after.2) := by
  intro ran after
  rw [sessionRun, run_snoc]
  dsimp only
  rw [← List.append_assoc]
  rfl

theorem sessionRun_nil (promptTokens : List ℕ) :
    sessionRun session environment draftModelId maxTokens promptTokens [] =
      startRound session environment draftModelId maxTokens 0 promptTokens := by
  rw [sessionRun, run, List.append_nil]

/-- Behind any messages the accounts are kept. -/
theorem accounted_sessionRun (promptTokens : List ℕ)
    (received : List (Except MeshError Envelope)) :
    let ran := sessionRun session environment draftModelId maxTokens promptTokens received
    Accounted promptTokens (emittedTokens ran.2) ran.1 := by
  induction received using List.reverseRecOn with
  | nil =>
      rw [sessionRun_nil]
      dsimp only
      rw [emittedTokens_startRound]
      exact accounted_startRound rfl (List.append_nil _).symm
  | append_singleton received delivered ih =>
      rw [sessionRun_snoc]
      dsimp only
      rw [emittedTokens_append]
      exact ih.step delivered

/-- The context of a session that waits is the prompt and the tokens handed out. -/
theorem Accounted.context_eq {promptTokens contextTokens : List ℕ} {emitted : List Token}
    {state : SpeculativeState} (h : Accounted promptTokens emitted state)
    (hcontext : state.context = some contextTokens) :
    contextTokens = promptTokens ++ emitted.map Token.id := by
  cases state with
  | drafting totalGenerated context =>
      cases hcontext
      exact h.2
  | verifying totalGenerated context draftTokens =>
      cases hcontext
      exact h.2.1
  | finished => cases hcontext

/-- **The accounts of a speculative session.** They are right, whatever is delivered, if and only
if every verification stays within the limit. -/
theorem accountsRight_iff (promptTokens : List ℕ)
    (received : List (Except MeshError Envelope)) :
    AccountsRight session environment draftModelId maxTokens promptTokens received ↔
      ∀ before delivered, before ++ [delivered] <+: received →
        WithinLimit session environment maxTokens
          (sessionRun session environment draftModelId maxTokens promptTokens before).1
          delivered := by
  have hstep : ∀ {before delivered},
      (emittedTokens (sessionRun session environment draftModelId maxTokens promptTokens
        before).2).length ≤ maxTokens →
      ((emittedTokens (sessionRun session environment draftModelId maxTokens promptTokens
        (before ++ [delivered])).2).length ≤ maxTokens ↔
          WithinLimit session environment maxTokens
            (sessionRun session environment draftModelId maxTokens promptTokens before).1
            delivered) := by
    intro before delivered hbounded
    rw [sessionRun_snoc]
    dsimp only
    rw [emittedTokens_append]
    exact bounded_step_iff (accounted_sessionRun promptTokens before) hbounded delivered
  have hnil : (emittedTokens (sessionRun session environment draftModelId maxTokens promptTokens
      []).2).length ≤ maxTokens := by
    rw [sessionRun_nil, emittedTokens_startRound]
    exact Nat.zero_le _
  rw [← @history_invariant_iff _ (fun before => (emittedTokens (sessionRun session environment
    draftModelId maxTokens promptTokens before).2).length ≤ maxTokens) _ hnil hstep received]
  constructor
  · exact fun hright before hpart => (hright.balanced before hpart).bounded
  · intro hbounded
    constructor
    · intro before hpart
      exact ⟨hbounded before hpart,
        fun contextTokens => (accounted_sessionRun promptTokens before).context_eq⟩
    · intro before delivered _ hwaits
      exact progresses_of_accounted (accounted_sessionRun promptTokens before) hwaits delivered

/-- A session that drafts four tokens at a time. -/
def fourDraftSession : SpeculativeSession := ⟨7, .ofByte 1, .ofByte 2, 4⟩

/-- Nothing fails, and the consumer listens. -/
def quietSpeculation : SpeculativeEnvironment := ⟨fun _ => .ok (), fun _ => .ok (), fun _ => true⟩

/-- **A full acceptance with a correction** hands out two tokens where one is asked for. -/
theorem correction_exceeds_limit :
    ¬ AccountsRight fourDraftSession quietSpeculation "draft" 1 [3]
      [.ok (.ofByte 1, .draftTokens 7 [5] "draft"), .ok (.ofByte 2, .verifyDraft 7 1 (some 6))] := by
  intro hright
  exact absurd (hright.balanced _ List.prefix_rfl).bounded (by decide)

end SpeculativeSession

end HiveBear.Mesh
