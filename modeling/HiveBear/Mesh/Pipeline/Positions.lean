/-
# Token positions in a distributed decode

The token loop counts generated tokens, not tokens. It embeds the `k`-th generated
token at position `k + 1`, which is its absolute position only when the prompt has one
token: with a longer prompt the generated rows overlap those of the prompt. `FedFrom`
is what each turn of the loop adds to a trace.
-/

import HiveBear.Mesh.Pipeline.StreamTokens
import Mathlib.Data.List.Range

namespace HiveBear.Mesh

/-! ## What a trace embeds and sends -/

/-- The embedding calls of a trace: the index position and the number of tokens.
Calls that sample carry another marker. -/
def StreamAction.embedCall : StreamAction → Option (ℕ × ℕ)
  | .forward data _ dtype indexPos => if dtype = 0 then some (indexPos, data.length / 4) else none
  | _ => none

/-- The token position of an activation that is sent. -/
def StreamAction.sentPosition : StreamAction → Option ℕ
  | .send _ (.activationTensor _ tokenPosition ..) => some tokenPosition
  | _ => none

/-- The embedding calls of a trace, in order. -/
def embedCalls (trace : List StreamAction) : List (ℕ × ℕ) :=
  trace.filterMap StreamAction.embedCall

/-- The positions of the activations sent, in order. -/
def sentPositions (trace : List StreamAction) : List ℕ :=
  trace.filterMap StreamAction.sentPosition

/-- The index positions of all rows that are computed: an activation of `n` tokens
at position `p` occupies the rows `p..p + n`. -/
def indexRows (trace : List StreamAction) : List ℕ :=
  (embedCalls trace).flatMap fun call => List.range' call.1 call.2

/-- The positions are those of a local decode of a prompt of `promptLength` tokens:
the `k`-th generated token is embedded and sent at `promptLength + k`, and the rows
are computed from left to right without gap or overlap. -/
structure AbsolutePositions (promptLength : ℕ) (trace : List StreamAction) : Prop where
  embedded : ∀ k call, (embedCalls trace)[k + 1]? = some call → call.1 = promptLength + k
  sent : ∀ k position, (sentPositions trace)[k + 1]? = some position →
    position = promptLength + k
  rows : indexRows trace = List.range (indexRows trace).length

@[simp]
theorem embedCalls_append (xs ys : List StreamAction) :
    embedCalls (xs ++ ys) = embedCalls xs ++ embedCalls ys :=
  List.filterMap_append

@[simp]
theorem sentPositions_append (xs ys : List StreamAction) :
    sentPositions (xs ++ ys) = sentPositions xs ++ sentPositions ys :=
  List.filterMap_append

/-- An action that is no embedding call leaves the list of calls alone. -/
theorem embedCalls_cons_of_none {action : StreamAction} (h : action.embedCall = none)
    (trace : List StreamAction) : embedCalls (action :: trace) = embedCalls trace :=
  List.filterMap_cons_none h

/-- An embedding call is the next entry. -/
theorem embedCalls_cons_of_some {action : StreamAction} {call : ℕ × ℕ}
    (h : action.embedCall = some call) (trace : List StreamAction) :
    embedCalls (action :: trace) = call :: embedCalls trace :=
  List.filterMap_cons_some h

/-- An action that sends no activation leaves the list of positions alone. -/
theorem sentPositions_cons_of_none {action : StreamAction} (h : action.sentPosition = none)
    (trace : List StreamAction) : sentPositions (action :: trace) = sentPositions trace :=
  List.filterMap_cons_none h

/-- An activation that is sent is the next entry. -/
theorem sentPositions_cons_of_some {action : StreamAction} {position : ℕ}
    (h : action.sentPosition = some position) (trace : List StreamAction) :
    sentPositions (action :: trace) = position :: sentPositions trace :=
  List.filterMap_cons_some h

@[simp]
theorem length_toLeBytes (n : ℕ) : (toLeBytes n).length = 4 := rfl

@[simp]
theorem length_flatMap_toLeBytes (tokens : List ℕ) :
    (tokens.flatMap toLeBytes).length = 4 * tokens.length := by
  induction tokens with
  | nil => rfl
  | cons t ts ih =>
      rw [List.flatMap_cons, List.length_append, ih, length_toLeBytes, List.length_cons]
      omega

/-- The prompt is embedded at position 0. -/
theorem prompt_embedCall (promptTokens : List ℕ) :
    (StreamAction.forward (promptTokens.flatMap toLeBytes) [promptTokens.length, 1] 0 0).embedCall =
      some (0, promptTokens.length) := by
  simp [StreamAction.embedCall]

namespace PipelineInitiator

variable {F H : Type*} (initiator : PipelineInitiator F) (handler : MeshPipelineHandler H)
  (environment : StreamEnvironment) (firstWorker : NodeId)

@[simp]
theorem embedCalls_releaseActions : embedCalls initiator.releaseActions = [] := by
  simp [embedCalls, releaseActions, StreamAction.embedCall]

@[simp]
theorem sentPositions_releaseActions : sentPositions initiator.releaseActions = [] := by
  simp [sentPositions, releaseActions, releaseMessages, StreamAction.sentPosition]

/-- The `n` tokens generated after a position are embedded one by one at the
positions that follow it, and the first `m` of these activations are sent. -/
def FedFrom (position n m : ℕ) (trace : List StreamAction) : Prop :=
  m ≤ n ∧ embedCalls trace = (List.range' (position + 1) n).map (fun p => (p, 1)) ∧
    sentPositions trace = List.range' (position + 1) m

/-- A turn that feeds one token extends what is fed after it. -/
theorem FedFrom.turn_append {position n m : ℕ} {turn rest : List StreamAction}
    (hturn : FedFrom position 1 1 turn) (hrest : FedFrom (position + 1) n m rest) :
    FedFrom position (n + 1) (m + 1) (turn ++ rest) := by
  obtain ⟨-, hturnCalls, hturnSent⟩ := hturn
  obtain ⟨hle, hcalls, hsent⟩ := hrest
  refine ⟨Nat.succ_le_succ hle, ?_, ?_⟩
  · rw [embedCalls_append, hturnCalls, hcalls, List.range'_succ (n := n), List.map_cons]
    rfl
  · rw [sentPositions_append, hturnSent, hsent, List.range'_succ (n := m)]
    rfl

/-- An action that neither embeds nor sends changes nothing. -/
theorem FedFrom.cons_silent {position n m : ℕ} {action : StreamAction}
    {trace : List StreamAction} (h : FedFrom position n m trace)
    (hcall : action.embedCall = none) (hsent : action.sentPosition = none) :
    FedFrom position n m (action :: trace) := by
  rw [FedFrom, embedCalls_cons_of_none hcall, sentPositions_cons_of_none hsent]
  exact h

/-- The teardown that may follow embeds and sends nothing. -/
theorem FedFrom.append_teardown {position n m : ℕ} {trace : List StreamAction}
    (h : FedFrom position n m trace) :
    FedFrom position n m (trace ++ .clearCheckpoints :: initiator.releaseActions) := by
  obtain ⟨hle, hcalls, hsent⟩ := h
  refine ⟨hle, ?_, ?_⟩
  · rw [embedCalls_append, embedCalls_cons_of_none rfl, embedCalls_releaseActions,
      List.append_nil, hcalls]
  · rw [sentPositions_append, sentPositions_cons_of_none rfl, sentPositions_releaseActions,
      List.append_nil, hsent]

/-- Feeding a token embeds it at the next position, and sends it there unless the
loop ends. -/
theorem exists_fedFrom_feedToken (s : H) (position tokenId : ℕ) :
    ∃ m, FedFrom position 1 m
        (feedToken initiator handler environment firstWorker s position tokenId).1 ∧
      ∀ s', (feedToken initiator handler environment firstWorker s position tokenId).2 = .next s' →
        m = 1 := by
  have hembed : (StreamAction.forward (toLeBytes tokenId) [1, 1] 0 (position + 1)).embedCall =
      some (position + 1, 1) := by simp [StreamAction.embedCall]
  simp only [feedToken]
  split
  · exact ⟨0, ⟨zero_le_one, embedCalls_cons_of_some hembed _, rfl⟩, nofun⟩
  · split <;> split <;> exact ⟨1, ⟨le_rfl, embedCalls_cons_of_some hembed _, rfl⟩, fun _ _ => rfl⟩

/-- The sampled token is fed back: sampling succeeds, the consumer still listens,
and the token neither is empty nor has the identifier 0. -/
def FeedsToken (handlerState : H) (position : ℕ) (logitsData : List UInt8) : Prop :=
  ∃ sampled, (handler.forwardLayers handlerState logitsData [1] 255 position).1 = .ok sampled ∧
    4 ≤ sampled.1.length ∧ environment.listening position = true ∧
    (environment.fromUtf8Lossy (sampled.1.drop 4)).isEmpty = false ∧
    fromLeBytes (sampled.1.take 4) ≠ 0

/-- A turn that feeds its token embeds it at the next position, and sends it there
unless the loop ends. -/
theorem exists_fedFrom_generateToken {s : H} {position : ℕ} {data : List UInt8}
    (h : FeedsToken handler environment s position data) :
    ∃ m, FedFrom position 1 m
        (generateToken initiator handler environment firstWorker s position data).1 ∧
      ∀ s', (generateToken initiator handler environment firstWorker s position data).2 =
        .next s' → m = 1 := by
  obtain ⟨sampled, hok, hlen, hlistening, htext, hid⟩ := h
  obtain ⟨m, hfed, hm⟩ := exists_fedFrom_feedToken initiator handler environment firstWorker
    (handler.forwardLayers s data [1] 255 position).2 position (fromLeBytes (sampled.1.take 4))
  simp only [generateToken, hok, Nat.not_lt.mpr hlen, hlistening, htext,
    beq_eq_false_iff_ne.mpr hid, Bool.or_false, Bool.not_true, Bool.false_eq_true, if_false]
  exact ⟨m, (hfed.cons_silent rfl rfl).cons_silent rfl rfl, hm⟩

/-- A turn that does not feed its token embeds and sends nothing, and ends the loop. -/
theorem fedFrom_generateToken_of_not_feeds {s : H} {position : ℕ} {data : List UInt8}
    (h : ¬ FeedsToken handler environment s position data) :
    FedFrom position 0 0
        (generateToken initiator handler environment firstWorker s position data).1 ∧
      ∀ s', (generateToken initiator handler environment firstWorker s position data).2 ≠
        .next s' := by
  simp only [generateToken]
  split
  · exact ⟨⟨le_rfl, rfl, rfl⟩, nofun⟩
  · rename_i tokenBytes _ _ hok
    split_ifs with hlen hlistening heos
    · exact ⟨⟨le_rfl, rfl, rfl⟩, nofun⟩
    · exact ⟨⟨le_rfl, rfl, rfl⟩, nofun⟩
    · exact ⟨⟨le_rfl, rfl, rfl⟩, nofun⟩
    · rw [Bool.or_eq_true, not_or, Bool.not_eq_true, beq_iff_eq] at heos
      exact absurd ⟨_, hok, Nat.not_lt.mp hlen, by simpa using hlistening, heos⟩ h

/-- The loop feeds back the token it samples at a position. -/
def FeedsAt (maxTokens position : ℕ) (handlerState : H)
    (received : List (Except MeshError Envelope)) : Prop :=
  position < maxTokens ∧ ∃ data, initiator.firstLogits received = some data ∧
    FeedsToken handler environment handlerState position data

/-- The loop embeds at consecutive positions, one token at a time. -/
theorem exists_fedFrom_generate (maxTokens : ℕ) (received : List (Except MeshError Envelope))
    (position : ℕ) (s : H) :
    ∃ n m, FedFrom position n m
        (generate initiator handler environment firstWorker maxTokens position s received) ∧
      (0 < n ↔ FeedsAt initiator handler environment maxTokens position s received) := by
  have hrelease : FedFrom position 0 0 initiator.releaseActions :=
    ⟨le_rfl, embedCalls_releaseActions initiator, sentPositions_releaseActions initiator⟩
  induction received generalizing position s with
  | nil =>
      rw [generate.eq_def, FeedsAt, firstLogits]
      dsimp only
      split_ifs
      · exact ⟨0, 0, hrelease.cons_silent rfl rfl, by simp⟩
      · exact ⟨0, 0, ⟨le_rfl, rfl, rfl⟩, by simp⟩
  | cons delivered rest ih =>
      rw [generate.eq_def, FeedsAt, firstLogits.eq_def]
      dsimp only
      split_ifs with hmax
      · exact ⟨0, 0, hrelease.cons_silent rfl rfl, by simp; omega⟩
      split
      · rename_i data _
        split_ifs
        · simp only [Nat.not_le.mp hmax, true_and, Option.some.injEq, exists_eq_left']
          by_cases hfeeds : FeedsToken handler environment s position data
          · obtain ⟨m, hturn, hnext⟩ :=
              exists_fedFrom_generateToken initiator handler environment firstWorker hfeeds
            cases hcontrol : (generateToken initiator handler environment firstWorker s position
              data).2 with
            | next s' =>
                obtain ⟨n, m', hrest, -⟩ := ih (position + 1) s' hrelease
                cases hnext s' hcontrol
                exact ⟨n + 1, m' + 1, hturn.turn_append hrest, by simpa using hfeeds⟩
            | stop => exact ⟨1, m, hturn.append_teardown initiator, by simpa using hfeeds⟩
            | panic => exact ⟨1, m, hturn, by simpa using hfeeds⟩
          · obtain ⟨hturn, hnext⟩ := fedFrom_generateToken_of_not_feeds initiator handler
              environment firstWorker hfeeds
            cases hcontrol : (generateToken initiator handler environment firstWorker s position
              data).2 with
            | next s' => exact absurd hcontrol (hnext s')
            | stop => exact ⟨0, 0, hturn.append_teardown initiator, by simpa using hfeeds⟩
            | panic => exact ⟨0, 0, hturn, by simpa using hfeeds⟩
        · exact ih position s hrelease
      · exact ⟨0, 0, hrelease.cons_silent rfl rfl, by simp⟩
      · exact ⟨0, 0, ⟨le_rfl, rfl, rfl⟩, by simp⟩
      · exact ih position s hrelease

/-- The stream embeds a generated token: the plan has a peer, the prompt is embedded
and sent, and the first token sampled is fed back. -/
def FeedsFirst (handlerState : H) (promptTokens : List ℕ) (maxTokens : ℕ)
    (received : List (Except MeshError Envelope)) : Prop :=
  let embedding := handler.forwardLayers handlerState (promptTokens.flatMap toLeBytes)
    [promptTokens.length, 1] 0 0
  initiator.plan.assignments ≠ [] ∧ (∃ activation, embedding.1 = .ok activation) ∧
    environment.sendResult 0 = .ok () ∧
    FeedsAt initiator handler environment maxTokens 0 embedding.2 received

/-- The prompt is embedded at 0, and the generated tokens one by one at 1, 2, …: the
length of the prompt plays no part in where they go. -/
theorem exists_positions_of_feedsFirst {s : H} {promptTokens : List ℕ} {maxTokens : ℕ}
    {received : List (Except MeshError Envelope)}
    (h : FeedsFirst initiator handler environment s promptTokens maxTokens received) :
    ∃ n m, 0 < n ∧ m ≤ n ∧
      embedCalls (streamTokens initiator handler environment s promptTokens maxTokens received) =
        (0, promptTokens.length) :: (List.range' 1 n).map (fun p => (p, 1)) ∧
      sentPositions (streamTokens initiator handler environment s promptTokens maxTokens
        received) = 0 :: List.range' 1 m := by
  obtain ⟨hplan, ⟨activation, hactivation⟩, hsent, hfeeds⟩ := h
  obtain ⟨first, others, hassignments⟩ := List.exists_cons_of_ne_nil hplan
  obtain ⟨n, m, ⟨hle, hcalls, hpositions⟩, hn⟩ := exists_fedFrom_generate initiator handler
    environment first.peerId maxTokens received 0 (handler.forwardLayers s
      (promptTokens.flatMap toLeBytes) [promptTokens.length, 1] 0 0).2
  refine ⟨n, m, hn.mpr hfeeds, hle, ?_, ?_⟩
  · simp only [streamTokens, hassignments, hactivation, hsent]
    rw [embedCalls_cons_of_some (prompt_embedCall promptTokens), embedCalls_cons_of_none rfl,
      hcalls]
  · simp only [streamTokens, hassignments, hactivation, hsent]
    rw [sentPositions_cons_of_none rfl, sentPositions_cons_of_some rfl, hpositions]

/-- A stream that embeds no generated token embeds and sends at most the prompt. -/
theorem positions_of_not_feedsFirst {s : H} {promptTokens : List ℕ} {maxTokens : ℕ}
    {received : List (Except MeshError Envelope)}
    (h : ¬ FeedsFirst initiator handler environment s promptTokens maxTokens received) :
    embedCalls (streamTokens initiator handler environment s promptTokens maxTokens received) <+:
        [(0, promptTokens.length)] ∧
      sentPositions (streamTokens initiator handler environment s promptTokens maxTokens
        received) <+: [0] := by
  have hprompt := prompt_embedCall promptTokens
  rw [streamTokens]
  split
  · exact ⟨List.nil_prefix, List.nil_prefix⟩
  rename_i first others hassignments
  dsimp only
  split
  · rw [embedCalls_cons_of_some hprompt]
    exact ⟨List.prefix_rfl, List.nil_prefix⟩
  rename_i activation hactivation
  split
  · rw [embedCalls_cons_of_some hprompt]
    exact ⟨List.prefix_rfl, List.prefix_rfl⟩
  rename_i hsent
  obtain ⟨n, m, ⟨hle, hcalls, hpositions⟩, hn⟩ := exists_fedFrom_generate initiator handler
    environment first.peerId maxTokens received 0 (handler.forwardLayers s
      (promptTokens.flatMap toLeBytes) [promptTokens.length, 1] 0 0).2
  have hzero : n = 0 := by
    refine Nat.eq_zero_of_not_pos fun hpos => h ?_
    exact ⟨by simp [hassignments], ⟨activation, hactivation⟩, hsent, hn.mp hpos⟩
  subst hzero
  cases Nat.le_zero.mp hle
  rw [embedCalls_cons_of_some hprompt, embedCalls_cons_of_none rfl, hcalls,
    sentPositions_cons_of_none rfl, sentPositions_cons_of_some rfl, hpositions]
  exact ⟨List.prefix_rfl, List.prefix_rfl⟩

end PipelineInitiator

/-! ## When the positions are absolute -/

/-- A decode that embeds and sends at most the prompt has nothing to get wrong. -/
theorem AbsolutePositions.of_prompt {promptLength : ℕ} {trace : List StreamAction}
    (hcalls : embedCalls trace <+: [(0, promptLength)]) (hsent : sentPositions trace <+: [0]) :
    AbsolutePositions promptLength trace where
  embedded k call hcall := by
    have hlt := (List.getElem?_eq_some_iff.mp hcall).1
    have hle := hcalls.length_le
    simp only [List.length_singleton] at hle
    omega
  sent k position hposition := by
    have hlt := (List.getElem?_eq_some_iff.mp hposition).1
    have hle := hsent.length_le
    simp only [List.length_singleton] at hle
    omega
  rows := by
    obtain hnil | ⟨rest, hprompt, hrest⟩ := List.prefix_cons_iff.mp hcalls
    · rw [indexRows, hnil]
      rfl
    · rw [indexRows, hprompt, List.prefix_nil.mp hrest]
      simp [List.range_eq_range']

/-- When generated tokens are embedded at 1, 2, …, these positions are absolute exactly
behind a prompt of one token. -/
theorem absolutePositions_iff_of_positions {promptLength n m : ℕ} {trace : List StreamAction}
    (hn : 0 < n) (hcalls : embedCalls trace =
      (0, promptLength) :: (List.range' 1 n).map (fun p => (p, 1)))
    (hsent : sentPositions trace = 0 :: List.range' 1 m) :
    AbsolutePositions promptLength trace ↔ promptLength = 1 := by
  refine ⟨fun h => ?_, ?_⟩
  · have hcall : (embedCalls trace)[0 + 1]? = some (1, 1) := by
      rw [hcalls, List.getElem?_cons_succ, List.getElem?_map, List.getElem?_range' hn]
      rfl
    simpa using (h.embedded 0 (1, 1) hcall).symm
  · rintro rfl
    refine ⟨fun k call hcall => ?_, fun k position hposition => ?_, ?_⟩
    · have hk := (List.getElem?_eq_some_iff.mp hcall).1
      simp only [hcalls, List.length_cons, List.length_map, List.length_range',
        Nat.add_lt_add_iff_right] at hk
      rw [hcalls, List.getElem?_cons_succ, List.getElem?_map, List.getElem?_range' hk] at hcall
      cases hcall
      simp
    · have hk := (List.getElem?_eq_some_iff.mp hposition).1
      simp only [hsent, List.length_cons, List.length_range', Nat.add_lt_add_iff_right] at hk
      rw [hsent, List.getElem?_cons_succ, List.getElem?_range' hk] at hposition
      cases hposition
      simp
    · have hrows : indexRows trace = List.range (n + 1) := by
        rw [indexRows, hcalls, List.flatMap_cons, List.flatMap_map]
        simp [List.range_eq_range', List.range'_succ]
      rw [hrows, List.length_range]

namespace PipelineInitiator

variable {F H : Type*} (initiator : PipelineInitiator F) (handler : MeshPipelineHandler H)
  (environment : StreamEnvironment)

/-- **When decode positions are absolute.** The positions of a decode are those of a
left-to-right local decode exactly when the prompt has one token, or no generated token
is embedded at all. -/
theorem absolute_positions_iff (s : H) (promptTokens : List ℕ) (maxTokens : ℕ)
    (received : List (Except MeshError Envelope)) :
    AbsolutePositions promptTokens.length
        (streamTokens initiator handler environment s promptTokens maxTokens received) ↔
      promptTokens.length = 1 ∨
        ¬ FeedsFirst initiator handler environment s promptTokens maxTokens received := by
  by_cases hfeeds : FeedsFirst initiator handler environment s promptTokens maxTokens received
  · obtain ⟨n, m, hn, -, hcalls, hsent⟩ :=
      exists_positions_of_feedsFirst initiator handler environment hfeeds
    rw [absolutePositions_iff_of_positions hn hcalls hsent, or_iff_left (not_not.mpr hfeeds)]
  · obtain ⟨hcalls, hsent⟩ := positions_of_not_feedsFirst initiator handler environment hfeeds
    exact iff_of_true (AbsolutePositions.of_prompt hcalls hsent) (Or.inr hfeeds)

/-! ### A prompt of two tokens -/

/-- One peer serves the only layer of a model. -/
def singlePeer : PipelineInitiator ℚ where
  plan :=
    { sessionId := 7
      modelId := "model"
      totalLayers := 1
      assignments := [⟨.ofByte 1, ⟨0, 1⟩, 1, 0⟩]
      estimatedLatencyMs := 1
      estimatedThroughputTokS := 1 }
  localId := .ofByte 0

/-- Embeds by copying, and always samples token 5 with the text `a`. -/
def copyingHandler : MeshPipelineHandler Unit where
  loadLayers _ _ _ _ := (.ok (), ())
  forwardLayers _ data shape dtype _ :=
    if dtype = 255 then (.ok ([5, 0, 0, 0, 97], shape, 0), ()) else (.ok (data, shape, 0), ())
  unloadLayers _ := (.ok (), ())

/-- Nothing fails, and all text is ASCII. -/
def quietEnvironment : StreamEnvironment where
  sendResult _ := .ok ()
  listening _ := true
  fromUtf8Lossy bytes := String.ofList (bytes.map fun b => Char.ofNat b.toNat)

/-- Behind a prompt of two tokens, the first generated token is embedded at position 1,
which is the position of the second prompt token. -/
theorem two_token_prompt_not_absolute :
    ¬ AbsolutePositions 2 (streamTokens singlePeer copyingHandler quietEnvironment () [8, 9] 1
      [.ok (.ofByte 1, .logits 7 0 [1, 2, 3, 4] 1)]) := by
  intro h
  have hposition := h.embedded 0 (1, 1) (by decide)
  exact absurd hposition (by decide)

end PipelineInitiator

end HiveBear.Mesh
