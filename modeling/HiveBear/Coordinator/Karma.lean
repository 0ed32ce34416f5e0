/-
# Claiming karma

A worker claims karma for a work receipt. The coordinator rejects a receipt whose key it has
already processed, checks the client and the token count, credits the worker, and records
the key. Each access to a shared map is one atomic step; between two of them other requests
may do anything, and nodes may come and go.

The check for a replay and the record are apart, so the tokens of a key are credited at most
once if no request passes the check while another one with its key is still at work; if two
of them have passed it, both are credited.
-/

import HiveBear.Library.CheckThenAct
import Mathlib.Data.Int.Notation

namespace HiveBear.Coordinator

open CheckThenAct LabelledRun

/-- A receipt for work done for a client. -/
structure WorkReceipt where
  clientNodeId : String
  workerNodeId : String
  tokensProcessed : ℕ
  timestamp : ℕ
  nonce : String

/-- The key under which a receipt is recorded. -/
def WorkReceipt.receiptKey (receipt : WorkReceipt) : String :=
  s!"{receipt.clientNodeId}:{receipt.nonce}:{receipt.timestamp}"

/-- The maps of the coordinator that claims use. -/
structure CoordinatorState where
  nodes : String → Bool
  karma : String → Option ℤ
  processedReceipts : String → Bool

/-- A successful answer to a claim. -/
structure KarmaAward where
  workerNodeId : String
  karmaAwarded : ℤ
  newBalance : ℤ

/-- An error answer: a status code and a text. -/
structure ClaimError where
  status : ℕ
  message : String

/-- How far a claim is. -/
inductive ClaimPhase
  | arrived
  /-- Its key was not recorded. -/
  | checkingClient
  /-- Its client and its token count are accepted. -/
  | crediting
  /-- The worker has its karma. -/
  | recording (newBalance : ℤ)
  | answered (result : Except ClaimError KarmaAward)

/-- What a signed counter of 64 bits makes of a number. -/
def wrapI64 (n : ℤ) : ℤ := n.bmod 18446744073709551616

/-- The next step of a claim, with at most one access to a shared map. -/
def claimKarma (receipt : WorkReceipt) (state : CoordinatorState) :
    ClaimPhase → CoordinatorState × ClaimPhase
  | .arrived =>
      if state.processedReceipts receipt.receiptKey then
        (state, .answered (.error ⟨409, "Receipt already claimed (anti-replay check failed)"⟩))
      else (state, .checkingClient)
  | .checkingClient =>
      let clientKnown := state.nodes receipt.clientNodeId
      if !clientKnown ∧ 5000 < receipt.tokensProcessed then
        (state, .answered (.error ⟨403, "Client node not recognized for high-token claims"⟩))
      else if receipt.tokensProcessed = 0 ∨ 100000 < receipt.tokensProcessed then
        (state, .answered (.error ⟨400, "Invalid token range in work receipt"⟩))
      else (state, .crediting)
  | .crediting =>
      let current := wrapI64 ((state.karma receipt.workerNodeId).getD 0 + receipt.tokensProcessed)
      ({ state with karma := Function.update state.karma receipt.workerNodeId (some current) },
        .recording current)
  | .recording newBalance =>
      ({ state with
          processedReceipts := Function.update state.processedReceipts receipt.receiptKey true },
        .answered (.ok ⟨receipt.workerNodeId, receipt.tokensProcessed, newBalance⟩))
  | .answered result => (state, .answered result)

/-! ## Concurrent claims -/

/-- The coordinator and the claims it serves. -/
structure ClaimSystem (R : Type*) where
  state : CoordinatorState
  phases : R → ClaimPhase

/-- A claim takes a step from a phase, or the registered nodes change. -/
inductive ClaimEvent (R : Type*)
  | work (claim : R) (phase : ClaimPhase)
  | nodesChange

variable {R : Type*} [DecidableEq R] (receipt : R → WorkReceipt)

/-- The steps of a coordinator that serves claims for these receipts. -/
inductive Step : ClaimSystem R → ClaimEvent R → ClaimSystem R → Prop
  | work (system : ClaimSystem R) (claim : R) :
      Step system (.work claim (system.phases claim))
        ⟨(claimKarma (receipt claim) system.state (system.phases claim)).1,
          Function.update system.phases claim
            (claimKarma (receipt claim) system.state (system.phases claim)).2⟩
  | nodesChange (system : ClaimSystem R) (nodes : String → Bool) :
      Step system .nodesChange ⟨{ system.state with nodes := nodes }, system.phases⟩

/-- The key of a claim's receipt. -/
def claimKey (claim : R) : String := (receipt claim).receiptKey

/-- How often the tokens of a key have been credited. -/
def credits (key : String) (events : List (ClaimEvent R)) : ℕ :=
  events.countP fun
    | .work claim .crediting => claimKey receipt claim = key
    | _ => false

/-- The claim has passed the replay check and has neither recorded its key nor been
rejected. -/
def ClaimPhase.AtWork : ClaimPhase → Prop
  | .checkingClient => True
  | .crediting => True
  | .recording _ => True
  | _ => False

/-- No claim passes the replay check while another one with its key is at work. -/
def PassesAlone (system : ClaimSystem R) : ClaimEvent R → Prop
  | .work claim .arrived =>
      system.state.processedReceipts (claimKey receipt claim) = true ∨
        ∀ other, claimKey receipt other = claimKey receipt claim →
          ¬ (system.phases other).AtWork
  | _ => True

/-- Claims as requests that check, act and record. -/
def claimStage : ClaimPhase → Stage
  | .arrived => .waiting
  | .checkingClient => .checked
  | .crediting => .checked
  | .recording _ => .acted
  | .answered _ => .finished

/-- The claim that an event credits. -/
def credited : ClaimEvent R → Option R
  | .work claim .crediting => some claim
  | _ => none

/-- How check, act and record are seen at the coordinator. -/
def claimView : View (ClaimSystem R) (ClaimEvent R) R String where
  stage system claim := claimStage (system.phases claim)
  recorded system key := system.state.processedReceipts key = true
  acts := credited

variable {receipt}

theorem inFlight_claimStage (phase : ClaimPhase) : (claimStage phase).InFlight ↔ phase.AtWork := by
  cases phase <;> simp [claimStage, Stage.InFlight, ClaimPhase.AtWork]

/-- The stages behind a step of a claim. -/
theorem stage_update (state : CoordinatorState) (phases : R → ClaimPhase) (claim : R)
    (phase : ClaimPhase) :
    claimView.stage ⟨state, Function.update phases claim phase⟩ =
      Function.update (claimView.stage ⟨state, phases⟩) claim (claimStage phase) := by
  funext other
  exact Function.apply_update (fun _ => claimStage) phases claim phase other

/-- A step of a claim that stays in its stage. -/
theorem stage_update_of_eq {state state' : CoordinatorState} {phases : R → ClaimPhase} {claim : R}
    {phase : ClaimPhase} (h : claimView.stage ⟨state, phases⟩ claim = claimStage phase) :
    claimView.stage ⟨state', Function.update phases claim phase⟩ =
      claimView.stage ⟨state, phases⟩ := by
  rw [stage_update]
  exact Function.update_eq_self_iff.mpr h.symm

/-- Every step in which claims pass alone is a move of check, act and record. -/
theorem move_of_step {system system' : ClaimSystem R} {event : ClaimEvent R}
    (h : Guarded (PassesAlone receipt) (Step receipt) system event system') :
    Move claimView (claimKey receipt) system event system' := by
  obtain ⟨halone, step⟩ := h
  cases step with
  | nodesChange nodes => exact .stay rfl rfl rfl
  | work claim =>
      obtain ⟨state, phases⟩ := system
      dsimp only at halone ⊢
      have hstage : ∀ {phase}, phases claim = phase →
          claimView.stage ⟨state, phases⟩ claim = claimStage phase := congrArg claimStage
      cases hphase : phases claim with
      | arrived =>
          rw [hphase] at halone
          have hearly : claimView.stage ⟨state, phases⟩ claim ≠ .acted := by
            rw [hstage hphase]
            nofun
          rw [claimKarma]
          split_ifs with hseen
          · exact .leave claim hearly (stage_update state phases claim _) rfl rfl
          · have hothers : ∀ other, claimKey receipt other = claimKey receipt claim →
                ¬ (claimView.stage ⟨state, phases⟩ other).InFlight := by
              intro other hkey hflight
              exact halone.resolve_left hseen other hkey ((inFlight_claimStage _).mp hflight)
            exact .check claim (hstage hphase) hseen hothers (stage_update state phases claim _)
              rfl rfl
      | checkingClient =>
          have hearly : claimView.stage ⟨state, phases⟩ claim ≠ .acted := by
            rw [hstage hphase]
            nofun
          rw [claimKarma]
          split_ifs
          · exact .leave claim hearly (stage_update state phases claim _) rfl rfl
          · exact .leave claim hearly (stage_update state phases claim _) rfl rfl
          · have hchecked : claimView.stage ⟨state, phases⟩ claim = claimStage .crediting :=
              (hstage hphase).trans rfl
            exact .stay (stage_update_of_eq hchecked) rfl rfl
      | crediting => exact .act claim (hstage hphase) (stage_update _ phases claim _) rfl rfl
      | recording newBalance =>
          have hrecorded : ∀ key, Function.update state.processedReceipts
                (receipt claim).receiptKey true key = true ↔
              key = claimKey receipt claim ∨ state.processedReceipts key = true := by
            intro key
            rw [Function.update_apply]
            split_ifs with hkey
            · simp [hkey, claimKey]
            · simp [hkey, claimKey]
          exact .record claim (hstage hphase) (stage_update _ phases claim _) hrecorded rfl
      | answered result => exact .stay (stage_update_of_eq (hstage hphase)) rfl rfl

/-- **Receipts are credited at most once** along every run in which claims pass the replay
check alone. -/
theorem tokens_credited_at_most_once {start system : ClaimSystem R} {events : List (ClaimEvent R)}
    (hstart : ∀ claim, start.phases claim = .arrived)
    (run : Run (Guarded (PassesAlone receipt) (Step receipt)) start events system)
    (key : String) : credits receipt key events ≤ 1 := by
  have hwaiting : ∀ claim, claimView.stage start claim = .waiting := by
    intro claim
    exact congrArg claimStage (hstart claim)
  have honce := acts_at_most_once move_of_step hwaiting run key
  have hcredits : actsOn claimView (claimKey receipt) key events = credits receipt key events := by
    apply List.countP_congr
    intro event _
    cases event with
    | nodesChange => rfl
    | work claim phase => cases phase <;> simp [claimView, credited]
  rwa [hcredits] at honce

/-- A receipt over 100 tokens. -/
def smallReceipt : WorkReceipt := ⟨"client", "worker", 100, 0, "nonce"⟩

/-- Two claims for it. -/
def sameReceipt (_ : Bool) : WorkReceipt := smallReceipt

/-- A coordinator that knows nothing yet. -/
def twoClaims : ClaimSystem Bool where
  state := ⟨fun _ => false, fun _ => none, fun _ => false⟩
  phases _ := .arrived

/-- The second claim arrives when the first one is through, and is rejected. -/
theorem tokens_credited_at_most_once_in_turn :
    credits sameReceipt smallReceipt.receiptKey
      [.work true .arrived, .work true .checkingClient, .work true .crediting,
        .work true (.recording 100), .work false .arrived] ≤ 1 := by
  have alone : PassesAlone sameReceipt twoClaims (.work true .arrived) :=
    Or.inr fun _ _ => id
  have checked : Run (Guarded (PassesAlone sameReceipt) (Step sameReceipt)) twoClaims _ _ :=
    Run.single ⟨alone, .work twoClaims true⟩
  have admitted := @Run.snoc _ _ _ _ _ _ _ (ClaimEvent.work true .checkingClient) checked
    ⟨trivial, .work _ true⟩
  have credited := @Run.snoc _ _ _ _ _ _ _ (ClaimEvent.work true .crediting) admitted
    ⟨trivial, .work _ true⟩
  have recorded : Run (Guarded (PassesAlone sameReceipt) (Step sameReceipt)) twoClaims _
      ⟨⟨_, _, Function.update _ smallReceipt.receiptKey true⟩, _⟩ :=
    @Run.snoc _ _ _ _ _ _ _ (ClaimEvent.work true (.recording 100)) credited
      ⟨trivial, .work _ true⟩
  have rejected := @Run.snoc _ _ _ _ _ _ _ (ClaimEvent.work false .arrived) recorded
    ⟨Or.inl (by simp [claimKey, sameReceipt]), .work _ false⟩
  exact tokens_credited_at_most_once (fun _ => rfl) rejected smallReceipt.receiptKey

/-! ## Overlapping claims -/

/-- The client and the token count of a receipt are accepted. -/
def WorkReceipt.Accepted (receipt : WorkReceipt) (state : CoordinatorState) : Prop :=
  (state.nodes receipt.clientNodeId = true ∨ receipt.tokensProcessed ≤ 5000) ∧
    0 < receipt.tokensProcessed ∧ receipt.tokensProcessed ≤ 100000

theorem claimKarma_of_accepted {receipt : WorkReceipt} {state : CoordinatorState}
    (h : receipt.Accepted state) :
    claimKarma receipt state .checkingClient = (state, .crediting) := by
  obtain ⟨hclient, hpos, hle⟩ := h
  rw [claimKarma, if_neg, if_neg]
  · omega
  · rcases hclient with hknown | hfew
    · simp [hknown]
    · simp [hfew]

theorem step_of_phase {state : CoordinatorState} {phases : R → ClaimPhase} {claim : R}
    {phase : ClaimPhase} (hphase : phases claim = phase) :
    Step receipt ⟨state, phases⟩ (.work claim phase)
      ⟨(claimKarma (receipt claim) state phase).1,
        Function.update phases claim (claimKarma (receipt claim) state phase).2⟩ := by
  subst hphase
  exact .work ⟨state, phases⟩ claim

/-- A claim that is accepted goes on to its credit. -/
theorem step_of_accepted {state : CoordinatorState} {phases : R → ClaimPhase} {claim : R}
    (hphase : phases claim = .checkingClient) (haccepted : (receipt claim).Accepted state) :
    Step receipt ⟨state, phases⟩ (.work claim .checkingClient)
      ⟨state, Function.update phases claim .crediting⟩ := by
  have step : Step receipt ⟨state, phases⟩ _ _ := step_of_phase hphase
  rwa [claimKarma_of_accepted haccepted] at step

/-- Two claims with one key that have both passed the replay check are both credited, if
nothing else happens first. -/
theorem credited_twice_of_overlap {state : CoordinatorState} {phases : R → ClaimPhase}
    {first second : R} (hne : first ≠ second)
    (hkey : claimKey receipt first = claimKey receipt second)
    (hfirst : phases first = .checkingClient) (hsecond : phases second = .checkingClient)
    (hacceptedFirst : (receipt first).Accepted state)
    (hacceptedSecond : (receipt second).Accepted state) :
    ∃ events later, Run (Step receipt) ⟨state, phases⟩ events later ∧
      credits receipt (claimKey receipt first) events = 2 := by
  have admitFirst := step_of_accepted hfirst hacceptedFirst
  have hwaits : Function.update phases first .crediting second = .checkingClient := by
    rw [Function.update_of_ne hne.symm, hsecond]
  have admitSecond := step_of_accepted hwaits hacceptedSecond
  have hadmitted : Function.update (Function.update phases first .crediting) second .crediting
      first = .crediting := by
    rw [Function.update_of_ne hne, Function.update_self]
  have creditFirst : Step receipt ⟨state, Function.update (Function.update phases first .crediting)
      second .crediting⟩ _ _ := step_of_phase hadmitted
  have hstill : ∀ phase, Function.update (Function.update (Function.update phases first .crediting)
      second .crediting) first phase second = .crediting := by
    intro phase
    rw [Function.update_of_ne hne.symm, Function.update_self]
  have credited := ((Run.single admitFirst).snoc admitSecond).snoc creditFirst
  refine ⟨_, _, credited.snoc (step_of_phase (hstill _)), ?_⟩
  simp [credits, hkey]

/-- Two claims for one receipt pass the replay check one after the other, and both are
credited. -/
theorem overlapping_claims_credited_twice :
    ∃ events system, Run (Step sameReceipt) twoClaims events system ∧
      credits sameReceipt smallReceipt.receiptKey events = 2 := by
  have checkFirst : Run (Step sameReceipt) twoClaims _ _ :=
    Run.single (.work twoClaims true)
  have checked := checkFirst.snoc (.work _ false)
  have haccepted : smallReceipt.Accepted twoClaims.state := by
    simp [WorkReceipt.Accepted, smallReceipt]
  have hne : true ≠ false := nofun
  have overlap : ∃ events later, Run (Step sameReceipt)
      ⟨twoClaims.state, fun _ => .checkingClient⟩ events later ∧
      credits sameReceipt (claimKey sameReceipt true) events = 2 :=
    credited_twice_of_overlap hne rfl rfl rfl haccepted haccepted
  have hboth : Function.update (Function.update twoClaims.phases true .checkingClient) false
      .checkingClient = fun _ => .checkingClient := by
    funext claim
    cases claim <;> rfl
  obtain ⟨events, system, run, hcredits⟩ := overlap
  rw [← hboth] at run
  refine ⟨_, system, checked.append run, ?_⟩
  rw [credits, List.countP_append]
  exact (Nat.zero_add _).trans hcredits

end HiveBear.Coordinator
