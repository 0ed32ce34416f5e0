/-
# The karma ledger

Claims served one after the other: each runs through all its steps before the next one
arrives, while nodes come and go in between. The karma of a worker is then the sum over the
receipts accepted for it, and a rejected claim changes neither the karma nor the record of
processed receipts.

A receipt is recorded under the text `client:nonce:timestamp`. The timestamp can be read
off that text, since its digits contain no colon, but the client and the nonce cannot: a
receipt whose client and nonce make up the same text as those of an accepted one with the
same timestamp is rejected as a replay of it. Without colons in the names of clients this
does not happen.
-/

import HiveBear.Coordinator.Karma
import Mathlib.Algebra.GroupWithZero.Nat
import Mathlib.Algebra.Order.BigOperators.Group.List
import Mathlib.Data.List.Nodup
import Mathlib.Logic.Function.Iterate

namespace HiveBear.Coordinator

open LabelledRun

/-- Serve a claim without interruption. -/
def serveClaim (receipt : WorkReceipt) (state : CoordinatorState) :
    CoordinatorState × ClaimPhase :=
  Nat.iterate (fun claim => claimKarma receipt claim.1 claim.2) 4 (state, .arrived)

/-- What happens at the coordinator between two claims, or a claim. -/
inductive LedgerEvent
  | claim (receipt : WorkReceipt)
  | nodesChange (nodes : String → Bool)

/-- The maps behind an event. -/
def nextLedger (state : CoordinatorState) : LedgerEvent → CoordinatorState
  | .claim receipt => (serveClaim receipt state).1
  | .nodesChange nodes => { state with nodes := nodes }

/-- A coordinator that has served no claim. -/
def emptyLedger : CoordinatorState := ⟨fun _ => false, fun _ => none, fun _ => false⟩

/-- The maps behind these events. -/
def afterEvents (events : List LedgerEvent) : CoordinatorState :=
  exec nextLedger emptyLedger events

/-- The receipt that an event gets accepted. -/
def awarded (state : CoordinatorState) : LedgerEvent → Option WorkReceipt
  | .claim receipt =>
      match (serveClaim receipt state).2 with
      | .answered (.ok _) => some receipt
      | _ => none
  | .nodesChange _ => none

/-- The receipts accepted in a run, in order. -/
def acceptedReceipts (events : List LedgerEvent) : List WorkReceipt :=
  (outputs nextLedger awarded emptyLedger events).filterMap id

/-- The karma of a worker. -/
def CoordinatorState.balance (state : CoordinatorState) (worker : String) : ℤ :=
  (state.karma worker).getD 0

/-- The tokens of the receipts that name a worker. -/
def earned (worker : String) (receipts : List WorkReceipt) : ℕ :=
  ((receipts.filter fun receipt => receipt.workerNodeId = worker).map
    WorkReceipt.tokensProcessed).sum

/-- The answer to a replay. -/
def replayError : ClaimError := ⟨409, "Receipt already claimed (anti-replay check failed)"⟩

/-- Receipts of one client with one nonce and one timestamp. -/
def WorkReceipt.SameWork (receipt other : WorkReceipt) : Prop :=
  receipt.clientNodeId = other.clientNodeId ∧ receipt.nonce = other.nonce ∧
    receipt.timestamp = other.timestamp

/-- Receipts of different clients whose client and nonce make up one text. -/
def WorkReceipt.Confusable (receipt other : WorkReceipt) : Prop :=
  receipt.timestamp = other.timestamp ∧ receipt.clientNodeId ≠ other.clientNodeId ∧
    receipt.clientNodeId ++ ":" ++ receipt.nonce = other.clientNodeId ++ ":" ++ other.nonce

/-- What a ledger should do in a run. -/
structure LedgerExact (events : List LedgerEvent) : Prop where
  balances : ∀ worker,
    (afterEvents events).balance worker = earned worker (acceptedReceipts events)
  rejected : ∀ before receipt later, events = before ++ .claim receipt :: later →
    ∀ error, (serveClaim receipt (afterEvents before)).2 = .answered (.error error) →
      (afterEvents (before ++ [.claim receipt])).karma = (afterEvents before).karma ∧
      (afterEvents (before ++ [.claim receipt])).processedReceipts =
        (afterEvents before).processedReceipts
  replays : ∀ before receipt later, events = before ++ .claim receipt :: later →
    ((serveClaim receipt (afterEvents before)).2 = .answered (.error replayError) ↔
      ∃ earlier ∈ acceptedReceipts before, earlier.SameWork receipt)

/-! ## Keys -/

/-- Where a separator occurs last, a text splits in one way. -/
theorem append_cons_inj_of_last {A : Type*} {sep : A} {a a' b b' : List A} (hb : sep ∉ b)
    (hb' : sep ∉ b') : a ++ sep :: b = a' ++ sep :: b' ↔ a = a' ∧ b = b' := by
  constructor
  · intro h
    rcases List.append_eq_append_iff.mp h with ⟨mid, rfl, hmid⟩ | ⟨mid, rfl, hmid⟩
    · cases mid with
      | nil => exact ⟨(List.append_nil a).symm, (List.cons.inj hmid).2⟩
      | cons head mid =>
          exact absurd (by rw [(List.cons.inj hmid).2]; simp) hb
    · cases mid with
      | nil => exact ⟨List.append_nil a', (List.cons.inj hmid).2.symm⟩
      | cons head mid =>
          exact absurd (by rw [(List.cons.inj hmid).2]; simp) hb'
  · rintro ⟨rfl, rfl⟩
    rfl

/-- Where a separator occurs first, a text splits in one way. -/
theorem append_cons_inj_of_first {A : Type*} {sep : A} {a a' b b' : List A} (ha : sep ∉ a)
    (ha' : sep ∉ a') (h : a ++ sep :: b = a' ++ sep :: b') : a = a' ∧ b = b' := by
  have hreverse := congrArg List.reverse h
  simp only [List.reverse_append, List.reverse_cons, List.append_assoc, List.singleton_append]
    at hreverse
  rw [append_cons_inj_of_last (List.mem_reverse.not.mpr ha) (List.mem_reverse.not.mpr ha'),
    List.reverse_inj, List.reverse_inj] at hreverse
  exact hreverse.symm

theorem repr_injective {m n : ℕ} (h : m.repr = n.repr) : m = n := by
  have hdigits := congrArg (fun text => Nat.ofDigitChars 10 text.toList 0) h
  simpa only [Nat.toList_repr, Nat.ofDigitChars_ten_toDigits] using hdigits

theorem colon_notMem_repr (n : ℕ) : ':' ∉ n.repr.toList := by
  intro h
  rw [Nat.toList_repr] at h
  exact absurd (Nat.isDigit_of_mem_toDigits (by decide) (by decide) h) (by decide)

/-- Two receipts have one key if they have one timestamp and their clients and nonces make up
one text. -/
theorem receiptKey_eq_iff {receipt other : WorkReceipt} :
    receipt.receiptKey = other.receiptKey ↔ receipt.timestamp = other.timestamp ∧
      receipt.clientNodeId ++ ":" ++ receipt.nonce =
        other.clientNodeId ++ ":" ++ other.nonce := by
  have hkey : ∀ r : WorkReceipt, r.receiptKey.toList =
      (r.clientNodeId ++ ":" ++ r.nonce).toList ++ ':' :: r.timestamp.repr.toList := by
    intro r
    simp [WorkReceipt.receiptKey, toString]
  rw [← String.toList_inj, hkey, hkey, append_cons_inj_of_last (colon_notMem_repr _)
    (colon_notMem_repr _), String.toList_inj, String.toList_inj, and_comm]
  exact and_congr_left' ⟨repr_injective, congrArg Nat.repr⟩

theorem receiptKey_eq_iff_sameWork_or_confusable {receipt other : WorkReceipt} :
    receipt.receiptKey = other.receiptKey ↔
      receipt.SameWork other ∨ receipt.Confusable other := by
  rw [receiptKey_eq_iff]
  constructor
  · rintro ⟨htime, htext⟩
    by_cases hclient : receipt.clientNodeId = other.clientNodeId
    · refine Or.inl ⟨hclient, ?_, htime⟩
      rw [hclient] at htext
      exact (String.append_right_inj _).mp htext
    · exact Or.inr ⟨htime, hclient, htext⟩
  · rintro (⟨hclient, hnonce, htime⟩ | ⟨htime, -, htext⟩)
    · exact ⟨htime, by rw [hclient, hnonce]⟩
    · exact ⟨htime, htext⟩

/-- Without colons in the names of their clients, receipts are not confused. -/
theorem not_confusable_of_colon_notMem {receipt other : WorkReceipt}
    (h : ':' ∉ receipt.clientNodeId.toList) (h' : ':' ∉ other.clientNodeId.toList) :
    ¬ receipt.Confusable other := by
  rintro ⟨-, hne, htext⟩
  have hlists : receipt.clientNodeId.toList ++ ':' :: receipt.nonce.toList =
      other.clientNodeId.toList ++ ':' :: other.nonce.toList := by
    simpa using congrArg String.toList htext
  exact hne (String.toList_inj.mp (append_cons_inj_of_first h h' hlists).1)

/-! ## Serving a claim -/

/-- The maps with a receipt credited and recorded. -/
def CoordinatorState.credit (state : CoordinatorState) (receipt : WorkReceipt) :
    CoordinatorState :=
  { state with
    karma := Function.update state.karma receipt.workerNodeId
      (some (wrapI64 (state.balance receipt.workerNodeId + receipt.tokensProcessed)))
    processedReceipts := Function.update state.processedReceipts receipt.receiptKey true }

/-- What becomes of a claim: its key is recorded, or it is refused, or it is credited. -/
theorem serveClaim_cases (receipt : WorkReceipt) (state : CoordinatorState) :
    (state.processedReceipts receipt.receiptKey = true ∧
        serveClaim receipt state = (state, .answered (.error replayError))) ∨
      (state.processedReceipts receipt.receiptKey = false ∧
        ∃ error, error ≠ replayError ∧
          serveClaim receipt state = (state, .answered (.error error))) ∨
      (state.processedReceipts receipt.receiptKey = false ∧ receipt.tokensProcessed ≤ 100000 ∧
        ∃ award, serveClaim receipt state = (state.credit receipt, .answered (.ok award))) := by
  cases hseen : state.processedReceipts receipt.receiptKey with
  | true =>
      refine Or.inl ⟨rfl, ?_⟩
      simp [serveClaim, claimKarma, hseen, replayError]
  | false =>
      right
      by_cases hclient : state.nodes receipt.clientNodeId = false ∧ 5000 < receipt.tokensProcessed
      · refine Or.inl ⟨rfl, ⟨403, "Client node not recognized for high-token claims"⟩, ?_, ?_⟩
        · simp [replayError]
        · simp [serveClaim, claimKarma, hseen, hclient]
      · by_cases hrange : receipt.tokensProcessed = 0 ∨ 100000 < receipt.tokensProcessed
        · refine Or.inl ⟨rfl, ⟨400, "Invalid token range in work receipt"⟩, ?_, ?_⟩
          · simp [replayError]
          · simp [serveClaim, claimKarma, hseen, hclient, hrange]
        · refine Or.inr ⟨rfl, by omega, ?_⟩
          simp [serveClaim, claimKarma, hseen, hclient, hrange, CoordinatorState.credit,
            CoordinatorState.balance]

/-- A claim is a replay if its key is recorded. -/
theorem serveClaim_replay_iff {receipt : WorkReceipt} {state : CoordinatorState} :
    (serveClaim receipt state).2 = .answered (.error replayError) ↔
      state.processedReceipts receipt.receiptKey = true := by
  rcases serveClaim_cases receipt state with ⟨hseen, hserve⟩ | ⟨hnew, error, hne, hserve⟩ |
    ⟨hnew, -, award, hserve⟩
  · simp [hserve, hseen]
  · simp [hserve, hnew, hne]
  · simp [hserve, hnew]

/-- A rejected claim changes nothing. -/
theorem serveClaim_of_error {receipt : WorkReceipt} {state : CoordinatorState}
    {error : ClaimError} (h : (serveClaim receipt state).2 = .answered (.error error)) :
    (serveClaim receipt state).1 = state := by
  rcases serveClaim_cases receipt state with ⟨-, hserve⟩ | ⟨-, _, -, hserve⟩ |
    ⟨-, -, award, hserve⟩
  · rw [hserve]
  · rw [hserve]
  · rw [hserve] at h
    cases h

/-! ## Runs -/

theorem afterEvents_snoc (events : List LedgerEvent) (event : LedgerEvent) :
    afterEvents (events ++ [event]) = nextLedger (afterEvents events) event :=
  exec_snoc nextLedger emptyLedger events event

theorem acceptedReceipts_snoc (events : List LedgerEvent) (event : LedgerEvent) :
    acceptedReceipts (events ++ [event]) =
      acceptedReceipts events ++ (awarded (afterEvents events) event).toList := by
  have hlast : [awarded (afterEvents events) event].filterMap id =
      (awarded (afterEvents events) event).toList := by
    cases awarded (afterEvents events) event <;> rfl
  rw [← hlast, acceptedReceipts, outputs_append, List.filterMap_append]
  rfl

theorem earned_snoc (worker : String) (receipts : List WorkReceipt) (receipt : WorkReceipt) :
    earned worker (receipts ++ [receipt]) =
      earned worker receipts +
        if receipt.workerNodeId = worker then receipt.tokensProcessed else 0 := by
  rw [earned, List.filter_append, List.map_append, List.sum_append]
  split_ifs with hworker <;> simp [hworker, earned]

theorem earned_le (worker : String) {receipts : List WorkReceipt}
    (h : ∀ receipt ∈ receipts, receipt.tokensProcessed ≤ 100000) :
    earned worker receipts ≤ 100000 * receipts.length := by
  induction receipts using List.reverseRecOn with
  | nil => exact Nat.zero_le _
  | append_singleton receipts receipt ih =>
      have hearlier := ih fun other hother => h other (List.mem_append_left _ hother)
      have hlast := h receipt (List.mem_append_right _ (List.mem_singleton.mpr rfl))
      rw [earned_snoc, List.length_append, List.length_singleton]
      split_ifs <;> omega

/-- A counter that has not run out does not wrap. -/
theorem wrapI64_natCast {n : ℕ} (h : n < 9223372036854775808) : wrapI64 n = n :=
  Int.bmod_eq_of_le (by omega) (by omega)

theorem balance_credit_self (state : CoordinatorState) (receipt : WorkReceipt) :
    (state.credit receipt).balance receipt.workerNodeId =
      wrapI64 (state.balance receipt.workerNodeId + receipt.tokensProcessed) := by
  have hkarma : (state.credit receipt).karma receipt.workerNodeId =
      some (wrapI64 (state.balance receipt.workerNodeId + receipt.tokensProcessed)) :=
    Function.update_self ..
  rw [CoordinatorState.balance, hkarma, Option.getD_some]

theorem balance_credit_of_ne {state : CoordinatorState} {receipt : WorkReceipt} {worker : String}
    (h : worker ≠ receipt.workerNodeId) :
    (state.credit receipt).balance worker = state.balance worker := by
  have hkarma : (state.credit receipt).karma worker = state.karma worker :=
    Function.update_of_ne h ..
  rw [CoordinatorState.balance, hkarma, CoordinatorState.balance]

/-- How the books stand behind these events. -/
structure Booked (events : List LedgerEvent) : Prop where
  recorded : ∀ key, (afterEvents events).processedReceipts key = true ↔
    ∃ receipt ∈ acceptedReceipts events, receipt.receiptKey = key
  distinct : ((acceptedReceipts events).map WorkReceipt.receiptKey).Nodup
  small : ∀ receipt ∈ acceptedReceipts events, receipt.tokensProcessed ≤ 100000
  balances : (acceptedReceipts events).length < 1099511627776 → ∀ worker,
    (afterEvents events).balance worker = earned worker (acceptedReceipts events)

/-- An event that gets nothing accepted and leaves the karma and the record alone. -/
theorem Booked.stay {events : List LedgerEvent} {event : LedgerEvent} (h : Booked events)
    (hnone : awarded (afterEvents events) event = none)
    (hkarma : (afterEvents (events ++ [event])).karma = (afterEvents events).karma)
    (hprocessed : (afterEvents (events ++ [event])).processedReceipts =
      (afterEvents events).processedReceipts) : Booked (events ++ [event]) := by
  have haccepted : acceptedReceipts (events ++ [event]) = acceptedReceipts events := by
    rw [acceptedReceipts_snoc, hnone]
    exact List.append_nil _
  have hbalance : ∀ worker, (afterEvents (events ++ [event])).balance worker =
      (afterEvents events).balance worker := by
    intro worker
    rw [CoordinatorState.balance, hkarma, CoordinatorState.balance]
  exact
    { recorded := by rw [haccepted, hprocessed]; exact h.recorded
      distinct := by rw [haccepted]; exact h.distinct
      small := by rw [haccepted]; exact h.small
      balances := by simpa only [haccepted, hbalance] using h.balances }

/-- A receipt that is credited. -/
theorem Booked.credit {events : List LedgerEvent} {receipt : WorkReceipt} (h : Booked events)
    (hnew : (afterEvents events).processedReceipts receipt.receiptKey = false)
    (hsmall : receipt.tokensProcessed ≤ 100000)
    (haccepted : acceptedReceipts (events ++ [.claim receipt]) =
      acceptedReceipts events ++ [receipt])
    (hafter : afterEvents (events ++ [.claim receipt]) = (afterEvents events).credit receipt) :
    Booked (events ++ [.claim receipt]) where
  recorded key := by
    rw [haccepted, hafter]
    by_cases hkey : key = receipt.receiptKey
    · subst hkey
      simp [CoordinatorState.credit]
    · simp [CoordinatorState.credit, Function.update_of_ne hkey, h.recorded key, Ne.symm hkey,
        or_and_right, exists_or]
  distinct := by
    rw [haccepted, List.map_append, List.map_singleton]
    refine List.nodup_append.mpr ⟨h.distinct, List.nodup_singleton _, ?_⟩
    rintro key hkey _ hlast rfl
    rw [List.mem_singleton.mp hlast, List.mem_map] at hkey
    rw [(h.recorded _).mpr hkey] at hnew
    cases hnew
  small := by
    rw [haccepted]
    intro other hother
    rcases List.mem_append.mp hother with hearlier | hlast
    · exact h.small other hearlier
    · rwa [List.mem_singleton.mp hlast]
  balances := by
    rw [haccepted, hafter, List.length_append, List.length_singleton]
    intro hlength worker
    have hearlier := h.balances (by omega)
    rw [earned_snoc]
    by_cases hworker : receipt.workerNodeId = worker
    · subst hworker
      have hbound := earned_le receipt.workerNodeId h.small
      have hfits : earned receipt.workerNodeId (acceptedReceipts events) +
          receipt.tokensProcessed < 9223372036854775808 := by omega
      rw [if_pos rfl, balance_credit_self, hearlier, ← Int.natCast_add, wrapI64_natCast hfits]
    · rw [if_neg hworker, Nat.add_zero, ← hearlier, balance_credit_of_ne (Ne.symm hworker)]

theorem booked (events : List LedgerEvent) : Booked events := by
  induction events using List.reverseRecOn with
  | nil =>
      exact
        { recorded := fun key => by simp [afterEvents, exec, emptyLedger, acceptedReceipts, outputs]
          distinct := List.nodup_nil
          small := fun receipt h => by cases h
          balances := fun _ worker => rfl }
  | append_singleton events event ih =>
      cases event with
      | nodesChange nodes =>
          refine ih.stay rfl ?_ ?_
          · rw [afterEvents_snoc, nextLedger]
          · rw [afterEvents_snoc, nextLedger]
      | claim receipt =>
          rcases serveClaim_cases receipt (afterEvents events) with ⟨-, hserve⟩ |
            ⟨-, error, -, hserve⟩ | ⟨hnew, hsmall, award, hserve⟩
          · refine ih.stay ?_ ?_ ?_
            · rw [awarded, hserve]
            · rw [afterEvents_snoc, nextLedger, hserve]
            · rw [afterEvents_snoc, nextLedger, hserve]
          · refine ih.stay ?_ ?_ ?_
            · rw [awarded, hserve]
            · rw [afterEvents_snoc, nextLedger, hserve]
            · rw [afterEvents_snoc, nextLedger, hserve]
          · refine ih.credit hnew hsmall ?_ ?_
            · rw [acceptedReceipts_snoc, awarded, hserve]
              rfl
            · rw [afterEvents_snoc, nextLedger, hserve]

/-- Accepted receipts with one key are one receipt. -/
theorem eq_of_accepted {events : List LedgerEvent} {receipt other : WorkReceipt}
    (h : receipt ∈ acceptedReceipts events) (h' : other ∈ acceptedReceipts events)
    (hkey : receipt.receiptKey = other.receiptKey) : receipt = other :=
  List.inj_on_of_nodup_map (booked events).distinct h h' hkey

/-- **The ledger is exact if and only if no claim can be confused** with an accepted one. -/
theorem ledger_exact_iff {events : List LedgerEvent}
    (h : (acceptedReceipts events).length < 2 ^ 40) :
    LedgerExact events ↔
      ∀ before receipt later, events = before ++ .claim receipt :: later →
        ∀ earlier ∈ acceptedReceipts before, ¬ earlier.Confusable receipt := by
  constructor
  · intro hexact before receipt later hsplit earlier hearlier hconfusable
    have hkey := receiptKey_eq_iff_sameWork_or_confusable.mpr (Or.inr hconfusable)
    have hseen := ((booked before).recorded receipt.receiptKey).mpr ⟨earlier, hearlier, hkey⟩
    obtain ⟨other, hother, hsame⟩ := (hexact.replays before receipt later hsplit).mp
      (serveClaim_replay_iff.mpr hseen)
    have hsameKey := receiptKey_eq_iff_sameWork_or_confusable.mpr (Or.inl hsame)
    obtain rfl := eq_of_accepted hearlier hother (hkey.trans hsameKey.symm)
    exact hconfusable.2.1 hsame.1
  · intro hclear
    refine ⟨(booked events).balances (by simpa using h), ?_, ?_⟩
    · intro before receipt later _ error herror
      have hsame := serveClaim_of_error herror
      rw [afterEvents_snoc, nextLedger, hsame]
      exact ⟨rfl, rfl⟩
    · intro before receipt later hsplit
      rw [serveClaim_replay_iff, (booked before).recorded]
      refine exists_congr fun earlier => and_congr_right fun hearlier => ?_
      rw [receiptKey_eq_iff_sameWork_or_confusable]
      exact or_iff_left (hclear before receipt later hsplit earlier hearlier)

/-- A single claim is never confused. -/
theorem ledger_exact_single : LedgerExact [.claim smallReceipt] := by
  refine (ledger_exact_iff (by decide)).mpr ?_
  intro before receipt later hsplit earlier hearlier
  have hlength := congrArg List.length hsplit
  simp only [List.length_append, List.length_cons, List.length_nil] at hlength
  obtain rfl : before = [] := List.length_eq_zero_iff.mp (by omega)
  cases hearlier

/-- Receipts of two clients with one key: the second one is rejected as a replay. -/
theorem confused_claims_not_exact :
    ¬ LedgerExact [.claim ⟨"a:b", "worker", 1, 7, "c"⟩, .claim ⟨"a", "worker", 1, 7, "b:c"⟩] := by
  intro hexact
  obtain ⟨earlier, hearlier, hsame⟩ := (hexact.replays [_] _ [] rfl).mp rfl
  obtain rfl := List.mem_singleton.mp hearlier
  exact absurd hsame.1 (by decide)

end HiveBear.Coordinator
