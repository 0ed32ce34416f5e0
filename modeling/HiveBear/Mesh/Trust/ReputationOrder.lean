/-
# The order of scores

In exact arithmetic a score is a mixture of what a record is worth and the neutral score, and
the share of the neutral score depends on the age of the record alone. What a record is worth
grows with the rate of verifications that the peer passed. So of two records of one age, the
one with one more passed verification has the higher score, and the one with one more failed
verification the lower one.

The verifications are counted in 64 bits. A peer of whom as many verifications are recorded as
a counter can tell apart has none, and with them its ban is forgotten.
-/

import HiveBear.Mesh.Trust.Reputation
import Mathlib.Tactic.Positivity
import Mathlib.Tactic.Linarith

namespace HiveBear.Mesh

namespace ReputationEvent

/-- The peer that the event is recorded of. -/
def peer : ReputationEvent → NodeId
  | .verification nodeId _ _ _ => nodeId
  | .uptime nodeId _ _ _ => nodeId

/-- The event is about this peer. -/
def isOf (nodeId : NodeId) (event : ReputationEvent) : Bool := event.peer = nodeId

/-- When the peer was seen. -/
def seen : ReputationEvent → UInt64
  | .verification _ _ seen _ => seen
  | .uptime _ _ seen _ => seen

/-- When its score is recalculated. -/
def now : ReputationEvent → UInt64
  | .verification _ _ _ now => now
  | .uptime _ _ _ now => now

/-- The seconds between the two readings of the clock. -/
def age (event : ReputationEvent) : ℕ := event.now.toNat - event.seen.toNat

/-- The event is a verification of this peer with this result. -/
def verifies (nodeId : NodeId) (passed : Bool) : ReputationEvent → Bool
  | .verification other result _ _ => other = nodeId ∧ result = passed
  | .uptime _ _ _ _ => false

end ReputationEvent

open ReputationEvent

/-- The recorded verifications of a peer with this result. -/
def verifications (events : List ReputationEvent) (nodeId : NodeId) (passed : Bool) : ℕ :=
  events.countP (verifies nodeId passed)

/-- All recorded verifications of a peer. -/
def allVerifications (events : List ReputationEvent) (nodeId : NodeId) : ℕ :=
  verifications events nodeId true + verifications events nodeId false

/-- The record of a peer has this age, if there is one: that of its last event. -/
def SameAge (events : List ReputationEvent) (nodeId : NodeId) (age : ℕ) : Prop :=
  ∀ event, (events.filter (isOf nodeId)).getLast? = some event →
    event.age = age

instance (events : List ReputationEvent) (nodeId : NodeId) (age : ℕ) :
    Decidable (SameAge events nodeId age) :=
  match h : (events.filter (isOf nodeId)).getLast? with
  | none => isTrue fun event hevent => by rw [h] at hevent; cases hevent
  | some last =>
      decidable_of_iff (last.age = age)
        ⟨fun hage event hevent => by rw [h] at hevent; cases hevent; exact hage,
          fun hall => hall last h⟩

/-- The event is a failed verification, and one of this age if it is of this peer. -/
def FailsAt (nodeId : NodeId) (age : ℕ) (event : ReputationEvent) : Prop :=
  ∃ other seen now, event = .verification other false seen now ∧
    (other = nodeId → now.toNat - seen.toNat = age)

namespace ReputationManager

/-- The score of a peer behind these events. -/
noncomputable def scoreAfter (storagePath : Option String) (disk : Json.Disk ℝ)
    (events : List ReputationEvent) (nodeId : NodeId) : ℝ :=
  (run storagePath disk events).1.score nodeId

/-- The peer is banned behind these events. -/
noncomputable def isBannedAfter (storagePath : Option String) (disk : Json.Disk ℝ)
    (events : List ReputationEvent) (nodeId : NodeId) : Bool :=
  (run storagePath disk events).1.isBanned nodeId

/-- How the score of a peer moves in a history. -/
structure MovesRightly (storagePath : Option String) (disk : Json.Disk ℝ)
    (events : List ReputationEvent) (nodeId : NodeId) : Prop where
  pass : ∀ before seen now, before ++ [.verification nodeId true seen now] <+: events →
    SameAge before nodeId (now.toNat - seen.toNat) →
      scoreAfter storagePath disk before nodeId ≤
        scoreAfter storagePath disk (before ++ [.verification nodeId true seen now]) nodeId
  failure : ∀ before seen now, before ++ [.verification nodeId false seen now] <+: events →
    SameAge before nodeId (now.toNat - seen.toNat) →
      scoreAfter storagePath disk (before ++ [.verification nodeId false seen now]) nodeId ≤
        scoreAfter storagePath disk before nodeId
  range : ∀ before, before <+: events →
    0 ≤ scoreAfter storagePath disk before nodeId ∧ scoreAfter storagePath disk before nodeId ≤ 1
  /-- Failures, of this peer and of others, lift no ban. -/
  ban : ∀ before failures age, before ++ failures <+: events → SameAge before nodeId age →
    (∀ event ∈ failures, FailsAt nodeId age event) →
      isBannedAfter storagePath disk before nodeId = true →
        isBannedAfter storagePath disk (before ++ failures) nodeId = true

/-! ## The score of a record -/

/-- The rate of passed verifications. -/
noncomputable def verificationRate (passed failed : ℕ) : ℝ :=
  if 0 < passed + failed then passed / (passed + failed) else (1 / 2 : ℚ)

/-- What a record is worth at some age. -/
noncomputable def scoreAt (rate : ℝ) (uptimeSeconds : UInt64) (age : ℕ) : ℝ :=
  let uptimeBonus := min ((uptimeSeconds.toNat : ℝ) / 86400) 1 * (1 / 10)
  let decay := Real.exp (-age / (7 * 24 * 3600) * Real.log (2 : ℚ))
  max 0 (min 1 ((rate * (8 / 10) + uptimeBonus + 1 / 10) * decay + (1 / 2 : ℚ) * (1 - decay)))

/-- A higher rate is worth more, at the same age. -/
theorem scoreAt_mono {rate rate' : ℝ} (h : rate ≤ rate') (uptimeSeconds : UInt64) (age : ℕ) :
    scoreAt rate uptimeSeconds age ≤ scoreAt rate' uptimeSeconds age := by
  rw [scoreAt, scoreAt]
  have hdecay : 0 ≤ Real.exp (-age / (7 * 24 * 3600) * Real.log 2) := (Real.exp_pos _).le
  gcongr

theorem scoreAt_nonneg (rate : ℝ) (uptimeSeconds : UInt64) (age : ℕ) :
    0 ≤ scoreAt rate uptimeSeconds age := le_max_left _ _

theorem scoreAt_le_one (rate : ℝ) (uptimeSeconds : UInt64) (age : ℕ) :
    scoreAt rate uptimeSeconds age ≤ 1 := max_le zero_le_one (min_le_left _ _)

/-- Nothing known is neutral at any age. -/
theorem scoreAt_neutral (age : ℕ) : scoreAt (1 / 2) 0 age = 1 / 2 := by
  have hhalf : ((1 / 2 : ℚ) : ℝ) = 1 / 2 := by norm_num
  have hmix : ∀ decay : ℝ, ((1 / 2) * (8 / 10) +
      min (((0 : UInt64).toNat : ℝ) / 86400) 1 * (1 / 10) + 1 / 10) * decay +
        1 / 2 * (1 - decay) = 1 / 2 := by
    intro decay
    have hbonus : min (((0 : UInt64).toNat : ℝ) / 86400) 1 = 0 := by simp
    rw [hbonus]
    ring
  rw [scoreAt, hhalf, hmix]
  norm_num

theorem clamp_eq (x : ℝ) :
    ReputationOps.clamp (FloatOps.literal 0 : ℝ) (FloatOps.literal 1) x = max 0 (min 1 x) := by
  have hclamp : ReputationOps.clamp (FloatOps.literal 0 : ℝ) (FloatOps.literal 1) x =
      if x < ((0 : ℚ) : ℝ) then ((0 : ℚ) : ℝ)
      else if ((1 : ℚ) : ℝ) < x then ((1 : ℚ) : ℝ) else x := rfl
  rw [hclamp, Rat.cast_zero, Rat.cast_one]
  split_ifs with hlow hhigh
  · rw [max_eq_left (min_le_of_right_le hlow.le)]
  · rw [min_eq_left hhigh.le, max_eq_right zero_le_one]
  · rw [min_eq_right (not_lt.mp hhigh), max_eq_right (not_lt.mp hlow)]

/-- Recalculating a score, in exact arithmetic. -/
theorem score_recalculateScore (record : ReputationRecord ℝ) (now : UInt64)
    (h : record.verificationsPassed.toNat + record.verificationsFailed.toNat < 2 ^ 64) :
    (record.recalculateScore now).score =
      scoreAt
        (verificationRate record.verificationsPassed.toNat record.verificationsFailed.toNat)
        record.uptimeSeconds (now.toNat - record.lastSeen.toNat) := by
  have htotal : (record.verificationsPassed + record.verificationsFailed).toNat =
      record.verificationsPassed.toNat + record.verificationsFailed.toNat := by
    rw [UInt64.toNat_add, Nat.mod_eq_of_lt h]
  have hpos : 0 < record.verificationsPassed + record.verificationsFailed ↔
      0 < record.verificationsPassed.toNat + record.verificationsFailed.toNat := by
    rw [UInt64.lt_iff_toNat_lt, htotal]
    rfl
  have hrate : (if 0 < record.verificationsPassed + record.verificationsFailed then
      (FloatOps.ofNat record.verificationsPassed.toNat : ℝ) /
        FloatOps.ofNat (record.verificationsPassed + record.verificationsFailed).toNat
      else FloatOps.literal (1 / 2)) =
      verificationRate record.verificationsPassed.toNat record.verificationsFailed.toNat := by
    rw [verificationRate, htotal]
    refine if_congr hpos ?_ ?_
    · simp [FloatOps.ofNat]
    · simp [FloatOps.literal]
  rw [ReputationRecord.recalculateScore]
  dsimp only
  rw [hrate, clamp_eq, scoreAt]
  simp only [FloatOps.literal, FloatOps.ofNat, ReputationOps.min, ReputationOps.exp,
    ReputationOps.ln2, ReputationRecord.decayHalfLifeSecs, ← min_def]
  norm_num

/-! ## The rate of passed verifications -/

theorem verificationRate_none : verificationRate 0 0 = 1 / 2 := by
  rw [verificationRate, if_neg (lt_irrefl 0)]
  norm_num

theorem verificationRate_pass (passed failed : ℕ) :
    verificationRate passed failed ≤ verificationRate (passed + 1) failed := by
  have hpos : 0 < passed + 1 + failed := by omega
  rw [verificationRate, verificationRate, if_pos hpos]
  have hp : (0 : ℝ) ≤ passed := Nat.cast_nonneg passed
  have hf : (0 : ℝ) ≤ failed := Nat.cast_nonneg failed
  push_cast
  split_ifs with hsome
  · have hsum : (0 : ℝ) < passed + failed := by exact_mod_cast hsome
    rw [div_le_div_iff₀ hsum (by positivity)]
    nlinarith
  · have hnone : passed = 0 ∧ failed = 0 := by omega
    rw [hnone.1, hnone.2]
    norm_num

theorem verificationRate_failure (passed failed : ℕ) :
    verificationRate passed (failed + 1) ≤ verificationRate passed failed := by
  have hpos : 0 < passed + (failed + 1) := by omega
  rw [verificationRate, verificationRate, if_pos hpos]
  have hp : (0 : ℝ) ≤ passed := Nat.cast_nonneg passed
  have hf : (0 : ℝ) ≤ failed := Nat.cast_nonneg failed
  push_cast
  split_ifs with hsome
  · have hsum : (0 : ℝ) < passed + failed := by exact_mod_cast hsome
    apply div_le_div_of_nonneg_left hp hsum
    linarith
  · have hnone : passed = 0 ∧ failed = 0 := by omega
    rw [hnone.1, hnone.2]
    norm_num

/-! ## The record of a peer in a history -/

end ReputationManager

/-- What an event changes of a record. -/
def ReputationEvent.change (event : ReputationEvent) (record : ReputationRecord ℝ) :
    ReputationRecord ℝ :=
  match event with
  | .verification _ passed _ _ =>
      if passed then { record with verificationsPassed := record.verificationsPassed + 1 }
      else { record with verificationsFailed := record.verificationsFailed + 1 }
  | .uptime _ seconds _ _ => { record with uptimeSeconds := record.uptimeSeconds + seconds }

namespace ReputationManager

variable (storagePath : Option String) (disk : Json.Disk ℝ) {events : List ReputationEvent}
  {nodeId : NodeId} {age : ℕ}

/-- What is known of a peer behind these events, a neutral record if nothing is. -/
noncomputable def known (events : List ReputationEvent) (nodeId : NodeId) : ReputationRecord ℝ :=
  ((run storagePath disk events).1.record nodeId).getD ReputationRecord.default

theorem scoreAfter_eq_known : scoreAfter storagePath disk events nodeId =
    (known storagePath disk events nodeId).score := by
  rw [scoreAfter, score, known]
  cases (run storagePath disk events).1.record nodeId <;> rfl

theorem handle_eq (state : ReputationManager ℝ × Json.Disk ℝ) (event : ReputationEvent) :
    (handle state event).1 = state.1.update event.peer event.change event.seen event.now := by
  cases event <;> rfl

/-- The record of the peer of an event. -/
theorem known_snoc (events : List ReputationEvent) (event : ReputationEvent) :
    known storagePath disk (events ++ [event]) event.peer =
      { event.change (known storagePath disk events event.peer) with
        lastSeen := event.seen }.recalculateScore event.now := by
  have hrecord : (run storagePath disk (events ++ [event])).1.record event.peer =
      some ({ event.change (known storagePath disk events event.peer) with
        lastSeen := event.seen }.recalculateScore event.now) := by
    rw [run_append, handle_eq]
    exact AList.lookup_insert _
  rw [known, hrecord]
  rfl

/-- The records of the other peers stay as they are. -/
theorem known_snoc_of_ne {event : ReputationEvent} (h : nodeId ≠ event.peer) :
    known storagePath disk (events ++ [event]) nodeId = known storagePath disk events nodeId := by
  have hkey : nodeKey nodeId ≠ nodeKey event.peer := mt NodeId.eq_of_bytes h
  have hrecord : (run storagePath disk (events ++ [event])).1.record nodeId =
      (run storagePath disk events).1.record nodeId := by
    rw [run_append, handle_eq]
    exact AList.lookup_insert_ne hkey
  rw [known, hrecord, known]

theorem known_nil : known storagePath disk [] nodeId = ReputationRecord.default := by
  have hnone : (run storagePath disk []).1.record nodeId = none :=
    record_new storagePath disk nodeId
  rw [known, hnone]
  rfl

theorem verifications_snoc (events : List ReputationEvent) (event : ReputationEvent)
    (passed : Bool) : verifications (events ++ [event]) nodeId passed =
      verifications events nodeId passed + if event.verifies nodeId passed then 1 else 0 := by
  rw [verifications, List.countP_append, List.countP_singleton, ← verifications]

theorem verifications_snoc_of_ne {event : ReputationEvent} (h : nodeId ≠ event.peer)
    (passed : Bool) :
    verifications (events ++ [event]) nodeId passed = verifications events nodeId passed := by
  have hother : ¬ event.verifies nodeId passed = true := by
    cases event with
    | verification other result seen now =>
        intro hverifies
        exact h (of_decide_eq_true hverifies).1.symm
    | uptime other seconds seen now => exact Bool.noConfusion
  rw [verifications_snoc, if_neg hother, add_zero]

/-- More events are no fewer verifications. -/
theorem allVerifications_le {before : List ReputationEvent} (h : before <+: events) :
    allVerifications before nodeId ≤ allVerifications events nodeId :=
  Nat.add_le_add h.sublist.countP_le h.sublist.countP_le

/-- A counter with room counts one more. -/
theorem toNat_add_one {count : UInt64} (h : count.toNat + 1 < 2 ^ 64) :
    (count + 1).toNat = count.toNat + 1 := by
  rw [UInt64.toNat_add]
  exact Nat.mod_eq_of_lt h

/-- The counters of a record are the numbers of verifications, as long as they fit. -/
theorem counters_known (h : allVerifications events nodeId < 2 ^ 64) :
    (known storagePath disk events nodeId).verificationsPassed.toNat =
        verifications events nodeId true ∧
      (known storagePath disk events nodeId).verificationsFailed.toNat =
        verifications events nodeId false := by
  induction events using List.reverseRecOn with
  | nil =>
      rw [known_nil]
      exact ⟨rfl, rfl⟩
  | append_singleton events event ih =>
      have hle := @allVerifications_le _ nodeId _ (List.prefix_append events [event])
      obtain ⟨hpassed, hfailed⟩ := ih (lt_of_le_of_lt hle h)
      by_cases hpeer : nodeId = event.peer
      · subst hpeer
        have hfits := h
        rw [allVerifications, verifications_snoc, verifications_snoc] at hfits
        rw [known_snoc, verifications_snoc, verifications_snoc, ← hpassed, ← hfailed]
        rw [← hpassed, ← hfailed] at hfits
        cases event with
        | verification other result seen now =>
            cases result with
            | false =>
                simp only [verifies, peer, decide_eq_true_eq, true_and, Bool.false_eq_true,
                  if_false, if_true, add_zero] at hfits ⊢
                exact ⟨rfl, toNat_add_one (by omega)⟩
            | true =>
                simp only [verifies, peer, decide_eq_true_eq, true_and, Bool.true_eq_false,
                  if_false, if_true, add_zero] at hfits ⊢
                exact ⟨toNat_add_one (by omega), rfl⟩
        | uptime other seconds seen now => exact ⟨rfl, rfl⟩
      · rw [known_snoc_of_ne _ _ hpeer, verifications_snoc_of_ne hpeer,
          verifications_snoc_of_ne hpeer]
        exact ⟨hpassed, hfailed⟩

theorem sameAge_snoc (events : List ReputationEvent) (event : ReputationEvent) :
    SameAge (events ++ [event]) event.peer age ↔ event.age = age := by
  have hself : [event].filter (isOf event.peer) = [event] :=
    List.filter_cons_of_pos (decide_eq_true rfl)
  have hlast : ((events ++ [event]).filter (isOf event.peer)).getLast? = some event := by
    rw [List.filter_append, hself, List.getLast?_concat]
  rw [SameAge, hlast]
  constructor
  · intro h
    exact h event rfl
  · intro h other hother
    cases hother
    exact h

theorem sameAge_snoc_of_ne {event : ReputationEvent} (h : nodeId ≠ event.peer) :
    SameAge (events ++ [event]) nodeId age ↔ SameAge events nodeId age := by
  have hnone : [event].filter (isOf nodeId) = [] :=
    List.filter_cons_of_neg fun hpeer => h (of_decide_eq_true hpeer).symm
  rw [SameAge, List.filter_append, hnone, List.append_nil, SameAge]

/-- **The score of a peer is what its record is worth at its age.** -/
theorem scoreAfter_eq (h : allVerifications events nodeId < 2 ^ 64)
    (hage : SameAge events nodeId age) :
    scoreAfter storagePath disk events nodeId =
      scoreAt
        (verificationRate (verifications events nodeId true) (verifications events nodeId false))
        (known storagePath disk events nodeId).uptimeSeconds age := by
  rw [scoreAfter_eq_known]
  induction events using List.reverseRecOn with
  | nil =>
      have hrate : verificationRate (verifications [] nodeId true)
          (verifications [] nodeId false) = 1 / 2 := verificationRate_none
      have hneutral : (ReputationRecord.default : ReputationRecord ℝ).score = 1 / 2 := by
        simp [ReputationRecord.default, FloatOps.literal]
      have huptime : (ReputationRecord.default : ReputationRecord ℝ).uptimeSeconds = 0 := rfl
      rw [known_nil, hrate, hneutral, huptime, scoreAt_neutral]
  | append_singleton events event ih =>
      by_cases hpeer : nodeId = event.peer
      · subst hpeer
        obtain ⟨hpassed, hfailed⟩ := counters_known storagePath disk h
        rw [allVerifications, ← hpassed, ← hfailed] at h
        rw [sameAge_snoc] at hage
        rw [← hpassed, ← hfailed, ← hage]
        rw [known_snoc] at h ⊢
        exact score_recalculateScore _ _ h
      · have hbefore : allVerifications events nodeId < 2 ^ 64 :=
          lt_of_le_of_lt (allVerifications_le (List.prefix_append events [event])) h
        rw [known_snoc_of_ne _ _ hpeer, verifications_snoc_of_ne hpeer,
          verifications_snoc_of_ne hpeer]
        exact ih hbefore ((sameAge_snoc_of_ne hpeer).mp hage)

/-- A verification does not change the uptime. -/
theorem uptimeSeconds_known_snoc (events : List ReputationEvent) (passed : Bool)
    (seen now : UInt64) :
    (known storagePath disk (events ++ [.verification nodeId passed seen now])
      nodeId).uptimeSeconds = (known storagePath disk events nodeId).uptimeSeconds := by
  have hknown := known_snoc storagePath disk events (.verification nodeId passed seen now)
  rw [peer] at hknown
  rw [hknown]
  cases passed <;> rfl

/-- One more verification, at the age of the record. -/
theorem scoreAfter_snoc {passed : Bool} {seen now : UInt64}
    (h : allVerifications (events ++ [.verification nodeId passed seen now]) nodeId < 2 ^ 64) :
    scoreAfter storagePath disk (events ++ [.verification nodeId passed seen now]) nodeId =
      scoreAt
        (verificationRate (verifications events nodeId true + if passed then 1 else 0)
          (verifications events nodeId false + if passed then 0 else 1))
        (known storagePath disk events nodeId).uptimeSeconds (now.toNat - seen.toNat) := by
  have hage : SameAge (events ++ [.verification nodeId passed seen now]) nodeId
      (now.toNat - seen.toNat) :=
    (sameAge_snoc events (.verification nodeId passed seen now)).mpr rfl
  rw [scoreAfter_eq _ _ h hage, uptimeSeconds_known_snoc, verifications_snoc, verifications_snoc]
  cases passed <;> simp [verifies]

/-- One more failure does not raise the score. -/
theorem scoreAfter_failure_le {seen now : UInt64}
    (h : allVerifications (events ++ [.verification nodeId false seen now]) nodeId < 2 ^ 64)
    (hage : SameAge events nodeId (now.toNat - seen.toNat)) :
    scoreAfter storagePath disk (events ++ [.verification nodeId false seen now]) nodeId ≤
      scoreAfter storagePath disk events nodeId := by
  have hbefore := lt_of_le_of_lt (allVerifications_le (List.prefix_append events _)) h
  rw [scoreAfter_snoc _ _ h, scoreAfter_eq _ _ hbefore hage]
  exact scoreAt_mono (verificationRate_failure _ _) _ _

/-- One more pass does not lower the score. -/
theorem scoreAfter_le_pass {seen now : UInt64}
    (h : allVerifications (events ++ [.verification nodeId true seen now]) nodeId < 2 ^ 64)
    (hage : SameAge events nodeId (now.toNat - seen.toNat)) :
    scoreAfter storagePath disk events nodeId ≤
      scoreAfter storagePath disk (events ++ [.verification nodeId true seen now]) nodeId := by
  have hbefore := lt_of_le_of_lt (allVerifications_le (List.prefix_append events _)) h
  rw [scoreAfter_snoc _ _ h, scoreAfter_eq _ _ hbefore hage]
  exact scoreAt_mono (verificationRate_pass _ _) _ _

/-- Every history has some age. -/
theorem exists_sameAge (events : List ReputationEvent) (nodeId : NodeId) :
    ∃ age, SameAge events nodeId age := by
  cases hlast : (events.filter (isOf nodeId)).getLast? with
  | none =>
      refine ⟨0, fun event hevent => ?_⟩
      rw [hlast] at hevent
      cases hevent
  | some last =>
      refine ⟨last.age, fun event hevent => ?_⟩
      rw [hlast] at hevent
      cases hevent
      rfl

/-- No number of failures raises the score. -/
theorem scoreAfter_failures_le {failures : List ReputationEvent}
    (h : allVerifications (events ++ failures) nodeId < 2 ^ 64) (hage : SameAge events nodeId age)
    (hfailures : ∀ event ∈ failures, FailsAt nodeId age event) :
    SameAge (events ++ failures) nodeId age ∧
      scoreAfter storagePath disk (events ++ failures) nodeId ≤
        scoreAfter storagePath disk events nodeId := by
  induction failures using List.reverseRecOn with
  | nil =>
      rw [List.append_nil]
      exact ⟨hage, le_refl _⟩
  | append_singleton failures event ih =>
      rw [← List.append_assoc] at h ⊢
      obtain ⟨hearlier, hlast⟩ := List.forall_mem_append.mp hfailures
      obtain ⟨other, seen, now, rfl, hsame⟩ := hlast event (List.mem_singleton_self _)
      have hbefore := lt_of_le_of_lt (allVerifications_le (List.prefix_append _ _)) h
      obtain ⟨hageBefore, hle⟩ := ih hbefore hearlier
      by_cases hpeer : nodeId = other
      · subst hpeer
        have hnow := hsame rfl
        refine ⟨(sameAge_snoc _ (.verification nodeId false seen now)).mpr hnow, ?_⟩
        rw [← hnow] at hageBefore
        exact (scoreAfter_failure_le storagePath disk h hageBefore).trans hle
      · have hne : nodeId ≠ (ReputationEvent.verification other false seen now).peer := hpeer
        refine ⟨(sameAge_snoc_of_ne hne).mpr hageBefore, ?_⟩
        rw [scoreAfter_eq_known, known_snoc_of_ne _ _ hne, ← scoreAfter_eq_known]
        exact hle

/-- A lower score is banned where a higher one is. -/
theorem isBanned_of_score_le {manager manager' : ReputationManager ℝ} {nodeId nodeId' : NodeId}
    (hle : manager.score nodeId ≤ manager'.score nodeId')
    (hbanned : manager'.isBanned nodeId' = true) : manager.isBanned nodeId = true := by
  have hlow : manager'.score nodeId' < banThreshold := of_decide_eq_true hbanned
  exact decide_eq_true (lt_of_le_of_lt hle hlow)

/-- **Reputation is monotone**, as long as the verifications of the peer can be counted. -/
theorem reputation_moves_rightly (h : allVerifications events nodeId < 2 ^ 64) :
    MovesRightly storagePath disk events nodeId ∧
      ∀ (manager manager' : ReputationManager ℝ) (nodeId nodeId' : NodeId),
        manager.score nodeId ≤ manager'.score nodeId' →
          manager'.isBanned nodeId' = true → manager.isBanned nodeId = true := by
  have hpart : ∀ before, before <+: events → allVerifications before nodeId < 2 ^ 64 :=
    fun before hpart => lt_of_le_of_lt (allVerifications_le hpart) h
  refine ⟨⟨?_, ?_, ?_, ?_⟩, fun _ _ _ _ => isBanned_of_score_le⟩
  · intro before seen now hprefix hage
    exact scoreAfter_le_pass storagePath disk (hpart _ hprefix) hage
  · intro before seen now hprefix hage
    exact scoreAfter_failure_le storagePath disk (hpart _ hprefix) hage
  · intro before hprefix
    obtain ⟨age, hage⟩ := exists_sameAge before nodeId
    rw [scoreAfter_eq _ _ (hpart before hprefix) hage]
    exact ⟨scoreAt_nonneg _ _ _, scoreAt_le_one _ _ _⟩
  · intro before failures age hprefix hage hfailures
    exact isBanned_of_score_le
      (scoreAfter_failures_le storagePath disk (hpart _ hprefix) hage hfailures).2

/-- A verification within a second. -/
def verified (passed : Bool) : ReputationEvent := .verification (.ofByte 1) passed 1000 1000

/-- A failed verification and a passed one. -/
theorem reputation_moves_rightly_mixed :
    MovesRightly none (fun _ => .missing) [verified false, verified true] (.ofByte 1) :=
  (reputation_moves_rightly none (fun _ => .missing) (by decide)).1

theorem verifications_replicate (n : ℕ) :
    verifications (List.replicate n (verified false)) (.ofByte 1) true = 0 ∧
      verifications (List.replicate n (verified false)) (.ofByte 1) false = n := by
  constructor
  · rw [verifications, List.countP_replicate, if_neg (by decide)]
  · rw [verifications, List.countP_replicate, if_pos (by decide)]

theorem uptimeSeconds_replicate (n : ℕ) :
    (known storagePath disk (List.replicate n (verified false)) (.ofByte 1)).uptimeSeconds = 0 := by
  induction n with
  | zero =>
      rw [List.replicate_zero, known_nil]
      rfl
  | succ n ih =>
      rw [List.replicate_succ', verified, uptimeSeconds_known_snoc, ← verified]
      exact ih

theorem sameAge_replicate (n : ℕ) :
    SameAge (List.replicate n (verified false)) (.ofByte 1) 0 := by
  intro event hevent
  have hmem := List.mem_of_mem_filter (List.mem_of_getLast? hevent)
  rw [List.eq_of_mem_replicate hmem]
  rfl

/-- A history of failures alone. -/
theorem scoreAfter_replicate {n : ℕ} (hn : 0 < n) (hfits : n < 2 ^ 64) :
    scoreAfter storagePath disk (List.replicate n (verified false)) (.ofByte 1) = 1 / 10 := by
  obtain ⟨hpass, hfail⟩ := verifications_replicate n
  have hrate : verificationRate 0 n = 0 := by
    rw [verificationRate, if_pos (by omega), Nat.cast_zero, zero_div]
  have hcounts : allVerifications (List.replicate n (verified false)) (.ofByte 1) < 2 ^ 64 := by
    rw [allVerifications, hpass, hfail]
    omega
  rw [scoreAfter_eq _ _ hcounts (sameAge_replicate n), hpass, hfail, hrate,
    uptimeSeconds_replicate, scoreAt]
  norm_num

/-- One more failure than a counter can count leaves no failure. -/
theorem scoreAfter_overflow {n : ℕ} (hn : n + 1 = 2 ^ 64) :
    scoreAfter storagePath disk (List.replicate n (verified false) ++ [verified false])
      (.ofByte 1) = 1 / 2 := by
  obtain ⟨hpass, hfail⟩ := verifications_replicate n
  have hfits : allVerifications (List.replicate n (verified false)) (.ofByte 1) < 2 ^ 64 := by
    rw [allVerifications, hpass, hfail]
    omega
  obtain ⟨hpassed, hfailed⟩ := counters_known storagePath disk hfits
  rw [hpass] at hpassed
  rw [hfail] at hfailed
  have huptime := uptimeSeconds_replicate storagePath disk n
  have hnext : known storagePath disk (List.replicate n (verified false) ++ [verified false])
      (.ofByte 1) = { (verified false).change (known storagePath disk
        (List.replicate n (verified false)) (.ofByte 1)) with
          lastSeen := 1000 }.recalculateScore 1000 :=
    known_snoc storagePath disk (List.replicate n (verified false)) (verified false)
  generalize known storagePath disk (List.replicate n (verified false)) (.ofByte 1) = before
    at hpassed hfailed huptime hnext
  have hchange : (verified false).change before =
      { before with verificationsFailed := before.verificationsFailed + 1 } := rfl
  have hwraps : (before.verificationsFailed + 1).toNat = 0 := by
    rw [UInt64.toNat_add, hfailed]
    exact (congrArg (· % 2 ^ 64) hn).trans (Nat.mod_self _)
  have hroom :
      before.verificationsPassed.toNat + (before.verificationsFailed + 1).toNat < 2 ^ 64 := by
    rw [hpassed, hwraps]
    norm_num
  rw [scoreAfter_eq_known, hnext, hchange, score_recalculateScore _ _ hroom, hpassed, hwraps,
    verificationRate_none, huptime, scoreAt_neutral]

/-- As many failures as a counter can tell apart: the last of them lifts the ban. -/
theorem failures_lift_a_ban :
    ¬ MovesRightly none (fun _ => .missing) (List.replicate (2 ^ 64) (verified false))
      (.ofByte 1) := by
  obtain ⟨n, hn⟩ : ∃ n : ℕ, n + 1 = 2 ^ 64 := ⟨2 ^ 64 - 1, by norm_num⟩
  rw [← hn, List.replicate_succ']
  intro h
  have hle : scoreAfter none (fun _ => .missing)
      (List.replicate n (verified false) ++ [verified false]) (.ofByte 1) ≤
        scoreAfter none (fun _ => .missing) (List.replicate n (verified false)) (.ofByte 1) :=
    h.failure _ 1000 1000 (List.prefix_refl _) (sameAge_replicate n)
  rw [scoreAfter_overflow _ _ hn, scoreAfter_replicate _ _ (by omega) (by omega)] at hle
  norm_num at hle

end ReputationManager

end HiveBear.Mesh
