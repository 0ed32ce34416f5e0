/-
# Reputation

A node keeps a record of every peer that it has verified or counted the uptime of, and derives
a score from it. The records are saved behind every event, and loaded when a manager is
made.

They are saved as a map whose keys are the bytes of a node's key. JSON has no such keys, so
writing fails as soon as there is a record. The error is only logged: a manager that is loaded
has forgotten everybody, and nobody is banned any more.
-/

import HiveBear.Library.Json
import HiveBear.Mesh.Peer
import Mathlib.Analysis.SpecialFunctions.Log.Basic

namespace HiveBear.Mesh

/-- The further float operations of a score. -/
class ReputationOps (F : Type) extends FloatOps F, Sub F, Neg F where
  min : F → F → F
  exp : F → F
  /-- The natural logarithm of two. -/
  ln2 : F
  /-- The closest value between two bounds. -/
  clamp : F → F → F → F

variable {F : Type} [ReputationOps F]

structure ReputationRecord (F : Type) where
  /-- Overall score (0.0 = banned, 1.0 = perfect). -/
  score : F
  verificationsPassed : UInt64
  verificationsFailed : UInt64
  /-- Total uptime in seconds contributed. -/
  uptimeSeconds : UInt64
  /-- Average latency consistency (lower is better). -/
  avgLatencyVarianceMs : F
  /-- Unix timestamp of last interaction. -/
  lastSeen : UInt64

namespace ReputationRecord

/-- A peer nothing is known of. -/
def default : ReputationRecord F where
  score := FloatOps.literal (1 / 2)
  verificationsPassed := 0
  verificationsFailed := 0
  uptimeSeconds := 0
  avgLatencyVarianceMs := FloatOps.literal 0
  lastSeen := 0

/-- Time decay factor: a score decays toward neutral over a week. -/
def decayHalfLifeSecs : F := FloatOps.literal (7 * 24 * 3600)

/-- Recalculate the score based on all factors, at this time. -/
def recalculateScore (record : ReputationRecord F) (now : UInt64) : ReputationRecord F :=
  let totalVerifications := record.verificationsPassed + record.verificationsFailed
  let verificationRate : F :=
    if 0 < totalVerifications then
      FloatOps.ofNat record.verificationsPassed.toNat / FloatOps.ofNat totalVerifications.toNat
    else FloatOps.literal (1 / 2)
  let uptimeBonus : F :=
    ReputationOps.min (FloatOps.ofNat record.uptimeSeconds.toNat / FloatOps.literal 86400)
      (FloatOps.literal 1) * FloatOps.literal (1 / 10)
  let base := verificationRate * FloatOps.literal (8 / 10) + uptimeBonus +
    FloatOps.literal (1 / 10)
  let ageSecs : F := FloatOps.ofNat (now.toNat - record.lastSeen.toNat)
  let decay : F := ReputationOps.exp (-ageSecs / decayHalfLifeSecs * ReputationOps.ln2)
  let score := base * decay + FloatOps.literal (1 / 2) * (FloatOps.literal 1 - decay)
  { record with
    score := ReputationOps.clamp (FloatOps.literal 0) (FloatOps.literal 1) score }

end ReputationRecord

/-- Something that is recorded of a peer, and the times read from the clock meanwhile. -/
inductive ReputationEvent
  | verification (nodeId : NodeId) (passed : Bool) (seen now : UInt64)
  | uptime (nodeId : NodeId) (seconds seen now : UInt64)

/-- Tracks and persists peer reputation scores. -/
structure ReputationManager (F : Type) where
  scores : AList fun _ : List UInt8 => ReputationRecord F
  storagePath : Option String

namespace ReputationManager

def nodeKey (id : NodeId) : List UInt8 := id.bytes

/-- Threshold below which a peer is banned. -/
def banThreshold : F := FloatOps.literal (2 / 10)

variable (manager : ReputationManager F)

/-- What is known of a peer. -/
def record (nodeId : NodeId) : Option (ReputationRecord F) := manager.scores.lookup (nodeKey nodeId)

/-- Get the reputation score for a peer. -/
def score (nodeId : NodeId) : F :=
  ((manager.record nodeId).map ReputationRecord.score).getD (FloatOps.literal (1 / 2))

/-- Check if a peer is banned. -/
def isBanned (nodeId : NodeId) : Bool := FloatOps.lt (manager.score nodeId) banThreshold

/-- Change the record of a peer, and recalculate its score. -/
def update (nodeId : NodeId) (change : ReputationRecord F → ReputationRecord F) (seen now : UInt64) :
    ReputationManager F :=
  let changed := change ((manager.record nodeId).getD ReputationRecord.default)
  { manager with
    scores := manager.scores.insert (nodeKey nodeId)
      ({ changed with lastSeen := seen }.recalculateScore now) }

/-- Record a verification result. -/
def recordVerification (nodeId : NodeId) (passed : Bool) (seen now : UInt64) :
    ReputationManager F :=
  manager.update nodeId
    (fun record =>
      if passed then { record with verificationsPassed := record.verificationsPassed + 1 }
      else { record with verificationsFailed := record.verificationsFailed + 1 })
    seen now

/-- Record uptime contribution. -/
def recordUptime (nodeId : NodeId) (seconds seen now : UInt64) : ReputationManager F :=
  manager.update nodeId
    (fun record => { record with uptimeSeconds := record.uptimeSeconds + seconds }) seen now

/-- The records as JSON: a map whose keys are sequences of bytes. -/
def scoresJson : Json.Codec F (AList fun _ : List UInt8 => ReputationRecord F) :=
  Json.Codec.otherMap

/-- Save the records. What cannot be written is not saved. -/
def save (disk : Json.Disk F) : Json.Disk F :=
  match manager.storagePath with
  | none => disk
  | some path =>
      match scoresJson.write manager.scores with
      | some value => Function.update disk path (.holds value)
      | none => disk

/-- A manager with the records that are saved. -/
def new (storagePath : Option String) (disk : Json.Disk F) : ReputationManager F where
  scores :=
    match storagePath with
    | none => ∅
    | some path => ((disk path).value.bind scoresJson.read).getD ∅
  storagePath := storagePath

/-- Record an event, and save the records. -/
def handle (state : ReputationManager F × Json.Disk F) (event : ReputationEvent) :
    ReputationManager F × Json.Disk F :=
  let manager :=
    match event with
    | .verification nodeId passed seen now => state.1.recordVerification nodeId passed seen now
    | .uptime nodeId seconds seen now => state.1.recordUptime nodeId seconds seen now
  (manager, manager.save state.2)

/-- A manager and its disk behind these events. -/
def run (storagePath : Option String) (disk : Json.Disk F) (events : List ReputationEvent) :
    ReputationManager F × Json.Disk F :=
  events.foldl handle (new storagePath disk, disk)

/-! ## What a restart keeps -/

/-- Every peer has the same record, and so the same score and the same ban status. -/
structure SameReputation (before after : ReputationManager F) : Prop where
  record : ∀ nodeId, after.record nodeId = before.record nodeId
  score : ∀ nodeId, after.score nodeId = before.score nodeId
  isBanned : ∀ nodeId, after.isBanned nodeId = before.isBanned nodeId

omit [ReputationOps F] in
/-- Nothing but an empty map is ever read. -/
theorem read_scoresJson {value : Json.Value F} {scores : AList fun _ => ReputationRecord F}
    (h : scoresJson.read value = some scores) : scores = ∅ := by
  simp only [scoresJson, Json.Codec.otherMap] at h
  split at h
  · cases h
    rfl
  · cases h

omit [ReputationOps F] in
/-- A manager that is made knows nobody. -/
theorem scores_new (storagePath : Option String) (disk : Json.Disk F) :
    (new storagePath disk).scores = ∅ := by
  cases storagePath with
  | none => rfl
  | some path =>
      show ((disk path).value.bind scoresJson.read).getD ∅ = ∅
      cases hread : (disk path).value.bind scoresJson.read with
      | none => rfl
      | some scores =>
          obtain ⟨value, -, hvalue⟩ := Option.bind_eq_some_iff.mp hread
          exact read_scoresJson hvalue

omit [ReputationOps F] in
theorem record_new (storagePath : Option String) (disk : Json.Disk F) (nodeId : NodeId) :
    (new storagePath disk).record nodeId = none := by
  rw [record, scores_new]
  exact AList.lookup_empty (nodeKey nodeId)

theorem run_append (storagePath : Option String) (disk : Json.Disk F)
    (events : List ReputationEvent) (last : ReputationEvent) :
    run storagePath disk (events ++ [last]) = handle (run storagePath disk events) last := by
  rw [run, List.foldl_append]
  rfl

/-- The peer of an event has a record. -/
theorem record_handle (state : ReputationManager F × Json.Disk F) (event : ReputationEvent) :
    ∃ nodeId known, (handle state event).1.record nodeId = some known := by
  cases event with
  | verification nodeId passed seen now => exact ⟨nodeId, _, AList.lookup_insert _⟩
  | uptime nodeId seconds seen now => exact ⟨nodeId, _, AList.lookup_insert _⟩

/-- **Reputation survives a restart only if there is none**: behind any event, somebody's record
is lost. -/
theorem reputation_survives_iff (storagePath : Option String) (disk : Json.Disk F)
    (events : List ReputationEvent) :
    let state := run storagePath disk events
    SameReputation state.1 (new storagePath (state.1.save state.2)) ↔ events = [] := by
  intro state
  constructor
  · intro h
    rcases List.eq_nil_or_concat events with hnone | ⟨earlier, last, hlast⟩
    · exact hnone
    · obtain ⟨nodeId, known, hknown⟩ := record_handle (run storagePath disk earlier) last
      have hstate : state = handle (run storagePath disk earlier) last := by
        rw [← run_append, ← List.concat_eq_append, ← hlast]
      have hsame := h.record nodeId
      rw [record_new, hstate, hknown] at hsame
      cases hsame
  · rintro rfl
    have hrecord : ∀ nodeId, (new storagePath (state.1.save state.2)).record nodeId =
        state.1.record nodeId := by
      intro nodeId
      rw [record_new]
      exact (record_new storagePath disk nodeId).symm
    refine ⟨hrecord, ?_, ?_⟩
    · intro nodeId
      rw [score, score, hrecord]
    · intro nodeId
      rw [isBanned, isBanned, score, score, hrecord]

end ReputationManager

/-! ## A ban that does not survive -/

/-- Exact arithmetic on real numbers. -/
noncomputable instance : ReputationOps ℝ where
  ofNat n := n
  literal q := q
  max a b := if a ≤ b then b else a
  le a b := decide (a ≤ b)
  lt a b := decide (a < b)
  partialCmp a b := some (if a < b then .lt else if b < a then .gt else .eq)
  roundU32 x := Nat.min ⌊x + (1 / 2 : ℚ)⌋.toNat (2 ^ 32 - 1)
  truncU64 x := Nat.min ⌊x⌋.toNat (2 ^ 64 - 1)
  roundU32_lt x := lt_of_le_of_lt (Nat.min_le_right _ _) (by decide)
  truncU64_lt x := lt_of_le_of_lt (Nat.min_le_right _ _) (by decide)
  min a b := if a ≤ b then a else b
  exp := Real.exp
  ln2 := Real.log (2 : ℚ)
  clamp low high x := if x < low then low else if high < x then high else x

/-- One failed verification, with no time gone by, leaves a tenth. -/
theorem score_failed :
    ({ (ReputationRecord.default : ReputationRecord ℝ) with
      verificationsFailed := 1, lastSeen := 1000 }.recalculateScore 1000).score = 1 / 10 := by
  simp only [ReputationRecord.recalculateScore, ReputationRecord.default, FloatOps.ofNat,
    FloatOps.literal, ReputationOps.min, ReputationOps.exp, ReputationOps.clamp]
  norm_num

/-- A peer that fails its first verification is banned, until the node restarts. -/
theorem ban_is_forgotten :
    let peer := NodeId.ofByte 1
    let state := ReputationManager.run (some "reputation.json")
      (fun _ => (.missing : Json.File ℝ)) [.verification peer false 1000 1000]
    state.1.isBanned peer = true ∧
      (ReputationManager.new (some "reputation.json") (state.1.save state.2)).isBanned peer =
        false := by
  intro peer state
  have hscore : state.1.score peer = 1 / 10 := by
    have hrecord : state.1.record peer = some ({ (ReputationRecord.default : ReputationRecord ℝ)
        with verificationsFailed := 1, lastSeen := 1000 }.recalculateScore 1000) :=
      AList.lookup_insert _
    rw [ReputationManager.score, hrecord]
    exact score_failed
  constructor
  · rw [ReputationManager.isBanned, hscore]
    apply decide_eq_true
    norm_num [ReputationManager.banThreshold, FloatOps.literal]
  · rw [ReputationManager.isBanned, ReputationManager.score, ReputationManager.record_new]
    apply decide_eq_false
    norm_num [ReputationManager.banThreshold, FloatOps.literal]

end HiveBear.Mesh
