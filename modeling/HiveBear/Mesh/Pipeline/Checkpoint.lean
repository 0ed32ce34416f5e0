/-
# Activation checkpoints

Each session keeps the checkpoints it saved last, so that a pipeline that lost a peer can be
replayed from one of them. A save at the limit first removes the oldest checkpoint of the
session, found by a scan of the session's map. Where every save of a session is at a later time
and at a further position than the ones before it, the session holds a window of its last
saves.

The scan does not know yet whether the save takes the place of a checkpoint that is there. At
the limit a repeated save therefore costs another checkpoint, unless the one it replaces is
itself the oldest.

The time of a save is an argument, and so is the order in which a map is scanned.
-/

import HiveBear.Library.Entries
import HiveBear.Library.Run
import HiveBear.Library.Selection
import HiveBear.Mesh.Transport.Protocol
import Mathlib.Data.List.DropRight

namespace HiveBear.Mesh

open AList (Listing)
open LabelledRun Selection

/-- A snapshot of the activation tensor at a pipeline stage boundary. -/
structure ActivationCheckpoint where
  tokenPosition : UInt32
  activationData : List UInt8
  shape : List ℕ
  dtype : TensorDtype
  /-- Which layer boundary this checkpoint is from. -/
  sourceLayer : UInt32
  /-- When it was saved. -/
  timestamp : ℕ
  deriving DecidableEq

/-- The checkpoints of a session, by token position. -/
abbrev SessionMap := AList fun _ : UInt32 => ActivationCheckpoint

/-- Activation checkpoints at pipeline stage boundaries. -/
structure CheckpointStore where
  checkpoints : AList fun _ : Uuid => SessionMap
  /-- Maximum checkpoints to keep per session (older ones are evicted). -/
  maxPerSession : ℕ

/-- The order in which a session's map is scanned. -/
abbrev SessionListing := Listing UInt32 ActivationCheckpoint

/-- The position of the oldest checkpoint: the first one found, if there are several. -/
def oldestPosition (listing : SessionListing) (map : SessionMap) : Option UInt32 :=
  (minByKey (fun e => e.2.timestamp) (listing.entries map)).map Prod.fst

namespace CheckpointStore

/-- A store without checkpoints. -/
def new (maxPerSession : ℕ) : CheckpointStore := ⟨∅, maxPerSession⟩

/-- The map of a session, empty if there is none. -/
def sessionMap (store : CheckpointStore) (sessionId : Uuid) : SessionMap :=
  (store.checkpoints.lookup sessionId).getD ∅

/-- Evict the oldest checkpoint if at capacity. -/
def evict (store : CheckpointStore) (listing : SessionListing) (map : SessionMap) : SessionMap :=
  if store.maxPerSession ≤ map.pairs.length then
    match oldestPosition listing map with
    | some oldest => map.erase oldest
    | none => map
  else map

/-- Save a checkpoint for a given session and token position: the arguments of the call and
its time. -/
def save (store : CheckpointStore) (listing : SessionListing) (sessionId : Uuid)
    (checkpoint : ActivationCheckpoint) : CheckpointStore :=
  let map := store.evict listing (store.sessionMap sessionId)
  { store with
    checkpoints :=
      store.checkpoints.insert sessionId (map.insert checkpoint.tokenPosition checkpoint) }

/-- Get the most recent checkpoint for a session. -/
def latest (store : CheckpointStore) (listing : SessionListing) (sessionId : Uuid) :
    Option ActivationCheckpoint :=
  (store.checkpoints.lookup sessionId).bind fun map =>
    maxByKey (fun checkpoint => checkpoint.tokenPosition.toNat)
      ((listing.entries map).map Prod.snd)

/-- Get a specific checkpoint by session and position. -/
def get (store : CheckpointStore) (sessionId : Uuid) (tokenPosition : UInt32) :
    Option ActivationCheckpoint :=
  (store.checkpoints.lookup sessionId).bind fun map => map.lookup tokenPosition

/-- Remove all checkpoints for a session (on teardown). -/
def clearSession (store : CheckpointStore) (sessionId : Uuid) : CheckpointStore :=
  { store with checkpoints := store.checkpoints.erase sessionId }

/-- Total number of checkpoints across all sessions. -/
def totalCheckpoints (store : CheckpointStore) : ℕ :=
  (store.checkpoints.pairs.map fun e => e.2.pairs.length).sum

end CheckpointStore

/-- A call of the store. -/
inductive StoreCall
  | save (listing : SessionListing) (sessionId : Uuid) (checkpoint : ActivationCheckpoint)
  | clearSession (sessionId : Uuid)
  | latest (listing : SessionListing) (sessionId : Uuid)
  | get (sessionId : Uuid) (tokenPosition : UInt32)

namespace StoreCall

/-- The session a call is about. -/
def sessionId : StoreCall → Uuid
  | .save _ sessionId _ => sessionId
  | .clearSession sessionId => sessionId
  | .latest _ sessionId => sessionId
  | .get sessionId _ => sessionId

/-- What a session has saved since it was cleared, after one more call. -/
def record (sessionId : Uuid) (saved : List ActivationCheckpoint) :
    StoreCall → List ActivationCheckpoint
  | .save _ other checkpoint => if other = sessionId then saved ++ [checkpoint] else saved
  | .clearSession other => if other = sessionId then [] else saved
  | .latest _ _ => saved
  | .get _ _ => saved

end StoreCall

/-- The store behind a call. A lookup leaves it as it is. -/
def CheckpointStore.next (store : CheckpointStore) : StoreCall → CheckpointStore
  | .save listing sessionId checkpoint => store.save listing sessionId checkpoint
  | .clearSession sessionId => store.clearSession sessionId
  | .latest _ _ => store
  | .get _ _ => store

/-- The store behind these calls. -/
def CheckpointStore.after (maxPerSession : ℕ) (calls : List StoreCall) : CheckpointStore :=
  exec next (new maxPerSession) calls

/-- The checkpoints a session saved since it was last cleared. -/
def savedBy (sessionId : Uuid) (calls : List StoreCall) : List ActivationCheckpoint :=
  exec (StoreCall.record sessionId) [] calls

/-- Every checkpoint is of a later time and a further position than the ones before it. -/
def Advancing (saved : List ActivationCheckpoint) : Prop :=
  saved.Pairwise fun earlier later =>
    earlier.tokenPosition < later.tokenPosition ∧ earlier.timestamp < later.timestamp

instance (saved : List ActivationCheckpoint) : Decidable (Advancing saved) :=
  inferInstanceAs (Decidable (List.Pairwise _ _))

/-- The session holds the last of the checkpoints it saved. -/
structure HoldsWindow (store : CheckpointStore) (sessionId : Uuid)
    (saved : List ActivationCheckpoint) : Prop where
  get_iff : ∀ position checkpoint, store.get sessionId position = some checkpoint ↔
    checkpoint ∈ saved.rtake store.maxPerSession ∧ checkpoint.tokenPosition = position
  length : (store.sessionMap sessionId).pairs.length = min saved.length store.maxPerSession
  latest : ∀ listing, store.latest listing sessionId = saved.getLast?

namespace CheckpointStore

/-! ## One call -/

variable (store : CheckpointStore) {listing : SessionListing} {sessionId other : Uuid}
  {checkpoint : ActivationCheckpoint} {position : UInt32}

theorem get_eq : store.get sessionId position = (store.sessionMap sessionId).lookup position := by
  rw [get, sessionMap]
  cases store.checkpoints.lookup sessionId <;> rfl

theorem latest_eq : store.latest listing sessionId =
    maxByKey (fun checkpoint => checkpoint.tokenPosition.toNat)
      ((listing.entries (store.sessionMap sessionId)).map Prod.snd) := by
  rw [latest, sessionMap]
  cases store.checkpoints.lookup sessionId with
  | none =>
      have hempty : listing.entries ∅ = [] := (listing.perm ∅).eq_nil
      rw [Option.bind_none, Option.getD_none, hempty]
      rfl
  | some map => rfl

theorem sessionMap_save : (store.save listing sessionId checkpoint).sessionMap other =
    if other = sessionId then
      (store.evict listing (store.sessionMap sessionId)).insert checkpoint.tokenPosition checkpoint
    else store.sessionMap other := by
  rw [sessionMap, save]
  split_ifs with hsame
  · rw [hsame, AList.lookup_insert]
    rfl
  · rw [AList.lookup_insert_ne hsame]
    rfl

theorem sessionMap_clearSession : (store.clearSession sessionId).sessionMap other =
    if other = sessionId then ∅ else store.sessionMap other := by
  rw [sessionMap, clearSession]
  split_ifs with hsame
  · rw [hsame, AList.lookup_erase]
    rfl
  · rw [AList.lookup_erase_ne hsame]
    rfl

/-- A call leaves the other sessions alone. -/
theorem lookup_next (call : StoreCall) (h : other ≠ call.sessionId) :
    (store.next call).checkpoints.lookup other = store.checkpoints.lookup other := by
  cases call with
  | save listing sessionId checkpoint => exact AList.lookup_insert_ne h
  | clearSession sessionId => exact AList.lookup_erase_ne h
  | latest listing sessionId => rfl
  | get sessionId position => rfl

theorem maxPerSession_next (call : StoreCall) :
    (store.next call).maxPerSession = store.maxPerSession := by
  cases call <;> rfl

/-! ## The window of a session -/

/-- A checkpoint under its position. -/
def keyed (checkpoint : ActivationCheckpoint) : UInt32 × ActivationCheckpoint :=
  (checkpoint.tokenPosition, checkpoint)

/-- The map has just these checkpoints. -/
def Has (map : SessionMap) (window : List ActivationCheckpoint) : Prop :=
  map.pairs.Perm (window.map keyed)

variable {map : SessionMap} {window saved : List ActivationCheckpoint}

theorem has_empty : Has ∅ [] := List.Perm.refl []

theorem Has.length (h : Has map window) : map.pairs.length = window.length := by
  rw [List.Perm.length_eq h, List.length_map]

theorem Has.lookup_iff (h : Has map window) : map.lookup position = some checkpoint ↔
    checkpoint ∈ window ∧ checkpoint.tokenPosition = position := by
  rw [← AList.mem_pairs, List.Perm.mem_iff h, List.mem_map]
  constructor
  · rintro ⟨cp, hcp, hkeyed⟩
    cases hkeyed
    exact ⟨hcp, rfl⟩
  · rintro ⟨hcp, rfl⟩
    exact ⟨checkpoint, hcp, rfl⟩

/-- A checkpoint with a new position is added. -/
theorem Has.insert (h : Has map window)
    (hnew : ∀ cp ∈ window, cp.tokenPosition ≠ checkpoint.tokenPosition) :
    Has (map.insert checkpoint.tokenPosition checkpoint) (window ++ [checkpoint]) := by
  have hfresh : checkpoint.tokenPosition ∉ map := by
    rw [← AList.lookup_isSome, Option.isSome_iff_exists]
    rintro ⟨cp, hcp⟩
    obtain ⟨hmem, hposition⟩ := h.lookup_iff.mp hcp
    exact hnew cp hmem hposition
  rw [Has, AList.pairs_insert_of_notMem hfresh, List.map_append]
  exact List.Perm.append_right _ h

/-- The first of a window is its oldest checkpoint. -/
theorem Has.oldestPosition {first : ActivationCheckpoint} (h : Has map (first :: window))
    (hadvancing : Advancing (first :: window)) :
    oldestPosition listing map = some first.tokenPosition := by
  have hentries := (listing.perm map).trans h
  have hleast : minByKey (fun e => e.2.timestamp) (listing.entries map) = some (keyed first) := by
    apply minByKey_of_least (hentries.mem_iff.mpr List.mem_cons_self)
    intro e he hne
    obtain ⟨cp, hcp, rfl⟩ := List.mem_map.mp (hentries.mem_iff.mp he)
    rcases List.mem_cons.mp hcp with rfl | hcp
    · exact absurd rfl hne
    · exact ((List.pairwise_cons.mp hadvancing).1 cp hcp).2
  rw [HiveBear.Mesh.oldestPosition, hleast]
  rfl

/-- One more than the last `n`. -/
theorem rtake_succ {α : Type*} {l : List α} {n : ℕ} (h : n < l.length) :
    ∃ a, l.rtake (n + 1) = a :: l.rtake n := by
  have hlt : l.length - (n + 1) < l.length := by omega
  have hnext : l.length - (n + 1) + 1 = l.length - n := by omega
  refine ⟨l[l.length - (n + 1)], ?_⟩
  rw [List.rtake, List.rtake, List.drop_eq_getElem_cons hlt, hnext]

theorem rtake_of_length_le {α : Type*} {l : List α} {n : ℕ} (h : l.length ≤ n) :
    l.rtake n = l := by
  rw [List.rtake, Nat.sub_eq_zero_of_le h, List.drop_zero]

theorem length_rtake {α : Type*} (l : List α) (n : ℕ) : (l.rtake n).length = min l.length n := by
  rw [List.rtake, List.length_drop]
  omega

/-- Evicting makes room for one more. -/
theorem evict_window {n : ℕ} (hmax : store.maxPerSession = n + 1)
    (h : Has map (saved.rtake (n + 1))) (hadvancing : Advancing saved) :
    Has (store.evict listing map) (saved.rtake n) := by
  have hlength := h.length
  rw [length_rtake] at hlength
  rw [evict, hmax, hlength]
  split_ifs with hfull
  · obtain ⟨first, hfirst⟩ := rtake_succ (l := saved) (n := n) (by omega)
    have hwindow : Advancing (first :: saved.rtake n) := by
      rw [← hfirst]
      exact hadvancing.sublist (List.drop_sublist _ _)
    rw [hfirst] at h
    rw [h.oldestPosition hwindow]
    exact AList.pairs_erase_perm h
  · have hshort : saved.length ≤ n := by omega
    rw [rtake_of_length_le (by omega)] at h
    rwa [rtake_of_length_le hshort]

/-- A save moves the window on by one. -/
theorem save_window {n : ℕ} (hmax : store.maxPerSession = n + 1)
    (h : Has (store.sessionMap sessionId) (saved.rtake (n + 1)))
    (hadvancing : Advancing (saved ++ [checkpoint])) :
    Has ((store.save listing sessionId checkpoint).sessionMap sessionId)
      ((saved ++ [checkpoint]).rtake (n + 1)) := by
  obtain ⟨hsaved, -, hlater⟩ := List.pairwise_append.mp hadvancing
  rw [sessionMap_save, if_pos rfl, List.rtake_concat_succ]
  apply (store.evict_window hmax h hsaved).insert
  intro cp hcp
  have hmem : cp ∈ saved := (List.drop_sublist _ _).mem hcp
  exact UInt32.ne_of_lt (hlater cp hmem checkpoint (List.mem_singleton.mpr rfl)).1

theorem after_snoc (maxPerSession : ℕ) (calls : List StoreCall) (call : StoreCall) :
    after maxPerSession (calls ++ [call]) = (after maxPerSession calls).next call :=
  exec_snoc next (new maxPerSession) calls call

theorem savedBy_snoc (sessionId : Uuid) (calls : List StoreCall) (call : StoreCall) :
    savedBy sessionId (calls ++ [call]) = call.record sessionId (savedBy sessionId calls) :=
  exec_snoc (StoreCall.record sessionId) [] calls call

@[simp]
theorem maxPerSession_after (maxPerSession : ℕ) (calls : List StoreCall) :
    (after maxPerSession calls).maxPerSession = maxPerSession := by
  induction calls using List.reverseRecOn with
  | nil => rfl
  | append_singleton calls call ih => rw [after_snoc, maxPerSession_next, ih]

/-- What a session saved is not changed by calls about others. -/
theorem record_of_ne {call : StoreCall} (h : sessionId ≠ call.sessionId) :
    call.record sessionId saved = saved := by
  cases call with
  | save listing other checkpoint => exact if_neg (Ne.symm h)
  | clearSession other => exact if_neg (Ne.symm h)
  | latest listing other => rfl
  | get other position => rfl

/-- Every run keeps the window. -/
theorem has_window (n : ℕ) {calls : List StoreCall} (h : Advancing (savedBy sessionId calls)) :
    Has ((after (n + 1) calls).sessionMap sessionId) ((savedBy sessionId calls).rtake (n + 1)) := by
  induction calls using List.reverseRecOn with
  | nil =>
      have hnone : savedBy sessionId [] = [] := rfl
      rw [hnone, List.rtake_nil]
      exact has_empty
  | append_singleton calls call ih =>
      rw [savedBy_snoc] at h ⊢
      rw [after_snoc]
      by_cases hsession : sessionId = call.sessionId
      · cases call with
        | save listing other checkpoint =>
            obtain rfl : sessionId = other := hsession
            rw [StoreCall.record, if_pos rfl] at h ⊢
            have hbefore := ih (List.pairwise_append.mp h).1
            exact (after (n + 1) calls).save_window (maxPerSession_after _ _) hbefore h
        | clearSession other =>
            obtain rfl : sessionId = other := hsession
            rw [StoreCall.record, if_pos rfl, next, sessionMap_clearSession, if_pos rfl,
              List.rtake_nil]
            exact has_empty
        | latest listing other => exact ih h
        | get other position => exact ih h
      · rw [record_of_ne hsession] at h ⊢
        rw [sessionMap, lookup_next _ _ hsession]
        exact ih h

/-- The last of a window has the greatest position. -/
theorem Has.latest (h : Has (store.sessionMap sessionId) (saved.rtake store.maxPerSession))
    (hadvancing : Advancing saved) (hmax : 1 ≤ store.maxPerSession) :
    store.latest listing sessionId = saved.getLast? := by
  obtain ⟨n, hn⟩ := Nat.exists_eq_add_of_le' hmax
  have hvalues : ((listing.entries (store.sessionMap sessionId)).map Prod.snd).Perm
      (saved.rtake store.maxPerSession) := by
    have hpairs := ((listing.perm _).trans h).map Prod.snd
    rwa [List.map_map, show Prod.snd ∘ keyed = id from rfl, List.map_id] at hpairs
  rw [latest_eq]
  rcases List.eq_nil_or_concat saved with rfl | ⟨before, last, rfl⟩
  · rw [List.rtake_nil] at hvalues
    rw [hvalues.eq_nil]
    rfl
  · rw [List.concat_eq_append] at hvalues hadvancing ⊢
    rw [hn, List.rtake_concat_succ] at hvalues
    rw [List.getLast?_concat]
    apply maxByKey_of_greatest (hvalues.mem_iff.mpr (List.mem_append_right _ List.mem_cons_self))
    intro cp hcp hne
    rcases List.mem_append.mp (hvalues.mem_iff.mp hcp) with hmem | hmem
    · have hbefore : cp ∈ before := (List.drop_sublist _ _).mem hmem
      obtain ⟨-, -, hlater⟩ := List.pairwise_append.mp hadvancing
      exact UInt32.lt_iff_toNat_lt.mp (hlater cp hbefore last (List.mem_singleton.mpr rfl)).1
    · exact absurd (List.mem_singleton.mp hmem) hne

/-- **The checkpoints of a session are a window of its last saves**, whatever the calls about
other sessions; and no call changes another session. -/
theorem holds_window {maxPerSession : ℕ} (hmax : 1 ≤ maxPerSession) {calls : List StoreCall}
    (h : Advancing (savedBy sessionId calls)) :
    HoldsWindow (after maxPerSession calls) sessionId (savedBy sessionId calls) ∧
      ∀ (store : CheckpointStore) (call : StoreCall) (other : Uuid), other ≠ call.sessionId →
        (store.next call).checkpoints.lookup other = store.checkpoints.lookup other := by
  obtain ⟨n, rfl⟩ := Nat.exists_eq_add_of_le' hmax
  have hwindow : Has ((after (n + 1) calls).sessionMap sessionId)
      ((savedBy sessionId calls).rtake (after (n + 1) calls).maxPerSession) := by
    rw [maxPerSession_after]
    exact has_window n h
  refine ⟨⟨?_, ?_, ?_⟩, fun store call other hother => store.lookup_next call hother⟩
  · intro position checkpoint
    rw [get_eq]
    exact hwindow.lookup_iff
  · rw [hwindow.length, length_rtake]
  · intro listing
    apply hwindow.latest _ h
    rw [maxPerSession_after]
    exact hmax

/-- A checkpoint without data. -/
def emptyCheckpoint (tokenPosition : UInt32) (timestamp : ℕ) : ActivationCheckpoint where
  tokenPosition := tokenPosition
  activationData := []
  shape := []
  dtype := .f16
  sourceLayer := 0
  timestamp := timestamp

/-- Save it, in the order of insertion. -/
def saveEmpty (sessionId : Uuid) (tokenPosition : UInt32) (timestamp : ℕ) : StoreCall :=
  .save .inserted sessionId (emptyCheckpoint tokenPosition timestamp)

/-- Three saves of a session that keeps two checkpoints, and one of another session. -/
theorem holds_window_three :
    (after 2 [saveEmpty 0 0 10, saveEmpty 1 0 11, saveEmpty 0 1 12, saveEmpty 0 2 13]).get 0 0 =
        none ∧
      HoldsWindow
        (after 2 [saveEmpty 0 0 10, saveEmpty 1 0 11, saveEmpty 0 1 12, saveEmpty 0 2 13]) 0
        [emptyCheckpoint 0 10, emptyCheckpoint 1 12, emptyCheckpoint 2 13] :=
  ⟨by decide, (holds_window (by decide) (by decide)).1⟩

/-! ## Saving a position again -/

/-- The save puts its checkpoint in its place and leaves all the others in theirs. -/
def ReplacesOnly (listing : SessionListing) (sessionId : Uuid)
    (checkpoint : ActivationCheckpoint) : Prop :=
  (store.save listing sessionId checkpoint).get sessionId checkpoint.tokenPosition =
      some checkpoint ∧
    ∀ other position, (other, position) ≠ (sessionId, checkpoint.tokenPosition) →
      (store.save listing sessionId checkpoint).get other position = store.get other position

/-- The checkpoint at this position is the oldest of the map, and comes before any other one
of its age. -/
def IsOldest (listing : SessionListing) (map : SessionMap) (position : UInt32) : Prop :=
  ∃ before after old, listing.entries map = before ++ (position, old) :: after ∧
    (∀ e ∈ before, old.timestamp < e.2.timestamp) ∧ ∀ e ∈ after, old.timestamp ≤ e.2.timestamp

/-- The session is not full, or what is evicted is what is replaced. -/
def SparesOthers (listing : SessionListing) (sessionId : Uuid) (position : UInt32) : Prop :=
  (store.sessionMap sessionId).pairs.length < store.maxPerSession ∨
    IsOldest listing (store.sessionMap sessionId) position

theorem oldestPosition_eq_some_iff :
    oldestPosition listing map = some position ↔ IsOldest listing map position := by
  rw [oldestPosition, Option.map_eq_some_iff, IsOldest]
  constructor
  · rintro ⟨⟨position, old⟩, hleast, rfl⟩
    obtain ⟨before, after, hsplit, hbefore, hafter⟩ := minByKey_eq_some_iff.mp hleast
    exact ⟨before, after, old, hsplit, hbefore, hafter⟩
  · rintro ⟨before, after, old, hsplit, hbefore, hafter⟩
    exact ⟨(position, old), minByKey_eq_some_iff.mpr ⟨before, after, hsplit, hbefore, hafter⟩, rfl⟩

/-- A map with a checkpoint has an oldest one. -/
theorem exists_oldestPosition (h : map.lookup position = some checkpoint) :
    ∃ oldest cp, oldestPosition listing map = some oldest ∧ map.lookup oldest = some cp := by
  have hmem := listing.mem_entries.mpr h
  rw [oldestPosition]
  cases hleast : minByKey (fun e => e.2.timestamp) (listing.entries map) with
  | none =>
      rw [minByKey_eq_none_iff.mp hleast] at hmem
      cases hmem
  | some e =>
      obtain ⟨before, after, hsplit, -, -⟩ := minByKey_eq_some_iff.mp hleast
      refine ⟨e.1, e.2, rfl, listing.mem_entries.mp ?_⟩
      rw [hsplit]
      exact List.mem_append_right _ List.mem_cons_self

/-- A save at another position changes what the eviction changes. -/
theorem get_save_of_ne (h : (other, position) ≠ (sessionId, checkpoint.tokenPosition)) :
    (store.save listing sessionId checkpoint).get other position =
      if other = sessionId then
        (store.evict listing (store.sessionMap sessionId)).lookup position
      else store.get other position := by
  rw [get_eq, get_eq, sessionMap_save]
  split_ifs with hsame
  · apply AList.lookup_insert_ne
    rintro rfl
    exact h (by rw [hsame])
  · rfl

/-- When a repeated save replaces only its own checkpoint. -/
theorem replacesOnly_iff {old : ActivationCheckpoint}
    (h : store.get sessionId checkpoint.tokenPosition = some old) :
    store.ReplacesOnly listing sessionId checkpoint ↔
      store.SparesOthers listing sessionId checkpoint.tokenPosition := by
  rw [get_eq] at h
  obtain ⟨oldest, cp, holdest, hcp⟩ := @exists_oldestPosition listing _ _ _ h
  have hself : (store.save listing sessionId checkpoint).get sessionId checkpoint.tokenPosition =
      some checkpoint := by
    rw [get_eq, sessionMap_save, if_pos rfl, AList.lookup_insert]
  rw [ReplacesOnly, SparesOthers, and_iff_right hself]
  by_cases hfull : store.maxPerSession ≤ (store.sessionMap sessionId).pairs.length
  · have hevict : store.evict listing (store.sessionMap sessionId) =
        (store.sessionMap sessionId).erase oldest := by
      rw [evict, if_pos hfull, holdest]
    rw [or_iff_right (Nat.not_lt.mpr hfull), ← oldestPosition_eq_some_iff, holdest,
      Option.some_inj]
    constructor
    · intro hothers
      by_contra hne
      have hgone := hothers sessionId oldest (fun heq => hne (Prod.mk.inj heq).2)
      rw [get_save_of_ne _ (fun heq => hne (Prod.mk.inj heq).2), if_pos rfl, hevict,
        AList.lookup_erase, get_eq, hcp] at hgone
      cases hgone
    · rintro rfl other position hne
      rw [get_save_of_ne _ hne, hevict]
      split_ifs with hsame
      · subst hsame
        rw [get_eq]
        apply AList.lookup_erase_ne
        rintro rfl
        exact hne rfl
      · rfl
  · have hroom : (store.sessionMap sessionId).pairs.length < store.maxPerSession :=
      Nat.not_le.mp hfull
    refine iff_of_true ?_ (Or.inl hroom)
    intro other position hne
    rw [get_save_of_ne _ hne, evict, if_neg hfull]
    split_ifs with hsame
    · rw [hsame, get_eq]
    · rfl

/-- Every repeated save of a run meets a condition. -/
def Resaves (maxPerSession : ℕ) (calls : List StoreCall)
    (P : CheckpointStore → SessionListing → Uuid → ActivationCheckpoint → Prop) : Prop :=
  ∀ before listing sessionId checkpoint old,
    before ++ [.save listing sessionId checkpoint] <+: calls →
      (after maxPerSession before).get sessionId checkpoint.tokenPosition = some old →
        P (after maxPerSession before) listing sessionId checkpoint

/-- **Repeated saves replace only their own checkpoints if and only if each of them finds room
in its session or replaces the oldest checkpoint of it.** -/
theorem resaves_replace_only_iff (maxPerSession : ℕ) (calls : List StoreCall) :
    Resaves maxPerSession calls ReplacesOnly ↔
      Resaves maxPerSession calls fun store listing sessionId checkpoint =>
        store.SparesOthers listing sessionId checkpoint.tokenPosition := by
  constructor
  · intro hreplace before listing sessionId checkpoint old hpart hold
    exact (replacesOnly_iff _ hold).mp (hreplace before listing sessionId checkpoint old hpart hold)
  · intro hspares before listing sessionId checkpoint old hpart hold
    exact (replacesOnly_iff _ hold).mpr (hspares before listing sessionId checkpoint old hpart hold)

/-- A full session whose second checkpoint is saved again loses the first one. -/
theorem resave_evicts_another :
    ¬ ∀ maxPerSession calls, Resaves maxPerSession calls ReplacesOnly := by
  intro h
  have hsave := h 2 [saveEmpty 0 0 10, saveEmpty 0 1 11, saveEmpty 0 1 12]
    [saveEmpty 0 0 10, saveEmpty 0 1 11] .inserted 0 (emptyCheckpoint 1 12) (emptyCheckpoint 1 11)
    (List.prefix_refl _) (by decide)
  exact absurd (hsave.2 0 0 (by decide)) (by decide)

end CheckpointStore

end HiveBear.Mesh
