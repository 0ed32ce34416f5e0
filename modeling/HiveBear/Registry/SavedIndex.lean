/-
# The index and its file

The local index keeps its entries in memory and in a file. An update changes the entries in memory
and then saves them: the new file is written beside the old one and renamed to it, so that a save
that fails leaves the file as it was. The entries in memory are not taken back then.

What is said of an index holds over any sequence of updates, whichever of them can be saved.
-/

import HiveBear.Library.Run
import HiveBear.Registry.Index

namespace HiveBear.Registry

open LabelledRun

/-! ## The file -/

/-- How entries are written and read. -/
structure IndexCodec where
  toStringPretty : List IndexEntry → Except String String
  /-- Nothing if the text cannot be read. -/
  fromStr : String → Option (List IndexEntry)

/-- The entries of a file: none if it cannot be read. -/
def IndexCodec.contents (codec : IndexCodec) (text : String) : List IndexEntry :=
  (codec.fromStr text).getD []

/-- The index in memory, its file, and what is renamed to the file. -/
structure SavedIndex where
  entries : List IndexEntry
  file : Option String
  tmpFile : Option String

/-- Why an index cannot be saved. -/
inductive SaveError
  | io (message : String)
  | json (message : String)

/-- How the operations on files go while an index is saved. What is left of a file that cannot be
written whole may be anything. -/
structure SaveAnswers where
  createDirAll : Except String Unit
  write : Except (String × Option String) Unit
  rename : Except String Unit

/-- Every operation succeeds. -/
def SaveAnswers.succeed (answers : SaveAnswers) : Bool :=
  answers.createDirAll.isOk && answers.write.isOk && answers.rename.isOk

/-- What an update changes. -/
inductive IndexUpdate
  | add (metadata : IndexEntry)
  | remove (modelId : String)

/-- A call of `add` or `remove`, and how it can be saved. -/
structure IndexCall where
  update : IndexUpdate
  answers : SaveAnswers

def IndexUpdate.apply (entries : List IndexEntry) : IndexUpdate → List IndexEntry
  | .add metadata => IndexEntry.upsert entries metadata
  | .remove modelId => IndexEntry.remove entries modelId

namespace IndexUpdate

/-- An update that changes nothing: the entry is there as it is, or no entry has the id. -/
def Idle (entries : List IndexEntry) : IndexUpdate → Prop
  | .add metadata => IndexEntry.find entries metadata.id = some metadata
  | .remove modelId => ∀ entry ∈ entries, entry.id ≠ modelId

theorem upsert_eq_self_iff {entries : List IndexEntry} {metadata : IndexEntry} :
    IndexEntry.upsert entries metadata = entries ↔
      IndexEntry.find entries metadata.id = some metadata := by
  induction entries with
  | nil => simp [IndexEntry.upsert, IndexEntry.find]
  | cons first rest ih =>
      rw [IndexEntry.upsert]
      split_ifs with hsame
      · simp [IndexEntry.find, hsame, eq_comm]
      · rw [IndexEntry.find] at ih ⊢
        rw [List.find?_cons_of_neg (by simpa using hsame), List.cons_inj_right, ih]

theorem apply_eq_self_iff {update : IndexUpdate} {entries : List IndexEntry} :
    update.apply entries = entries ↔ update.Idle entries := by
  cases update with
  | add metadata => exact upsert_eq_self_iff
  | remove modelId =>
      refine List.filter_eq_self.trans ?_
      exact forall₂_congr fun entry _ => decide_eq_true_iff

theorem uniqueIds_apply {entries : List IndexEntry} (h : IndexEntry.UniqueIds entries)
    (update : IndexUpdate) : IndexEntry.UniqueIds (update.apply entries) := by
  cases update with
  | add metadata => exact IndexEntry.uniqueIds_upsert h metadata
  | remove modelId => exact IndexEntry.uniqueIds_remove h modelId

end IndexUpdate

namespace SavedIndex

variable (codec : IndexCodec)

/-- The entries that are found on disk. -/
def reload (index : SavedIndex) : List IndexEntry :=
  match index.file with
  | some text => codec.contents text
  | none => []

/-- An index that is loaded. -/
def load (file tmpFile : Option String) : SavedIndex :=
  { entries := (SavedIndex.mk [] file tmpFile).reload codec, file := file, tmpFile := tmpFile }

def save (index : SavedIndex) (answers : SaveAnswers) : Except SaveError Unit × SavedIndex :=
  match answers.createDirAll with
  | .error message => (.error (.io message), index)
  | .ok _ =>
      match codec.toStringPretty index.entries with
      | .error message => (.error (.json message), index)
      | .ok text =>
          match answers.write with
          | .error (message, left) => (.error (.io message), { index with tmpFile := left })
          | .ok _ =>
              match answers.rename with
              | .error message => (.error (.io message), { index with tmpFile := some text })
              | .ok _ => (.ok (), { index with file := some text, tmpFile := none })

/-- The outcome of a call, and the index behind it. -/
def call (index : SavedIndex) (call : IndexCall) : Except SaveError Unit × SavedIndex :=
  { index with entries := call.update.apply index.entries }.save codec call.answers

def next (index : SavedIndex) (call : IndexCall) : SavedIndex := (index.call codec call).2

/-! ## What is claimed -/

/-- **Atomic.** A call that fails leaves the entries in memory as they were, and they are those
that a reload gives; behind a call that succeeds a reload gives the entries in memory. -/
def Atomic (index : SavedIndex) (call : IndexCall) : Prop :=
  let (outcome, after) := index.call codec call
  match outcome with
  | .error _ => after.entries = index.entries ∧ after.reload codec = after.entries
  | .ok _ => after.reload codec = after.entries

/-- **The condition.** A call that fails would have changed nothing, and what a call that succeeds
has written is read back as it is. -/
def Steady (index : SavedIndex) (call : IndexCall) : Prop :=
  match codec.toStringPretty (call.update.apply index.entries) with
  | .ok text =>
      if call.answers.succeed then codec.contents text = call.update.apply index.entries
      else call.update.Idle index.entries
  | .error _ => call.update.Idle index.entries

/-! ## One call -/

variable {codec}

/-- A save that succeeds has written the entries. -/
theorem save_of_succeed {index : SavedIndex} {answers : SaveAnswers} {text : String}
    (htext : codec.toStringPretty index.entries = .ok text) (h : answers.succeed = true) :
    index.save codec answers = (.ok (), { index with file := some text, tmpFile := none }) := by
  obtain ⟨created, written, renamed⟩ := answers
  cases created <;> cases written <;> cases renamed <;>
    simp [SaveAnswers.succeed, Except.isOk, Except.toBool] at h
  simp only [save, htext]

/-- A save that fails has left the file as it was. -/
theorem save_of_fail {index : SavedIndex} {answers : SaveAnswers}
    (h : (∃ message, codec.toStringPretty index.entries = .error message) ∨
      answers.succeed = false) :
    ∃ error tmpFile, index.save codec answers = (.error error, { index with tmpFile := tmpFile }) := by
  rw [save]
  cases hcreated : answers.createDirAll with
  | error message => exact ⟨_, _, rfl⟩
  | ok created =>
      cases htext : codec.toStringPretty index.entries with
      | error message => exact ⟨_, _, rfl⟩
      | ok text =>
          cases hwritten : answers.write with
          | error failure => exact ⟨_, _, rfl⟩
          | ok written =>
              cases hrenamed : answers.rename with
              | error message => exact ⟨_, _, rfl⟩
              | ok renamed =>
                  rcases h with ⟨message, hmessage⟩ | hfail
                  · rw [htext] at hmessage
                    cases hmessage
                  · simp [SaveAnswers.succeed, hcreated, hwritten, hrenamed, Except.isOk,
                      Except.toBool] at hfail

/-- A call succeeds and has written the new entries, or it fails and has left the file as it was.
The entries in memory are the new ones in any case. -/
theorem call_cases (codec : IndexCodec) (index : SavedIndex) (call : IndexCall) :
    (∃ text, codec.toStringPretty (call.update.apply index.entries) = .ok text ∧
      call.answers.succeed = true ∧
      index.call codec call = (.ok (), ⟨call.update.apply index.entries, some text, none⟩)) ∨
    ((∃ message, codec.toStringPretty (call.update.apply index.entries) = .error message) ∨
        call.answers.succeed = false) ∧
      ∃ error tmpFile,
        index.call codec call =
          (.error error, ⟨call.update.apply index.entries, index.file, tmpFile⟩) := by
  let changed : SavedIndex := { index with entries := call.update.apply index.entries }
  cases htext : codec.toStringPretty changed.entries with
  | error message =>
      exact Or.inr ⟨Or.inl ⟨message, rfl⟩, save_of_fail (Or.inl ⟨message, htext⟩)⟩
  | ok text =>
      cases hsucceed : call.answers.succeed with
      | true => exact Or.inl ⟨text, rfl, rfl, save_of_succeed htext hsucceed⟩
      | false => exact Or.inr ⟨Or.inr rfl, save_of_fail (Or.inr hsucceed)⟩

theorem entries_next (codec : IndexCodec) (index : SavedIndex) (call : IndexCall) :
    (index.next codec call).entries = call.update.apply index.entries := by
  rw [next]
  obtain ⟨text, -, -, hcall⟩ | ⟨-, error, tmpFile, hcall⟩ := call_cases codec index call <;>
    rw [hcall]

/-- An index that agrees with its file. -/
def Agrees (codec : IndexCodec) (index : SavedIndex) : Prop := index.reload codec = index.entries

/-- **One call** of an index that agrees with its file. It is atomic, and leaves an index that
agrees with its file, just if it is steady. -/
theorem call_iff {index : SavedIndex} (h : index.Agrees codec) (call : IndexCall) :
    (index.Atomic codec call ↔ index.Steady codec call) ∧
      ((index.next codec call).Agrees codec ↔ index.Steady codec call) := by
  obtain ⟨text, htext, hsucceed, hcall⟩ | ⟨hfail, error, tmpFile, hcall⟩ :=
    call_cases codec index call
  · have hsteady : index.Steady codec call ↔
        codec.contents text = call.update.apply index.entries := by
      rw [Steady, htext]
      exact iff_of_eq (if_pos hsucceed)
    rw [hsteady, Atomic, next, hcall]
    exact ⟨Iff.rfl, Iff.rfl⟩
  · have hsteady : index.Steady codec call ↔ call.update.apply index.entries = index.entries := by
      rw [IndexUpdate.apply_eq_self_iff, Steady]
      rcases hfail with ⟨message, hmessage⟩ | hfail
      · rw [hmessage]
      · split
        · rw [if_neg (by simp [hfail])]
        · rfl
    have hreload : SavedIndex.reload codec ⟨call.update.apply index.entries, index.file, tmpFile⟩ =
        index.entries := h
    rw [hsteady, Atomic, next, hcall, Agrees]
    dsimp only
    rw [hreload]
    exact ⟨⟨fun hatomic => hatomic.1, fun hsame => ⟨hsame, hsame.symm⟩⟩, eq_comm⟩

/-- Behind an atomic call a reload gives the entries in memory. -/
theorem agrees_of_atomic {index : SavedIndex} {call : IndexCall} (h : index.Atomic codec call) :
    (index.next codec call).Agrees codec := by
  rw [Agrees, next]
  obtain ⟨text, -, -, hcall⟩ | ⟨-, error, tmpFile, hcall⟩ := call_cases codec index call
  · rw [Atomic, hcall] at h
    rw [hcall]
    exact h
  · rw [Atomic, hcall] at h
    rw [hcall]
    exact h.2

/-! ## Runs -/

/-- The index behind these calls, from the one that is loaded. -/
def after (codec : IndexCodec) (file tmpFile : Option String) (calls : List IndexCall) :
    SavedIndex :=
  exec (next codec) (load codec file tmpFile) calls

theorem agrees_of_atomics {file tmpFile : Option String} {calls : List IndexCall}
    (h : ∀ before call, before ++ [call] <+: calls →
      (after codec file tmpFile before).Atomic codec call) :
    ∀ before, before <+: calls → (after codec file tmpFile before).Agrees codec := by
  intro before hbefore
  rcases List.eq_nil_or_concat before with rfl | ⟨earlier, call, rfl⟩
  · rfl
  · rw [List.concat_eq_append] at hbefore ⊢
    rw [after, exec_snoc]
    exact agrees_of_atomic (h earlier call hbefore)

/-- Updates keep ids unique, whether or not they are saved. -/
theorem uniqueIds_after {file tmpFile : Option String}
    (h : IndexEntry.UniqueIds (load codec file tmpFile).entries) (calls : List IndexCall) :
    IndexEntry.UniqueIds (after codec file tmpFile calls).entries := by
  induction calls using List.reverseRecOn with
  | nil => exact h
  | append_singleton calls call ih =>
      rw [after, exec_snoc, entries_next]
      exact IndexUpdate.uniqueIds_apply ih call.update

/-- **Index updates.** From any file, all calls are atomic and no id occurs twice at any time just
if no id occurs twice in what is loaded and every call is steady. -/
theorem index_updates_atomic_iff (codec : IndexCodec) (file tmpFile : Option String)
    (calls : List IndexCall) :
    ((∀ before call, before ++ [call] <+: calls →
        (after codec file tmpFile before).Atomic codec call) ∧
      ∀ before, before <+: calls →
        IndexEntry.UniqueIds (after codec file tmpFile before).entries) ↔
      (∀ before call, before ++ [call] <+: calls →
        (after codec file tmpFile before).Steady codec call) ∧
      IndexEntry.UniqueIds (load codec file tmpFile).entries := by
  have hagrees :
      (∀ before, before <+: calls → (after codec file tmpFile before).Agrees codec) ↔
        ∀ before call, before ++ [call] <+: calls →
          (after codec file tmpFile before).Steady codec call :=
    @exec_invariant_iff _ _ (next codec) (Agrees codec) (Steady codec)
      (fun h => (call_iff h _).2) (load codec file tmpFile) rfl calls
  constructor
  · rintro ⟨hatomic, hunique⟩
    exact ⟨hagrees.mp (agrees_of_atomics hatomic), hunique [] List.nil_prefix⟩
  · rintro ⟨hsteady, hunique⟩
    refine ⟨?_, fun before _ => uniqueIds_after hunique before⟩
    intro before call hpart
    have hbefore : (after codec file tmpFile before).Agrees codec :=
      hagrees.mpr hsteady before ((List.prefix_append before [call]).trans hpart)
    exact (call_iff hbefore call).1.mpr (hsteady before call hpart)

/-- A model is added while the disk is full. -/
def addFails (id : String) : IndexCall where
  update := .add ⟨⟨id, none⟩, id, [], .onDisk false, none, none, [], none, none⟩
  answers := ⟨.ok (), .error ("No space left on device (os error 28)", some ""), .ok ()⟩

/-- The disk is full: whatever is written as JSON, the model that is added stays in memory. -/
theorem failed_save_is_kept :
    ¬ ∃ codec : IndexCodec, ∀ (file tmpFile : Option String) (calls : List IndexCall),
      IndexEntry.UniqueIds (load codec file tmpFile).entries →
      ∀ before call, before ++ [call] <+: calls →
        (after codec file tmpFile before).Atomic codec call := by
  rintro ⟨codec, hatomic⟩
  have hcall := hatomic none none [addFails "m"] List.nodup_nil [] _ (List.prefix_refl _)
  have hsteady := (call_iff (rfl : (load codec none none).Agrees codec) _).1.mp hcall
  have hidle : (addFails "m").update.Idle [] := by
    rw [Steady] at hsteady
    split at hsteady <;> exact hsteady
  cases hidle

end SavedIndex

end HiveBear.Registry
