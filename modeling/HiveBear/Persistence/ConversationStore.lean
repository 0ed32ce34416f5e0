/-
# What the conversation store keeps

Whatever calls are made, and whichever of their statements fail, the messages of a conversation are
numbered from one without gaps, in the order in which they were added. A deleted conversation takes
its messages with it and nothing else, and nothing is added to a conversation that is not there.

To its users the store is a map from identifiers to conversations, each with a title and a list of
messages, and every call changes that map as it says or leaves it alone.
-/

import HiveBear.Library.PartialMaps
import HiveBear.Library.Run
import HiveBear.Persistence.Db
import Mathlib.Logic.Function.Basic

namespace HiveBear.Persistence

open LabelledRun LinkedTables PartialMaps

/-! ## Runs of the store -/

/-- The calls that change the database. -/
inductive Operation
  | create (title modelId : String)
  | add (conversationId : String) (role : MessageRole) (content : String)
    (toolCallJson : Option String)
  | rename (conversationId newTitle : String)
  | delete (conversationId : String)

/-- The database behind a call, whatever the call answers. -/
def after (db : ChatDatabase) (request : Call × Operation) : ChatDatabase :=
  match request.2 with
  | .create title modelId => (createConversation request.1 db title modelId).2
  | .add conversationId role content toolCallJson =>
      (addMessage request.1 db conversationId role content toolCallJson).2
  | .rename conversationId newTitle => (renameConversation request.1 db conversationId newTitle).2
  | .delete conversationId => (deleteConversation request.1 db conversationId).2

/-! ## What a call can do -/

section

variable {call : Call} {db : ChatDatabase} {conversationId : String}

/-- A statement fails, or has the result it has. -/
theorem Call.execute_cases {α : Type} (call : Call) (statement : ℕ) (result : Option α) :
    (∃ e, call.execute statement result = .error e) ∨
      ∃ value, result = some value ∧ call.execute statement result = .ok value := by
  cases hfails : call.fails statement with
  | true => exact Or.inl ⟨.database, by rw [execute.eq_def, if_pos hfails]⟩
  | false =>
      have hrun : call.execute statement result = _ :=
        if_neg (by rw [hfails]; exact Bool.false_ne_true)
      cases result with
      | none => exact Or.inl ⟨.database, hrun⟩
      | some value => exact Or.inr ⟨value, rfl, hrun⟩

/-- What is answered is the result. -/
theorem Call.of_execute {α : Type} {call : Call} {statement : ℕ} {result : Option α} {value : α}
    (h : call.execute statement result = .ok value) : result = some value := by
  rcases call.execute_cases statement result with ⟨e, hfail⟩ | ⟨found, hfound, hrun⟩
  · cases hfail.symm.trans h
  · cases hrun.symm.trans h
    exact hfound

/-- A conversation is inserted, or nothing happens. -/
theorem createConversation_cases (call : Call) (db : ChatDatabase) (title modelId : String) :
    (∃ e, createConversation call db title modelId = (.error e, db)) ∨
      ∃ db', db.insertParent schema ⟨call.id, title, modelId, call.now, call.now⟩ = some db' ∧
        createConversation call db title modelId =
          (.ok ⟨call.id, title, modelId, call.now, call.now, 0⟩, db') := by
  rw [createConversation]
  rcases call.execute_cases 0
    (db.insertParent schema ⟨call.id, title, modelId, call.now, call.now⟩) with
      ⟨e, hfail⟩ | ⟨db', hinsert, hrun⟩
  · rw [hfail]
    exact Or.inl ⟨e, rfl⟩
  · rw [hrun]
    exact Or.inr ⟨db', hinsert, rfl⟩

/-- A message is inserted with the next number, or nothing happens. If it is inserted, the time of
its conversation is written too, unless that statement fails. -/
theorem addMessage_cases (call : Call) (db : ChatDatabase) (conversationId : String)
    (role : MessageRole) (content : String) (toolCallJson : Option String) :
    (∃ e, addMessage call db conversationId role content toolCallJson = (.error e, db)) ∨
      ∃ seq inserted, nextSequence db conversationId = some seq ∧
        db.insertChild schema ⟨call.id, conversationId, role.asStr, content, toolCallJson,
          call.now, seq⟩ = some inserted ∧
        ((∃ e, addMessage call db conversationId role content toolCallJson =
            (.error e, inserted)) ∨
          addMessage call db conversationId role content toolCallJson =
            (.ok ⟨call.id, conversationId, role, content, toolCallJson, call.now, seq⟩,
              (inserted.updateParent schema conversationId (touch call.now)).1)) := by
  rw [addMessage]
  rcases call.execute_cases 0 (nextSequence db conversationId) with
    ⟨e, hfail⟩ | ⟨seq, hseq, hrun⟩
  · rw [hfail]
    exact Or.inl ⟨e, rfl⟩
  rw [hrun]
  dsimp only
  rcases call.execute_cases 1 (db.insertChild schema
    ⟨call.id, conversationId, role.asStr, content, toolCallJson, call.now, seq⟩) with
      ⟨e, hfail⟩ | ⟨inserted, hinsert, hrun⟩
  · rw [hfail]
    exact Or.inl ⟨e, rfl⟩
  rw [hrun]
  refine Or.inr ⟨seq, inserted, hseq, hinsert, ?_⟩
  dsimp only
  rcases call.execute_cases 2
    (some (inserted.updateParent schema conversationId (touch call.now)).1) with
      ⟨e, hfail⟩ | ⟨touched, htouched, hrun⟩
  · rw [hfail]
    exact Or.inl ⟨e, rfl⟩
  · rw [hrun]
    exact Or.inr (Option.some_inj.mp htouched ▸ rfl)

/-- A conversation that is there gets the title, or nothing happens. -/
theorem renameConversation_cases (call : Call) (db : ChatDatabase)
    (conversationId newTitle : String) :
    (∃ e, renameConversation call db conversationId newTitle = (.error e, db)) ∨
      conversationId ∈ db.keys schema ∧
        renameConversation call db conversationId newTitle =
          (.ok (), (db.updateParent schema conversationId (retitle newTitle call.now)).1) := by
  rw [renameConversation]
  rcases call.execute_cases 0
    (some (db.updateParent schema conversationId (retitle newTitle call.now))) with
      ⟨e, hfail⟩ | ⟨updated, hupdated, hrun⟩
  · rw [hfail]
    exact Or.inl ⟨e, rfl⟩
  rw [hrun]
  obtain rfl := Option.some_inj.mp hupdated
  by_cases hcount : (db.updateParent schema conversationId (retitle newTitle call.now)).2 = 0
  · have hsame := updateParent_of_count hcount
    exact Or.inl ⟨.notFound conversationId, (if_pos hcount).trans (congrArg (Prod.mk _) hsame)⟩
  · exact Or.inr ⟨List.count_pos_iff.mp (Nat.pos_of_ne_zero hcount), if_neg hcount⟩

/-- A conversation that is there is deleted, or nothing happens. -/
theorem deleteConversation_cases (call : Call) {db : ChatDatabase} (h : db.Sound schema)
    (conversationId : String) :
    (∃ e, deleteConversation call db conversationId = (.error e, db)) ∨
      conversationId ∈ db.keys schema ∧
        deleteConversation call db conversationId =
          (.ok (), (db.deleteParent schema conversationId).1) := by
  rw [deleteConversation]
  rcases call.execute_cases 0 (some (db.deleteParent schema conversationId)) with
    ⟨e, hfail⟩ | ⟨deleted, hdeleted, hrun⟩
  · rw [hfail]
    exact Or.inl ⟨e, rfl⟩
  rw [hrun]
  obtain rfl := Option.some_inj.mp hdeleted
  by_cases hcount : (db.deleteParent schema conversationId).2 = 0
  · have hsame := h.deleteParent_of_count hcount
    exact Or.inl ⟨.notFound conversationId, (if_pos hcount).trans (congrArg (Prod.mk _) hsame)⟩
  · exact Or.inr ⟨List.count_pos_iff.mp (Nat.pos_of_ne_zero hcount), if_neg hcount⟩

end

/-! ## Numbers -/

/-- The messages of every conversation are numbered from one, in the order of their rows. -/
structure Numbered (db : ChatDatabase) : Prop where
  sound : db.Sound schema
  numbers : ∀ conversationId, (messagesOf db conversationId).map MessageRow.sequenceNum =
    List.range' 1 (messagesOf db conversationId).length

theorem max_range' (n : ℕ) : (List.range' 1 n).max?.getD 0 = n := by
  cases n with
  | zero => rfl
  | succ n =>
      have hmax : (List.range' 1 (n + 1)).max? = some (n + 1) := by
        rw [List.max?_eq_some_iff]
        constructor
        · rw [List.mem_range'_1]
          omega
        · intro number hnumber
          rw [List.mem_range'_1] at hnumber
          omega
      rw [hmax, Option.getD_some]

section

variable {db db' : ChatDatabase}

/-- The next number is one more than there are messages. -/
theorem Numbered.nextSequence (h : Numbered db) {conversationId : String} {seq : ℕ}
    (hseq : nextSequence db conversationId = some seq) :
    seq = (messagesOf db conversationId).length + 1 := by
  rw [Persistence.nextSequence, h.numbers, max_range'] at hseq
  split at hseq
  · exact (Option.some_inj.mp hseq).symm
  · cases hseq

/-- Numbers depend on the messages only. -/
theorem Numbered.of_children (h : Numbered db) (hsound : db'.Sound schema)
    (hchildren : db'.children = db.children) : Numbered db' := by
  refine ⟨hsound, fun conversationId => ?_⟩
  have hmessages : messagesOf db' conversationId = messagesOf db conversationId := by
    rw [messagesOf, messagesOf, childrenOf, childrenOf, hchildren]
  rw [hmessages]
  exact h.numbers conversationId

/-- A message that is inserted with the next number. -/
theorem Numbered.insertChild (h : Numbered db) {row : MessageRow}
    (hseq : row.sequenceNum = (messagesOf db row.conversationId).length + 1)
    (hinsert : db.insertChild schema row = some db') : Numbered db' := by
  refine ⟨h.sound.insertChild hinsert, fun conversationId => ?_⟩
  have hmessages : messagesOf db' conversationId = _ :=
    childrenOf_insertChild hinsert conversationId
  rw [hmessages]
  change (messagesOf db conversationId ++ _).map _ =
    List.range' 1 (messagesOf db conversationId ++ _).length
  split
  · rename_i hsame
    obtain rfl : row.conversationId = conversationId := hsame
    rw [List.map_append, List.length_append, h.numbers, List.map_singleton, hseq,
      List.length_singleton, List.range'_concat, Nat.one_mul, Nat.add_comm 1]
  · rw [List.append_nil]
    exact h.numbers conversationId

theorem Numbered.deleteParent (h : Numbered db) (conversationId : String) :
    Numbered (db.deleteParent schema conversationId).1 := by
  refine ⟨h.sound.deleteParent conversationId, fun other => ?_⟩
  rw [messagesOf, h.sound.childrenOf_deleteParent]
  split
  · rfl
  · exact h.numbers other

/-- Changes of a conversation that keep its identifier. -/
theorem Numbered.updateParent (h : Numbered db) {change : ConversationRow → ConversationRow}
    (hchange : ∀ row, (change row).id = row.id) (conversationId : String) :
    Numbered (db.updateParent schema conversationId change).1 :=
  h.of_children (h.sound.updateParent hchange conversationId) rfl

/-- Every call keeps the messages numbered. -/
theorem numbered_after (h : Numbered db) (request : Call × Operation) :
    Numbered (after db request) := by
  obtain ⟨call, operation⟩ := request
  cases operation with
  | create title modelId =>
      change Numbered (createConversation call db title modelId).2
      rcases createConversation_cases call db title modelId with ⟨e, hfail⟩ | ⟨db', hinsert, hrun⟩
      · rw [hfail]
        exact h
      · rw [hrun]
        have hsound := h.sound.insertParent hinsert
        obtain ⟨-, rfl⟩ := insertParent_eq_some_iff.mp hinsert
        exact h.of_children hsound rfl
  | add conversationId role content toolCallJson =>
      change Numbered (addMessage call db conversationId role content toolCallJson).2
      rcases addMessage_cases call db conversationId role content toolCallJson with
        ⟨e, hfail⟩ | ⟨seq, inserted, hseq, hinsert, hrun⟩
      · rw [hfail]
        exact h
      · have hinserted := h.insertChild (h.nextSequence hseq) hinsert
        rcases hrun with ⟨e, hrun⟩ | hrun
        · rw [hrun]
          exact hinserted
        · rw [hrun]
          have hid (row : ConversationRow) : (touch call.now row).id = row.id := rfl
          exact hinserted.updateParent hid conversationId
  | rename conversationId newTitle =>
      change Numbered (renameConversation call db conversationId newTitle).2
      rcases renameConversation_cases call db conversationId newTitle with ⟨e, hfail⟩ | ⟨-, hrun⟩
      · rw [hfail]
        exact h
      · rw [hrun]
        have hid (row : ConversationRow) : (retitle newTitle call.now row).id = row.id := rfl
        exact h.updateParent hid conversationId
  | delete conversationId =>
      change Numbered (deleteConversation call db conversationId).2
      rcases deleteConversation_cases call h.sound conversationId with ⟨e, hfail⟩ | ⟨-, hrun⟩
      · rw [hfail]
        exact h
      · rw [hrun]
        exact h.deleteParent conversationId

theorem numbered_openInMemory : Numbered openInMemory where
  sound := ⟨rfl, List.nodup_nil, List.nodup_nil, fun _ hrow => absurd hrow List.not_mem_nil⟩
  numbers := fun _ => rfl

/-- The messages are numbered behind any calls. -/
theorem numbered_exec (requests : List (Call × Operation)) :
    Numbered (exec after openInMemory requests) := by
  exact @exec_invariant _ _ after Numbered (fun _ _ => True) (fun h _ => numbered_after h _) _
    numbered_openInMemory requests fun _ _ _ => trivial

end

/-! ## The store as a map -/

/-- What a message says. -/
structure Entry where
  role : String
  content : String
  toolCallJson : Option String

/-- A conversation as its users see it. -/
structure Thread where
  title : String
  messages : List Entry

abbrev Contents := String → Option Thread

/-- What the calls are for. -/
def Operation.apply (newId : String) (operation : Operation) (contents : Contents) : Contents :=
  match operation with
  | .create title _ =>
      if (contents newId).isSome then contents
      else Function.update contents newId (some ⟨title, []⟩)
  | .add conversationId role content toolCallJson =>
      Function.update contents conversationId ((contents conversationId).map fun thread =>
        { thread with messages := thread.messages ++ [⟨role.asStr, content, toolCallJson⟩] })
  | .rename conversationId newTitle =>
      Function.update contents conversationId ((contents conversationId).map fun thread =>
        { thread with title := newTitle })
  | .delete conversationId => Function.update contents conversationId none

def MessageRow.entry (row : MessageRow) : Entry := ⟨row.role, row.content, row.toolCallJson⟩

/-- The contents of a database. -/
def contents (db : ChatDatabase) : Contents := fun conversationId =>
  (db.parents.find? fun row => row.id = conversationId).map fun row =>
    ⟨row.title, (messagesOf db conversationId).map MessageRow.entry⟩

section

variable {db db' : ChatDatabase}

theorem contents_eq_none_iff {conversationId : String} :
    contents db conversationId = none ↔ conversationId ∉ db.keys schema := by
  rw [contents, Option.map_eq_none_iff, List.find?_eq_none, keys, List.mem_map, not_exists]
  simp only [decide_eq_true_eq, not_and]
  rfl

theorem contents_insertParent (h : db.Sound schema) {row : ConversationRow}
    (hinsert : db.insertParent schema row = some db') :
    contents db' = Function.update (contents db) row.id (some ⟨row.title, []⟩) := by
  obtain ⟨hkey, rfl⟩ := insertParent_eq_some_iff.mp hinsert
  funext conversationId
  by_cases hsame : conversationId = row.id
  · subst hsame
    have hnone : db.parents.find? (fun other => other.id = row.id) = none := by
      have hcontents := contents_eq_none_iff.mpr hkey
      exact Option.map_eq_none_iff.mp hcontents
    have hmessages : messagesOf db row.id = [] := h.childrenOf_eq_nil hkey
    rw [Function.update_self]
    change ((db.parents ++ [row]).find? _).map _ = _
    rw [List.find?_append, hnone, Option.none_or, List.find?_cons_of_pos (by simp)]
    change some (Thread.mk row.title ((messagesOf db row.id).map _)) = _
    rw [hmessages]
    rfl
  · have hrow : [row].find? (fun other => other.id = conversationId) = none :=
      List.find?_eq_none.mpr fun other hother => by
        rw [List.mem_singleton.mp hother, decide_eq_true_eq]
        exact fun h => hsame h.symm
    rw [Function.update_of_ne hsame]
    change ((db.parents ++ [row]).find? _).map _ = (db.parents.find? _).map _
    rw [List.find?_append, hrow, Option.or_none]
    rfl

theorem contents_updateParent {change : ConversationRow → ConversationRow}
    {newTitle : String → String} (hid : ∀ row, (change row).id = row.id)
    (htitle : ∀ row, (change row).title = newTitle row.title) (conversationId : String) :
    contents (db.updateParent schema conversationId change).1 =
      Function.update (contents db) conversationId ((contents db conversationId).map fun thread =>
        { thread with title := newTitle thread.title }) := by
  funext other
  change ((db.parents.map fun row => if row.id = conversationId then change row else row).find?
    _).map _ = _
  have hfind : (fun row : ConversationRow => decide (row.id = other)) ∘
      (fun row => if row.id = conversationId then change row else row) =
        fun row => decide (row.id = other) := by
    funext row
    rw [Function.comp_apply]
    split
    · rw [hid]
    · rfl
  rw [List.find?_map, hfind, Option.map_map]
  by_cases hsame : other = conversationId
  · subst hsame
    rw [Function.update_self, contents, Option.map_map]
    cases hrow : db.parents.find? (fun row => row.id = other) with
    | none => rfl
    | some row =>
        have hmatch : row.id = other := by simpa using List.find?_some hrow
        rw [Option.map_some, Option.map_some, Function.comp_apply, if_pos hmatch, htitle]
        rfl
  · rw [Function.update_of_ne hsame, contents]
    cases hrow : db.parents.find? (fun row => row.id = other) with
    | none => rfl
    | some row =>
        have hmatch : row.id = other := by simpa using List.find?_some hrow
        have hother : row.id ≠ conversationId := fun h => hsame (hmatch.symm.trans h)
        rw [Option.map_some, Option.map_some, Function.comp_apply, if_neg hother]
        rfl

theorem contents_insertChild {row : MessageRow} (hinsert : db.insertChild schema row = some db') :
    contents db' =
      Function.update (contents db) row.conversationId
        ((contents db row.conversationId).map fun thread =>
          { thread with messages := thread.messages ++ [row.entry] }) := by
  funext other
  have hmessages : messagesOf db' other = _ := childrenOf_insertChild hinsert other
  obtain ⟨-, -, rfl⟩ := insertChild_eq_some_iff.mp hinsert
  change (db.parents.find? _).map _ = _
  rw [hmessages]
  by_cases hsame : other = row.conversationId
  · subst hsame
    have hreference : schema.reference row = row.conversationId := rfl
    rw [Function.update_self, contents, Option.map_map, if_pos hreference]
    apply congrArg (Option.map · _)
    funext conversation
    rw [List.map_append]
    rfl
  · have hother : schema.reference row ≠ other := fun h => hsame h.symm
    rw [Function.update_of_ne hsame, if_neg hother, List.append_nil]
    rfl

theorem contents_deleteParent (h : db.Sound schema) (conversationId : String) :
    contents (db.deleteParent schema conversationId).1 =
      Function.update (contents db) conversationId none := by
  funext other
  have hmessages := h.childrenOf_deleteParent conversationId other
  by_cases hsame : other = conversationId
  · subst hsame
    rw [Function.update_self, contents_eq_none_iff, keys_deleteParent, List.mem_filter]
    exact fun hmem => of_decide_eq_true hmem.2 rfl
  · rw [if_neg hsame] at hmessages
    rw [Function.update_of_ne hsame, contents, contents, messagesOf, hmessages]
    apply congrArg (Option.map _)
    change (db.parents.filter _).find? _ = _
    rw [List.find?_filter]
    apply congrArg (List.find? · db.parents)
    funext row
    by_cases hrow : row.id = other
    · simp [hrow, hsame, schema]
    · simp [hrow]

/-- **Every call does what it is for, or nothing.** -/
theorem contents_after (h : Numbered db) (request : Call × Operation) :
    contents (after db request) = contents db ∨
      contents (after db request) = request.2.apply request.1.id (contents db) := by
  obtain ⟨call, operation⟩ := request
  cases operation with
  | create title modelId =>
      have hafter : after db (call, .create title modelId) =
          (createConversation call db title modelId).2 := rfl
      rw [hafter]
      rcases createConversation_cases call db title modelId with ⟨e, hfail⟩ | ⟨db', hinsert, hrun⟩
      · rw [hfail]
        exact Or.inl rfl
      · rw [hrun]
        have hfresh : contents db call.id = none :=
          contents_eq_none_iff.mpr (insertParent_eq_some_iff.mp hinsert).1
        have happly : (Operation.create title modelId).apply call.id (contents db) = _ :=
          if_neg (by rw [hfresh]; exact Bool.false_ne_true)
        exact Or.inr ((contents_insertParent h.sound hinsert).trans happly.symm)
  | add conversationId role content toolCallJson =>
      have hafter : after db (call, .add conversationId role content toolCallJson) =
          (addMessage call db conversationId role content toolCallJson).2 := rfl
      rw [hafter]
      rcases addMessage_cases call db conversationId role content toolCallJson with
        ⟨e, hfail⟩ | ⟨seq, inserted, -, hinsert, hrun⟩
      · rw [hfail]
        exact Or.inl rfl
      · have hinserted := contents_insertChild hinsert
        rcases hrun with ⟨e, hrun⟩ | hrun
        · rw [hrun]
          exact Or.inr hinserted
        · rw [hrun]
          have htouched := @contents_updateParent inserted (touch call.now) id (fun _ => rfl)
            (fun _ => rfl) conversationId
          refine Or.inr (htouched.trans ?_)
          simp only [id_eq, Option.map_id', Function.update_eq_self]
          exact hinserted
  | rename conversationId newTitle =>
      have hafter : after db (call, .rename conversationId newTitle) =
          (renameConversation call db conversationId newTitle).2 := rfl
      rw [hafter]
      rcases renameConversation_cases call db conversationId newTitle with ⟨e, hfail⟩ | ⟨-, hrun⟩
      · rw [hfail]
        exact Or.inl rfl
      · rw [hrun]
        exact Or.inr (@contents_updateParent db (retitle newTitle call.now) (fun _ => newTitle)
          (fun _ => rfl) (fun _ => rfl) conversationId)
  | delete conversationId =>
      have hafter : after db (call, .delete conversationId) =
          (deleteConversation call db conversationId).2 := rfl
      rw [hafter]
      rcases deleteConversation_cases call h.sound conversationId with ⟨e, hfail⟩ | ⟨-, hrun⟩
      · rw [hfail]
        exact Or.inl rfl
      · rw [hrun]
        exact Or.inr (contents_deleteParent h.sound conversationId)

/-- Behind any calls the store holds what some of them are for, in their order. -/
theorem contents_exec (requests : List (Call × Operation)) :
    ∃ done, done.Sublist requests ∧
      contents (exec after openInMemory requests) =
        exec (fun contents request => request.2.apply request.1.id contents) (fun _ => none)
          done := by
  induction requests using List.reverseRecOn with
  | nil => exact ⟨[], List.Sublist.refl [], rfl⟩
  | append_singleton requests request ih =>
      obtain ⟨done, hsub, hdone⟩ := ih
      rcases contents_after (numbered_exec requests) request with hsame | happly
      · refine ⟨done, hsub.trans (List.sublist_append_left requests [request]), ?_⟩
        rw [exec_snoc, hsame, hdone]
      · refine ⟨done ++ [request], hsub.append_right [request], ?_⟩
        rw [exec_snoc, exec_snoc, happly, hdone]

end

/-! ## What is read -/

section

variable {db : ChatDatabase}

/-- Messages ordered by number are in the order in which they were inserted. -/
theorem Numbered.sortBy_messages (h : Numbered db) (conversationId : String) :
    StableSort.sortBy (fun a b => compare a.sequenceNum b.sequenceNum)
      (messagesOf db conversationId) = messagesOf db conversationId := by
  apply StableSort.sortBy_eq_self
  have hnumbers : ((messagesOf db conversationId).map MessageRow.sequenceNum).Pairwise (· < ·) := by
    rw [h.numbers]
    exact List.pairwise_lt_range'
  refine (List.pairwise_map.mp hnumbers).imp fun hlt => ?_
  rw [Nat.compare_eq_lt.mpr hlt]
  exact Ordering.noConfusion

/-- A row is read if the number of its messages fits. -/
theorem readConversation_eq_some_iff {row : ConversationRow} {conversation : Conversation} :
    readConversation db row = some conversation ↔
      (messagesOf db row.id).length < 2 ^ 32 ∧ conversation = ⟨row.id, row.title, row.modelId,
        row.createdAt, row.updatedAt, (messagesOf db row.id).length⟩ := by
  rw [readConversation, Option.ite_none_right_eq_some, Option.some_inj, eq_comm]

/-- Every conversation that is listed is one of the rows, with the number of its messages. -/
theorem of_listConversations {call : Call} {conversations : List Conversation}
    (hlist : listConversations call db = .ok conversations) :
    (conversations.map Conversation.id).Perm (db.keys schema) ∧
      ∀ conversation ∈ conversations,
        conversation.messageCount = (messagesOf db conversation.id).length := by
  have hrows := Call.of_execute hlist
  have hids : conversations.map Conversation.id = _ := map_of_mapM
    (fun hone => congrArg Conversation.id (readConversation_eq_some_iff.mp hone).2) hrows
  refine ⟨?_, fun conversation hmem => ?_⟩
  · rw [hids]
    exact (StableSort.perm_sortBy _ db.parents).map ConversationRow.id
  · obtain ⟨row, -, hone⟩ := exists_of_mem_results hrows hmem
    rw [(readConversation_eq_some_iff.mp hone).2]

end

/-! ## The invariant of the store -/

/-- What holds of the store between two calls, for whatever is called next. -/
structure KeepsConversations (db : ChatDatabase) : Prop where
  /-- Messages are read in the order in which they were inserted, numbered from one. -/
  numbered : ∀ call conversationId messages, getMessages call db conversationId = .ok messages →
    messages = (messagesOf db conversationId).map readMessage ∧
      messages.map PersistedMessage.sequenceNum = List.range' 1 messages.length
  /-- The number that is reported is the number of messages. -/
  counted : ∀ call conversations, listConversations call db = .ok conversations →
    (conversations.map Conversation.id).Perm (db.keys schema) ∧
      ∀ conversation ∈ conversations,
        conversation.messageCount = (messagesOf db conversation.id).length
  /-- A message that is added comes last, with the next number. -/
  added : ∀ call conversationId role content toolCallJson,
    (∃ e, addMessage call db conversationId role content toolCallJson = (.error e, db)) ∨
      (addMessage call db conversationId role content toolCallJson).2.children =
        db.children ++ [⟨call.id, conversationId, role.asStr, content, toolCallJson, call.now,
          (messagesOf db conversationId).length + 1⟩]
  /-- A conversation is deleted with all of its messages and nothing else. -/
  deleted : ∀ call conversationId,
    (∃ e, deleteConversation call db conversationId = (.error e, db)) ∨
      ∃ db', deleteConversation call db conversationId = (.ok (), db') ∧
        db'.children = db.children.filter (fun message => message.conversationId ≠ conversationId) ∧
        db'.parents = db.parents.filter fun conversation => conversation.id ≠ conversationId
  /-- Nothing is added to a conversation that is not there. -/
  missing : ∀ call conversationId role content toolCallJson, conversationId ∉ db.keys schema →
    ∃ e, addMessage call db conversationId role content toolCallJson = (.error e, db)

section

variable {db : ChatDatabase}

theorem Numbered.getMessages (h : Numbered db) {call : Call} {conversationId : String}
    {messages : List PersistedMessage} (hget : getMessages call db conversationId = .ok messages) :
    messages = (messagesOf db conversationId).map readMessage ∧
      messages.map PersistedMessage.sequenceNum = List.range' 1 messages.length := by
  rw [Persistence.getMessages, h.sortBy_messages] at hget
  cases Call.of_execute hget
  refine ⟨rfl, ?_⟩
  rw [List.map_map, List.length_map]
  exact h.numbers conversationId

theorem Numbered.addMessage (h : Numbered db) (call : Call) (conversationId : String)
    (role : MessageRole) (content : String) (toolCallJson : Option String) :
    (∃ e, addMessage call db conversationId role content toolCallJson = (.error e, db)) ∨
      conversationId ∈ db.keys schema ∧
        (addMessage call db conversationId role content toolCallJson).2.children =
          db.children ++ [⟨call.id, conversationId, role.asStr, content, toolCallJson, call.now,
            (messagesOf db conversationId).length + 1⟩] := by
  rcases addMessage_cases call db conversationId role content toolCallJson with
    hfail | ⟨seq, inserted, hseq, hinsert, hrun⟩
  · exact Or.inl hfail
  · obtain ⟨-, hreference, hinserted⟩ := insertChild_eq_some_iff.mp hinsert
    have hchildren := congrArg LinkedTables.children hinserted
    rw [h.nextSequence hseq] at hchildren
    refine Or.inr ⟨hreference h.sound.enforced, ?_⟩
    rcases hrun with ⟨e, hrun⟩ | hrun
    · rw [hrun]
      exact hchildren.symm
    · rw [hrun]
      exact hchildren.symm

end

/-- Two messages and a conversation that is deleted. -/
example :
    let call (id : String) : Call := ⟨id, "", fun _ => false⟩
    let db := exec after openInMemory
      [(call "a", .create "A" ""), (call "b", .create "B" ""), (call "1", .add "a" .user "x" none),
        (call "2", .add "b" .user "y" none), (call "3", .add "a" .assistant "z" none),
        (call "", .delete "b"), (call "4", .add "b" .user "y" none)]
    db.children.map (fun row => (row.id, row.sequenceNum)) = [("1", 1), ("3", 2)] := by
  decide +kernel

end HiveBear.Persistence
