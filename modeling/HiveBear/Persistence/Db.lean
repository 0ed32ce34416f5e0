/-
# The conversation store

Conversations and their messages are rows of two tables. A message refers to its conversation, and
its number is found by a query when it is inserted: one more than the largest number of a message
that is already there.

A statement of the database may fail for reasons of its own, a full disk or a lock, and then
changes nothing. Nothing makes the statements of one call a transaction.
-/

import HiveBear.Library.LinkedTables
import HiveBear.Library.StableSort
import Mathlib.Algebra.GroupWithZero.Nat

namespace HiveBear.Persistence

/-! ## Rows -/

inductive MessageRole
  | system
  | user
  | assistant
  deriving DecidableEq

def MessageRole.asStr : MessageRole → String
  | .system => "system"
  | .user => "user"
  | .assistant => "assistant"

def MessageRole.parse (s : String) : MessageRole :=
  if s = "system" then .system else if s = "assistant" then .assistant else .user

/-- A role is read as it was written. -/
theorem MessageRole.parse_asStr (role : MessageRole) : parse role.asStr = role := by
  cases role <;> rfl

/-- A row of `conversations`. -/
structure ConversationRow where
  id : String
  title : String
  modelId : String
  createdAt : String
  updatedAt : String
  deriving DecidableEq

/-- A row of `messages`. -/
structure MessageRow where
  id : String
  conversationId : String
  role : String
  content : String
  toolCallJson : Option String
  createdAt : String
  sequenceNum : ℕ
  deriving DecidableEq

/-- Messages refer to their conversation. -/
def schema : TableSchema ConversationRow MessageRow String String where
  parentKey := ConversationRow.id
  childKey := MessageRow.id
  reference := MessageRow.conversationId

abbrev ChatDatabase := LinkedTables ConversationRow MessageRow

inductive PersistenceError
  /-- What the database reports. -/
  | database
  | notFound (conversationId : String)
  deriving DecidableEq

structure Conversation where
  id : String
  title : String
  modelId : String
  createdAt : String
  updatedAt : String
  messageCount : ℕ

structure PersistedMessage where
  id : String
  conversationId : String
  role : MessageRole
  content : String
  toolCallJson : Option String
  createdAt : String
  sequenceNum : ℕ

/-! ## Statements of a call -/

/-- What a call meets: the identifier that it draws, the time, and the statements that fail. -/
structure Call where
  id : String
  now : String
  fails : ℕ → Bool

/-- Run a statement of the call. -/
def Call.execute {α : Type} (call : Call) (statement : ℕ) (result : Option α) :
    Except PersistenceError α :=
  if call.fails statement then .error .database
  else
    match result with
    | some value => .ok value
    | none => .error .database

/-- The tables are made if they are not there, and foreign keys are enforced. -/
def migrate (db : ChatDatabase) : ChatDatabase := { db with foreignKeys := true }

def openInMemory : ChatDatabase := migrate ⟨[], [], false⟩

section

variable (call : Call) (db : ChatDatabase)

/-! ## Calls -/

def createConversation (title modelId : String) :
    Except PersistenceError Conversation × ChatDatabase :=
  let row : ConversationRow := ⟨call.id, title, modelId, call.now, call.now⟩
  match call.execute 0 (db.insertParent schema row) with
  | .error e => (.error e, db)
  | .ok db' => (.ok ⟨call.id, title, modelId, call.now, call.now, 0⟩, db')

/-- The messages of a conversation, in the order in which they were inserted. -/
def messagesOf (conversationId : String) : List MessageRow := db.childrenOf schema conversationId

/-- The row of a conversation with the number of its messages, which must fit the type it is read
as. -/
def readConversation (row : ConversationRow) : Option Conversation :=
  let count := (messagesOf db row.id).length
  if count < 2 ^ 32 then
    some ⟨row.id, row.title, row.modelId, row.createdAt, row.updatedAt, count⟩
  else none

/-- All conversations, most recent first. -/
def listConversations : Except PersistenceError (List Conversation) :=
  call.execute 0
    ((StableSort.sortBy (fun a b => compare b.updatedAt a.updatedAt) db.parents).mapM
      (readConversation db))

def readMessage (row : MessageRow) : PersistedMessage :=
  ⟨row.id, row.conversationId, .parse row.role, row.content, row.toolCallJson, row.createdAt,
    row.sequenceNum⟩

/-- The messages of a conversation, ordered by number. -/
def getMessages (conversationId : String) : Except PersistenceError (List PersistedMessage) :=
  call.execute 0
    (some ((StableSort.sortBy (fun a b => compare a.sequenceNum b.sequenceNum)
      (messagesOf db conversationId)).map readMessage))

/-- The number of the next message, if it is one that the database can count to. -/
def nextSequence (conversationId : String) : Option ℕ :=
  let next := ((messagesOf db conversationId).map MessageRow.sequenceNum).max?.getD 0 + 1
  if next < 2 ^ 63 then some next else none

/-- The row of a conversation with the time of its last change. -/
def touch (now : String) (row : ConversationRow) : ConversationRow := { row with updatedAt := now }

def retitle (newTitle now : String) (row : ConversationRow) : ConversationRow :=
  { row with title := newTitle, updatedAt := now }

def addMessage (conversationId : String) (role : MessageRole) (content : String)
    (toolCallJson : Option String) : Except PersistenceError PersistedMessage × ChatDatabase :=
  match call.execute 0 (nextSequence db conversationId) with
  | .error e => (.error e, db)
  | .ok seq =>
      let row : MessageRow :=
        ⟨call.id, conversationId, role.asStr, content, toolCallJson, call.now, seq⟩
      match call.execute 1 (db.insertChild schema row) with
      | .error e => (.error e, db)
      | .ok inserted =>
          match call.execute 2
            (some (inserted.updateParent schema conversationId (touch call.now)).1) with
          | .error e => (.error e, inserted)
          | .ok touched =>
              (.ok ⟨call.id, conversationId, role, content, toolCallJson, call.now, seq⟩, touched)

def deleteConversation (conversationId : String) : Except PersistenceError Unit × ChatDatabase :=
  match call.execute 0 (some (db.deleteParent schema conversationId)) with
  | .error e => (.error e, db)
  | .ok (db', changes) =>
      if changes = 0 then (.error (.notFound conversationId), db') else (.ok (), db')

def renameConversation (conversationId newTitle : String) :
    Except PersistenceError Unit × ChatDatabase :=
  match call.execute 0
    (some (db.updateParent schema conversationId (retitle newTitle call.now))) with
  | .error e => (.error e, db)
  | .ok (db', changes) =>
      if changes = 0 then (.error (.notFound conversationId), db') else (.ok (), db')

end

end HiveBear.Persistence
