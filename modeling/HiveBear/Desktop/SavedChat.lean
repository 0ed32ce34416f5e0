/-
# What is saved of a chat

The page of a conversation shows the messages of the chat, and saves messages to the store of the
app: the text that is sent, before it is sent, and what the request returns, if it returns
something. When the conversation is opened again, what has been saved is shown. Nothing compares
the two, and nothing that has been saved is ever changed: an answer that is asked for again is
saved behind the first one, and the text of an edited message is not saved at all.

One conversation is open throughout, and a request is answered before the next command.
-/

import HiveBear.Desktop.Answering
import HiveBear.Persistence.ConversationStore

namespace HiveBear.Desktop

open LabelledRun

open Persistence (ChatDatabase MessageRole MessageRow Numbered PersistedMessage PersistenceError
  getMessages messagesOf openInMemory readMessage)

/-! ## What is saved -/

/-- What a command of the backend refuses, or what the store reports. -/
inductive CommandError
  | invalid (text : String)
  | store (error : PersistenceError)

def maxMessageBytes : ℕ := 1000000

def isAsciiHexdigit (c : Char) : Bool := c.isDigit || ('a' ≤ c && c ≤ 'f') || ('A' ≤ c && c ≤ 'F')

def validateConversationId (id : String) : Except CommandError Unit :=
  let invalid := .error (.invalid "Invalid conversation ID: must be a valid UUID")
  let parts := id.toList.splitOn '-'
  if id.utf8ByteSize ≠ 36 then invalid
  else if parts.map (fun part => (String.ofList part).utf8ByteSize) ≠ [8, 4, 4, 4, 12] then invalid
  else if id.toList.all fun c => isAsciiHexdigit c || c == '-' then .ok ()
  else invalid

def validateRole (role : String) : Except CommandError Unit :=
  if role ∈ ["system", "user", "assistant"] then .ok ()
  else .error (.invalid ("Invalid role '" ++ role ++ "': must be 'system', 'user', or 'assistant'"))

def validateMessageContent (content : String) : Except CommandError Unit :=
  if content = "" then .error (.invalid "Message content cannot be empty")
  else if content.utf8ByteSize > maxMessageBytes then
    .error (.invalid s!"Message content exceeds maximum size of {maxMessageBytes} bytes")
  else .ok ()

/-- The command that adds a message to a conversation. -/
def addMessage (call : Persistence.Call) (db : ChatDatabase)
    (conversationId role content : String) : Except CommandError PersistedMessage × ChatDatabase :=
  let validated : Except CommandError Unit := do
    validateConversationId conversationId
    validateRole role
    validateMessageContent content
  match validated with
  | .error e => (.error e, db)
  | .ok () =>
      let added := Persistence.addMessage call db conversationId (.parse role) content none
      (added.1.mapError .store, added.2)

def getConversationMessages (call : Persistence.Call) (db : ChatDatabase)
    (conversationId : String) : Except CommandError (List PersistedMessage) := do
  validateConversationId conversationId
  (getMessages call db conversationId).mapError .store

def displayRole : MessageRole → Role
  | .system => .system
  | .user => .user
  | .assistant => .assistant

/-- A message as the page loads it. It is of no request. -/
def loadMessage (message : PersistedMessage) : DisplayMessage :=
  ⟨displayRole message.role, [⟨0, message.content⟩], 0⟩

/-- What is trimmed off a text that is sent. -/
def jsTrim (text : String) : String :=
  String.ofList ((text.toList.dropWhile isJsSpace).rdropWhile isJsSpace)

/-- A chat, and the store that its conversation is in. -/
structure Page where
  chat : Chat
  db : ChatDatabase

/-- What the user does with a conversation, and how it goes. -/
inductive PageEvent
  | send (handleId : Option ℕ) (text : String) (answer : Answer) (user reply : Persistence.Call)
  | regenerate (handleId : Option ℕ) (answer : Answer) (reply : Persistence.Call)
  | submitEdit (handleId : Option ℕ) (index : ℕ) (newText : String) (answer : Answer)
    (reply : Persistence.Call)
  | load (call : Persistence.Call)

def Chat.render (chat : Chat) (handleId : Option ℕ) : Chat :=
  { chat with
    messagesRef := chat.messages
    closures := chat.closures ++ [⟨handleId, chat.streaming⟩] }

namespace Page

variable (activeId : String)

def save (page : Page) (call : Persistence.Call) (role : MessageRole) (content : String) : Page :=
  { page with db := (addMessage call page.db activeId role.asStr content).2 }

/-- If a request has been sent, its answer comes, and what it returns is saved. -/
def ask (page : Page) (asked : Chat) (answer : Answer) (reply : Persistence.Call) : Page :=
  if asked.requests = page.chat.requests then { page with chat := asked }
  else
    let i := page.chat.requests
    let page := { page with chat := asked.answered i answer }
    match (page.chat.calls i).phase with
    | .returned (some text) => if text = "" then page else page.save activeId reply .assistant text
    | _ => page

/-- What is rendered, and what `send` sees of it. -/
def render (page : Page) (handleId : Option ℕ) : Page × Closure :=
  ({ page with chat := page.chat.render handleId }, ⟨handleId, page.chat.streaming⟩)

def handleSend (page : Page) (handleId : Option ℕ) (text : String) (answer : Answer)
    (user reply : Persistence.Call) : Page :=
  let (page, closure) := page.render handleId
  let msgText := jsTrim text
  if msgText = "" then page
  else
    (page.save activeId user .user msgText).ask activeId (page.chat.sendThrough closure msgText)
      answer reply

def handleRegenerate (page : Page) (handleId : Option ℕ) (answer : Answer)
    (reply : Persistence.Call) : Page :=
  let (page, closure) := page.render handleId
  page.ask activeId (page.chat.regenerate closure) answer reply

def handleSubmitEdit (page : Page) (handleId : Option ℕ) (index : ℕ) (newText : String)
    (answer : Answer) (reply : Persistence.Call) : Page :=
  let (page, closure) := page.render handleId
  page.ask activeId (page.chat.editAndResend closure index newText) answer reply

/-- Show what the store holds, if that can be read. -/
def load (page : Page) (call : Persistence.Call) : Page :=
  match getConversationMessages call page.db activeId with
  | .ok persisted => { page with chat := { page.chat with messages := persisted.map loadMessage } }
  | .error _ => page

def next (page : Page) : PageEvent → Page
  | .send handleId text answer user reply =>
      page.handleSend activeId handleId text answer user reply
  | .regenerate handleId answer reply => page.handleRegenerate activeId handleId answer reply
  | .submitEdit handleId index newText answer reply =>
      page.handleSubmitEdit activeId handleId index newText answer reply
  | .load call => page.load activeId call

/-- The page of a conversation, as it is opened. -/
def opened (db : ChatDatabase) : Page where
  chat := { newChat none with
    messages := (messagesOf db activeId).map fun row => loadMessage (readMessage row) }
  db := db

end Page

/-! ## When the display is what is saved -/

/-- What the store holds of a conversation, as it would be shown. -/
def transcript (activeId : String) (db : ChatDatabase) : List Shown :=
  (messagesOf db activeId).map fun row => (loadMessage (readMessage row)).shown

/-- What the user sees is what is loaded when the conversation is opened again. -/
def Page.InStep (activeId : String) (page : Page) : Prop :=
  page.chat.messages.map DisplayMessage.shown = transcript activeId page.db

/-- The store takes a message. -/
def Page.Takes (activeId : String) (page : Page) (call : Persistence.Call) (role : MessageRole)
    (content : String) : Prop :=
  (page.save activeId call role content).db.children ≠ page.db.children

instance (activeId : String) (page : Page) (call : Persistence.Call) (role : MessageRole)
    (content : String) : Decidable (page.Takes activeId call role content) :=
  inferInstanceAs (Decidable (¬ _ = _))

/-- What the store takes of a message. -/
def Page.taken (activeId : String) (page : Page) (call : Persistence.Call) (role : MessageRole)
    (content : String) : List Shown :=
  if page.Takes activeId call role content then [⟨displayRole role, content⟩] else []

/-- What the store takes of a reply. -/
def Page.takenReply (activeId : String) (page : Page) (reply : Persistence.Call) :
    Option String → List Shown
  | some text => page.taken activeId reply .assistant text
  | none => []

/-- With this the display stays what is saved. A text that is sent must be answered faithfully, and
be taken with its answer; or neither must happen. An answer is never asked for again. What an edit
cuts off must be what it shows in its place. -/
def Page.Keeps (activeId : String) (page : Page) : PageEvent → Prop
  | .send handleId text answer user reply =>
      let msgText := jsTrim text
      let saved := page.save activeId user .user msgText
      msgText = "" ∨
        if handleId.getD 0 ≠ 0 then
          page.Takes activeId user .user msgText ∧ answer.Faithful ∧
            saved.Takes activeId reply .assistant answer.shown
        else ¬ page.Takes activeId user .user msgText
  | .regenerate _ _ _ =>
      ∀ before question answer, page.chat.messages.map DisplayMessage.shown ≠
        before ++ [⟨.user, question⟩, ⟨.assistant, answer⟩]
  | .submitEdit handleId index newText answer reply =>
      let displayed := page.chat.messages.map DisplayMessage.shown
      if handleId.getD 0 ≠ 0 then
        displayed.drop index ++ page.takenReply activeId reply answer.returned =
          [⟨.user, newText⟩, ⟨.assistant, answer.shown⟩]
      else displayed.length ≤ index
  | .load _ => True

/-! ## What the store takes -/

section

variable {activeId : String} {page : Page}

theorem addMessage_cases (call : Persistence.Call) (db : ChatDatabase)
    (conversationId role content : String) :
    (addMessage call db conversationId role content).2 = db ∨
      (addMessage call db conversationId role content).2 =
        (Persistence.addMessage call db conversationId (.parse role) content none).2 := by
  rw [addMessage]
  split
  · exact Or.inl rfl
  · exact Or.inr rfl

theorem numbered_addMessage {db : ChatDatabase} (h : Numbered db) (call : Persistence.Call)
    (conversationId role content : String) :
    Numbered (addMessage call db conversationId role content).2 := by
  rcases addMessage_cases call db conversationId role content with hsame | hadded
  · rw [hsame]
    exact h
  · rw [hadded]
    exact Persistence.numbered_after h (call, .add conversationId (.parse role) content none)

/-- A row of the conversation, behind those that are there. -/
theorem transcript_of_children {db db' : ChatDatabase} {row : MessageRow}
    (hrow : row.conversationId = activeId) (hchildren : db'.children = db.children ++ [row]) :
    transcript activeId db' =
      transcript activeId db ++ [⟨displayRole (.parse row.role), row.content⟩] := by
  have hown : List.filter (fun row => decide (Persistence.schema.reference row = activeId)) [row] =
      [row] := List.filter_eq_self.mpr fun _ hmem => by
    rw [List.mem_singleton.mp hmem]
    exact decide_eq_true hrow
  rw [transcript, transcript, messagesOf, LinkedTables.childrenOf, hchildren, List.filter_append,
    hown, List.map_append, List.map_singleton, DisplayMessage.shown, loadMessage,
    Chat.text_singleton]
  rfl

variable (activeId) in
/-- A message that is taken comes last, and the store is left alone by any other. -/
theorem transcript_save (h : Numbered page.db) (call : Persistence.Call) (role : MessageRole)
    (content : String) :
    transcript activeId (page.save activeId call role content).db =
      transcript activeId page.db ++ page.taken activeId call role content := by
  have hcases : (page.save activeId call role content).db = page.db ∨
      ∃ row : MessageRow, row.conversationId = activeId ∧ row.role = role.asStr ∧
        row.content = content ∧
        (page.save activeId call role content).db.children = page.db.children ++ [row] := by
    rcases addMessage_cases call page.db activeId role.asStr content with hsame | hadded
    · exact Or.inl hsame
    · rw [MessageRole.parse_asStr] at hadded
      rcases h.addMessage call activeId role content none with ⟨e, hfail⟩ | ⟨-, hchildren⟩
      · exact Or.inl (hadded.trans (by rw [hfail]))
      · exact Or.inr ⟨_, rfl, rfl, rfl, (congrArg LinkedTables.children hadded).trans hchildren⟩
  rcases hcases with hsame | ⟨row, hrow, hrole, hcontent, hchildren⟩
  · have hrefused : ¬ page.Takes activeId call role content := fun htakes =>
      htakes (by rw [hsame])
    rw [hsame, Page.taken, if_neg hrefused, List.append_nil]
  · have htakes : page.Takes activeId call role content := by
      rw [Page.Takes, hchildren]
      exact fun hsame => by simpa using congrArg List.length hsame
    rw [Page.taken, if_pos htakes, transcript_of_children hrow hchildren, hrole, hcontent,
      MessageRole.parse_asStr]

/-- The store adds a message if the statements that number and insert it succeed. -/
theorem added_iff {call : Persistence.Call} {db : ChatDatabase} {role : MessageRole}
    {content : String} :
    (Persistence.addMessage call db activeId role content none).2.children ≠ db.children ↔
      ∃ seq, call.execute 0 (Persistence.nextSequence db activeId) = .ok seq ∧
        ∃ inserted, call.execute 1 (db.insertChild Persistence.schema
          ⟨call.id, activeId, role.asStr, content, none, call.now, seq⟩) = .ok inserted := by
  rw [Persistence.addMessage]
  cases hseq : call.execute 0 (Persistence.nextSequence db activeId) with
  | error e =>
      refine iff_of_false (fun h => h rfl) ?_
      rintro ⟨seq, h, -⟩
      cases h
  | ok seq =>
      dsimp only
      cases hinsert : call.execute 1 (db.insertChild Persistence.schema
        ⟨call.id, activeId, role.asStr, content, none, call.now, seq⟩) with
      | error e =>
          refine iff_of_false (fun h => h rfl) ?_
          rintro ⟨_, ⟨⟩, inserted, h⟩
          cases hinsert.symm.trans h
      | ok inserted =>
          refine iff_of_true ?_ ⟨seq, rfl, inserted, hinsert⟩
          obtain ⟨-, -, rfl⟩ := LinkedTables.insertChild_eq_some_iff.mp
            (Persistence.Call.of_execute hinsert)
          have hlonger (row : MessageRow) : db.children ++ [row] ≠ db.children := fun hsame => by
            simpa using congrArg List.length hsame
          -- whether or not the time of the conversation is written
          dsimp only
          split
          · exact hlonger _
          · rename_i touched htouched
            cases Persistence.Call.of_execute htouched
            exact hlonger _

/-- A message is taken if it is valid, and the store adds it. -/
theorem takes_iff {call : Persistence.Call} {role : MessageRole} {content : String} :
    page.Takes activeId call role content ↔
      validateConversationId activeId = .ok () ∧ validateMessageContent content = .ok () ∧
        ∃ seq, call.execute 0 (Persistence.nextSequence page.db activeId) = .ok seq ∧
          ∃ inserted, call.execute 1 (page.db.insertChild Persistence.schema
            ⟨call.id, activeId, role.asStr, content, none, call.now, seq⟩) = .ok inserted := by
  have hrole : validateRole role.asStr = .ok () := by cases role <;> rfl
  rw [← added_iff, Page.Takes, Page.save, addMessage, hrole]
  cases validateConversationId activeId with
  | error e => exact iff_of_false (fun h => h rfl) fun h => (by cases h.1)
  | ok _ =>
      cases validateMessageContent content with
      | error e => exact iff_of_false (fun h => h rfl) fun h => (by cases h.2.1)
      | ok _ =>
          show (Persistence.addMessage call page.db activeId (.parse role.asStr) content
            none).2.children ≠ _ ↔ _
          rw [MessageRole.parse_asStr, eq_self, true_and, true_and]

/-! ## What one request does -/

/-- No listener is left behind, and the messages are numbered. -/
structure Page.Sound (page : Page) : Prop where
  idle : page.chat.Idle
  numbered : Numbered page.db

variable (activeId) in
theorem Page.Sound.save (h : page.Sound) (call : Persistence.Call) (role : MessageRole)
    (content : String) : (page.save activeId call role content).Sound :=
  ⟨h.idle, numbered_addMessage h.numbered call activeId role.asStr content⟩

/-- Nothing empty is taken. -/
theorem save_empty (page : Page) (call : Persistence.Call) (role : MessageRole) :
    page.save activeId call role "" = page := by
  have hsame : (addMessage call page.db activeId role.asStr "").2 = page.db := by
    rw [addMessage]
    cases validateConversationId activeId with
    | error e => rfl
    | ok _ => cases role <;> rfl
  rw [Page.save, hsame]

/-- What is done with a reply, whether or not it is empty. -/
def Page.saveReply (activeId : String) (page : Page) (reply : Persistence.Call) :
    Option String → Page
  | some text => page.save activeId reply .assistant text
  | none => page

theorem Page.Sound.saveReply (h : page.Sound) (reply : Persistence.Call)
    (fullReply : Option String) :
    (page.saveReply activeId reply fullReply).Sound ∧
      (page.saveReply activeId reply fullReply).chat = page.chat ∧
      transcript activeId (page.saveReply activeId reply fullReply).db =
        transcript activeId page.db ++ page.takenReply activeId reply fullReply := by
  cases fullReply with
  | none => exact ⟨h, rfl, (List.append_nil _).symm⟩
  | some text =>
      exact ⟨h.save activeId reply .assistant text, rfl,
        transcript_save activeId h.numbered reply .assistant text⟩

theorem ask_of_returned {asked : Chat} (hsent : asked.requests ≠ page.chat.requests)
    {answer : Answer} {fullReply : Option String}
    (hphase : ((asked.answered page.chat.requests answer).calls page.chat.requests).phase =
      .returned fullReply) (reply : Persistence.Call) :
    page.ask activeId asked answer reply =
      ({ page with chat := asked.answered page.chat.requests answer } : Page).saveReply activeId
        reply fullReply := by
  rw [Page.ask, if_neg hsent]
  dsimp only
  rw [hphase]
  cases fullReply with
  | none => rfl
  | some text =>
      show (if text = "" then _ else _) = _
      split
      · rename_i hempty
        rw [Page.saveReply, hempty, save_empty]
      · rfl

/-- A request that is sent shows the text and the answer, and what it returns is saved. -/
theorem Page.Sound.ask_send (h : page.Sound) {chat : Chat} (hidle : chat.Idle)
    (hrequests : chat.requests = page.chat.requests) (handleId : ℕ) (text : String)
    (answer : Answer) (reply : Persistence.Call) :
    (page.ask activeId (chat.send handleId text) answer reply).Sound ∧
      (page.ask activeId (chat.send handleId text) answer reply).chat.messages.map
          DisplayMessage.shown =
        chat.messages.map DisplayMessage.shown ++
          [⟨.user, text⟩, ⟨.assistant, answer.shown⟩] ∧
      transcript activeId (page.ask activeId (chat.send handleId text) answer reply).db =
        transcript activeId page.db ++ page.takenReply activeId reply answer.returned := by
  have hsent : (chat.send handleId text).requests ≠ page.chat.requests := by
    rw [← hrequests]
    exact Nat.succ_ne_self chat.requests
  obtain ⟨hshown, hphase, hdone⟩ := (hidle.starts handleId text).answered answer
  rw [hrequests] at hshown hphase hdone
  rw [List.append_assoc] at hshown
  have hsound : Page.Sound
      { page with chat := (chat.send handleId text).answered page.chat.requests answer } :=
    ⟨hdone, h.numbered⟩
  rw [ask_of_returned hsent hphase]
  obtain ⟨hsaved, hchat, htranscript⟩ := hsound.saveReply reply answer.returned
  rw [hchat]
  exact ⟨hsaved, hshown, htranscript⟩

/-- Where nothing is sent, the rest is as it was. -/
theorem ask_of_unsent {asked : Chat} (hunsent : asked.requests = page.chat.requests)
    (answer : Answer) (reply : Persistence.Call) :
    page.ask activeId asked answer reply = { page with chat := asked } := if_pos hunsent

end

/-! ## What each command keeps -/

section

variable {activeId : String} {page : Page}

variable (activeId) in
/-- What a request shows, and what is saved of it, if it is accepted. -/
theorem Page.Sound.ask_sendThrough (h : page.Sound) {chat : Chat} (hidle : chat.Idle)
    (hrequests : chat.requests = page.chat.requests) (closure : Closure) (text : String)
    (answer : Answer) (reply : Persistence.Call) :
    (page.ask activeId (chat.sendThrough closure text) answer reply).Sound ∧
      (page.ask activeId (chat.sendThrough closure text) answer reply).chat.messages.map
          DisplayMessage.shown =
        chat.messages.map DisplayMessage.shown ++
          (if closure.accepts then [⟨.user, text⟩, ⟨.assistant, answer.shown⟩] else []) ∧
      transcript activeId (page.ask activeId (chat.sendThrough closure text) answer reply).db =
        transcript activeId page.db ++
          (if closure.accepts then page.takenReply activeId reply answer.returned else []) := by
  rw [Chat.sendThrough]
  cases closure.accepts with
  | true => exact h.ask_send hidle hrequests (closure.handleId.getD 0) text answer reply
  | false =>
      rw [if_neg Bool.false_ne_true, if_neg Bool.false_ne_true, if_neg Bool.false_ne_true,
        ask_of_unsent hrequests, List.append_nil, List.append_nil]
      exact ⟨⟨hidle, h.numbered⟩, rfl, rfl⟩

/-- What is saved is no matter of the chat. -/
theorem chat_ask_of_sent {asked : Chat} (hsent : asked.requests ≠ page.chat.requests)
    (answer : Answer) (reply : Persistence.Call) :
    (page.ask activeId asked answer reply).chat =
      asked.answered page.chat.requests answer := by
  rw [Page.ask, if_neg hsent]
  dsimp only
  split
  · split
    · rfl
    · rfl
  · rfl

/-- A request goes through the steps of the chat, up to where it is answered. -/
theorem run_ask {chat : Chat} (hrequests : chat.requests = page.chat.requests) {closure : Closure}
    (hrendered : closure ∈ chat.closures) (text : String) (answer : Answer)
    (reply : Persistence.Call) :
    ∃ events, Run ChatStep chat events
      (page.ask activeId (chat.sendThrough closure text) answer reply).chat := by
  rw [Chat.sendThrough]
  cases haccepts : closure.accepts with
  | false =>
      rw [if_neg Bool.false_ne_true, ask_of_unsent hrequests]
      exact ⟨[], Run.nil _⟩
  | true =>
      rw [if_pos rfl]
      have sent : Run ChatStep chat _ _ := Run.single (.send text hrendered haccepts)
      have hphase := chat.phase_send (closure.handleId.getD 0) text
      obtain ⟨events, answered⟩ := Chat.run_answered hphase answer
      have hsent : (chat.send (closure.handleId.getD 0) text).requests ≠ page.chat.requests := by
        rw [← hrequests]
        exact Nat.succ_ne_self chat.requests
      rw [chat_ask_of_sent hsent, ← hrequests]
      exact ⟨_, sent.append answered⟩

theorem Page.Sound.render (h : page.Sound) (handleId : Option ℕ) :
    (page.render handleId).1.Sound :=
  ⟨⟨h.idle.tokens, h.idle.errors, h.idle.current, h.idle.streaming⟩, h.numbered⟩

/-- Nothing streams where nothing of any request is left. -/
theorem Page.Sound.accepts_iff (h : page.Sound) (handleId : Option ℕ) :
    (page.render handleId).2.accepts = true ↔ handleId.getD 0 ≠ 0 := by
  rw [Page.render, Closure.accepts, h.idle.streaming, Bool.not_false, Bool.and_true,
    decide_eq_true_iff]

theorem Chat.Idle.truncate {chat : Chat} (h : chat.Idle) (messages : List DisplayMessage) :
    (chat.truncate messages).Idle :=
  ⟨h.tokens, h.errors, h.current, h.streaming⟩

/-- Either two messages are taken, or not. -/
theorem taken_append_takenReply_eq_iff {user reply : Persistence.Call} {text : String}
    {answer : Answer} :
    page.taken activeId user .user text ++
          (page.save activeId user .user text).takenReply activeId reply answer.returned =
        [⟨.user, text⟩, ⟨.assistant, answer.shown⟩] ↔
      page.Takes activeId user .user text ∧ answer.Faithful ∧
        (page.save activeId user .user text).Takes activeId reply .assistant answer.shown := by
  rw [← answer.returned_eq_shown_iff, Page.taken]
  cases answer.returned with
  | none =>
      refine ⟨fun h => ?_, fun h => (by cases h.2.1)⟩
      rw [Page.takenReply, List.append_nil] at h
      split at h <;> cases h
  | some fullReply =>
      rw [Page.takenReply, Page.taken, Option.some_inj]
      constructor
      · intro h
        split at h
        · rename_i huser
          split at h
          · rename_i hreply
            obtain rfl : fullReply = answer.shown := by simpa [displayRole] using h
            exact ⟨huser, rfl, hreply⟩
          · cases h
        · split at h <;> cases h
      · rintro ⟨huser, rfl, hreply⟩
        rw [if_pos huser, if_pos hreply]
        rfl

theorem inStep_handleSend_iff (h : page.Sound) (hstep : page.InStep activeId)
    (handleId : Option ℕ) (text : String) (answer : Answer) (user reply : Persistence.Call) :
    (page.handleSend activeId handleId text answer user reply).Sound ∧
      ((page.handleSend activeId handleId text answer user reply).InStep activeId ↔
        page.Keeps activeId (.send handleId text answer user reply)) := by
  have hrendered := h.render handleId
  rw [Page.handleSend, Page.Keeps]
  dsimp only
  by_cases hempty : jsTrim text = ""
  · rw [if_pos hempty]
    exact ⟨hrendered, ⟨fun _ => Or.inl hempty, fun _ => hstep⟩⟩
  · rw [if_neg hempty, or_iff_right hempty]
    have hsaved := hrendered.save activeId user .user (jsTrim text)
    obtain ⟨hsound, hshown, htranscript⟩ := hsaved.ask_sendThrough activeId
      hrendered.idle rfl (page.render handleId).2 (jsTrim text) answer reply
    refine ⟨hsound, ?_⟩
    have hstart : (page.render handleId).1.chat.messages.map DisplayMessage.shown =
        transcript activeId (page.render handleId).1.db := hstep
    have htaken := transcript_save activeId hrendered.numbered user .user (jsTrim text)
    rw [Page.InStep, hshown, htranscript, htaken]
    show (page.render handleId).1.chat.messages.map DisplayMessage.shown ++ _ = _ ↔ _
    rw [hstart, List.append_assoc, List.append_cancel_left_eq]
    by_cases haccepted : handleId.getD 0 ≠ 0
    · have haccepts := (h.accepts_iff handleId).mpr haccepted
      rw [if_pos haccepted, if_pos haccepts, if_pos haccepts, eq_comm]
      exact taken_append_takenReply_eq_iff
    · have hrefused : ¬ _ := mt (h.accepts_iff handleId).mp haccepted
      rw [if_neg haccepted, if_neg hrefused, if_neg hrefused, List.append_nil]
      show [] = Page.taken activeId page user .user (jsTrim text) ↔ _
      rw [Page.taken]
      split
      · rename_i htakes
        exact ⟨fun hnil => (by cases hnil), fun hnot => absurd htakes hnot⟩
      · rename_i hnot
        exact ⟨fun _ => hnot, fun _ => rfl⟩

/-- An answer is not asked for again: what is saved still holds it. -/
theorem inStep_handleRegenerate_iff (h : page.Sound) (hstep : page.InStep activeId)
    (handleId : Option ℕ) (answer : Answer) (reply : Persistence.Call) :
    (page.handleRegenerate activeId handleId answer reply).Sound ∧
      ((page.handleRegenerate activeId handleId answer reply).InStep activeId ↔
        page.Keeps activeId (.regenerate handleId answer reply)) := by
  have hrendered := h.render handleId
  have hsame (hunsent : (page.render handleId).1.chat.regenerate (page.render handleId).2 =
        (page.render handleId).1.chat) :
      page.handleRegenerate activeId handleId answer reply = (page.render handleId).1 := by
    rw [Page.handleRegenerate]
    dsimp only
    rw [hunsent]
    exact if_pos rfl
  by_cases hshort : page.chat.messages.length < 2
  · have hunsent := hsame (if_pos hshort)
    rw [hunsent]
    refine ⟨hrendered, ⟨fun _ before question answer hsplit => ?_, fun _ => hstep⟩⟩
    have hlength := congrArg List.length hsplit
    rw [List.length_map, List.length_append] at hlength
    exact absurd hlength (by simp; omega)
  obtain ⟨before, question, last, hmessages⟩ := Chat.exists_last_two hshort
  have hregenerate := @Chat.regenerate_append (page.render handleId).1.chat
    (page.render handleId).2 before question last hmessages
  by_cases hroles : last.role ≠ .assistant ∨ question.role ≠ .user
  · have hunsent := hsame (hregenerate.trans (if_pos hroles))
    rw [hunsent]
    refine ⟨hrendered, ⟨fun _ before' text text' hsplit => ?_, fun _ => hstep⟩⟩
    rw [hmessages, List.map_append] at hsplit
    obtain ⟨-, hlast⟩ := List.append_inj' hsplit rfl
    have hpair : question.shown = ⟨.user, text⟩ ∧ last.shown = ⟨.assistant, text'⟩ := by
      simpa using hlast
    rcases hroles with hrole | hrole
    · exact hrole (congrArg Shown.role hpair.2)
    · exact hrole (congrArg Shown.role hpair.1)
  · rw [if_neg hroles] at hregenerate
    rw [not_or, not_not, not_not] at hroles
    have hnext : page.handleRegenerate activeId handleId answer reply = _ :=
      congrArg (fun asked => (page.render handleId).1.ask activeId asked answer reply) hregenerate
    obtain ⟨hsound, hshown, htranscript⟩ := hrendered.ask_sendThrough activeId
      (hrendered.idle.truncate (before ++ [question])) rfl (page.render handleId).2
      question.content.text answer reply
    rw [hnext]
    refine ⟨hsound, ⟨fun hin => ?_, fun hkeeps => ?_⟩⟩
    · -- The answer that is cut off is still saved, where the question is shown again.
      have hstart : transcript activeId (page.render handleId).1.db =
          (before ++ [question]).map DisplayMessage.shown ++ [last.shown] := by
        have hsaved : transcript activeId page.db = page.chat.messages.map DisplayMessage.shown :=
          hstep.symm
        show transcript activeId page.db = _
        rw [hsaved, hmessages]
        simp
      rw [Page.InStep, hshown, htranscript, hstart, List.append_assoc] at hin
      have hlast := List.append_cancel_left hin
      split at hlast
      · have hrole : Role.user = last.role := congrArg Shown.role (List.cons.inj hlast).1
        rw [hroles.1] at hrole
        cases hrole
      · cases hlast
    · refine absurd ?_ (hkeeps (before.map DisplayMessage.shown) question.content.text
        last.content.text)
      rw [hmessages, List.map_append]
      simp [DisplayMessage.shown, hroles]

theorem inStep_handleSubmitEdit_iff (h : page.Sound) (hstep : page.InStep activeId)
    (handleId : Option ℕ) (index : ℕ) (newText : String) (answer : Answer)
    (reply : Persistence.Call) :
    (page.handleSubmitEdit activeId handleId index newText answer reply).Sound ∧
      ((page.handleSubmitEdit activeId handleId index newText answer reply).InStep activeId ↔
        page.Keeps activeId (.submitEdit handleId index newText answer reply)) := by
  have hrendered := h.render handleId
  obtain ⟨hsound, hshown, htranscript⟩ := hrendered.ask_sendThrough activeId
    (hrendered.idle.truncate ((page.render handleId).1.chat.messagesRef.take index)) rfl
    (page.render handleId).2 newText answer reply
  have hstart : transcript activeId (page.render handleId).1.db =
      page.chat.messages.map DisplayMessage.shown := hstep.symm
  have hcut : ((page.render handleId).1.chat.truncate
      ((page.render handleId).1.chat.messagesRef.take index)).messages.map DisplayMessage.shown =
        (page.chat.messages.map DisplayMessage.shown).take index := List.map_take
  refine ⟨hsound, ?_⟩
  rw [Page.handleSubmitEdit, Page.Keeps]
  dsimp only
  rw [Page.InStep, Chat.editAndResend, hshown, htranscript, hstart, hcut]
  by_cases haccepted : handleId.getD 0 ≠ 0
  · have haccepts := (h.accepts_iff handleId).mpr haccepted
    have hsplit (saved : List Shown) : page.chat.messages.map DisplayMessage.shown ++ saved =
        (page.chat.messages.map DisplayMessage.shown).take index ++
          ((page.chat.messages.map DisplayMessage.shown).drop index ++ saved) := by
      rw [← List.append_assoc, List.take_append_drop]
    rw [if_pos haccepted, if_pos haccepts, if_pos haccepts, hsplit, List.append_cancel_left_eq,
      eq_comm]
    exact Iff.rfl
  · have hrefused : ¬ _ := mt (h.accepts_iff handleId).mp haccepted
    rw [if_neg haccepted, if_neg hrefused, if_neg hrefused, List.append_nil, List.append_nil]
    exact List.take_eq_self_iff _

theorem load_inStep (h : page.Sound) (hstep : page.InStep activeId) (call : Persistence.Call) :
    (page.load activeId call).Sound ∧ (page.load activeId call).InStep activeId := by
  rw [Page.load]
  cases hget : getConversationMessages call page.db activeId with
  | error e => exact ⟨h, hstep⟩
  | ok persisted =>
      have hread : getMessages call page.db activeId = .ok persisted := by
        rw [getConversationMessages] at hget
        cases hvalid : validateConversationId activeId with
        | error e =>
            rw [hvalid] at hget
            cases hget
        | ok _ =>
            rw [hvalid] at hget
            cases hmessages : getMessages call page.db activeId with
            | error e =>
                rw [hmessages] at hget
                cases hget
            | ok messages =>
                rw [hmessages] at hget
                cases hget
                rfl
      obtain ⟨hmessages, -⟩ := h.numbered.getMessages hread
      refine ⟨⟨⟨h.idle.tokens, h.idle.errors, h.idle.current, h.idle.streaming⟩, h.numbered⟩, ?_⟩
      rw [Page.InStep, transcript, hmessages, List.map_map, List.map_map]
      rfl

/-- **What one command does**: it keeps the page sound, and the display what is saved just if it
is one that does. -/
theorem Page.Sound.next (h : page.Sound) (hstep : page.InStep activeId) (event : PageEvent) :
    (page.next activeId event).Sound ∧
      ((page.next activeId event).InStep activeId ↔ page.Keeps activeId event) := by
  cases event with
  | send handleId text answer user reply =>
      exact inStep_handleSend_iff h hstep handleId text answer user reply
  | regenerate handleId answer reply =>
      exact inStep_handleRegenerate_iff h hstep handleId answer reply
  | submitEdit handleId index newText answer reply =>
      exact inStep_handleSubmitEdit_iff h hstep handleId index newText answer reply
  | load call =>
      obtain ⟨hsound, hin⟩ := load_inStep h hstep call
      exact ⟨hsound, ⟨fun _ => trivial, fun _ => hin⟩⟩

variable (activeId) in
theorem opened_sound {db : ChatDatabase} (h : Numbered db) :
    (Page.opened activeId db).Sound ∧ (Page.opened activeId db).InStep activeId := by
  refine ⟨⟨⟨rfl, rfl, rfl, rfl⟩, h⟩, ?_⟩
  rw [Page.InStep, Page.opened, transcript]
  exact List.map_map

/-- **What the user sees is what is saved** throughout a run, whatever was in the store, just if
every command of the run keeps it so. -/
theorem inStep_iff (requests : List (Persistence.Call × Persistence.Operation)) (activeId : String)
    (events : List PageEvent) :
    let page := exec (Page.next activeId)
      (Page.opened activeId (exec Persistence.after openInMemory requests))
    (∀ before, before <+: events → (page before).InStep activeId) ↔
      ∀ before event, before ++ [event] <+: events → (page before).Keeps activeId event := by
  intro page
  let Inv (page : Page) : Prop := page.Sound ∧ page.InStep activeId
  have hnext {page : Page} {event : PageEvent} (h : Inv page) :
      Inv (page.next activeId event) ↔ page.Keeps activeId event := by
    obtain ⟨hsound, hkeeps⟩ := h.1.next h.2 event
    exact ⟨fun hin => hkeeps.mp hin.2, fun hevent => ⟨hsound, hkeeps.mpr hevent⟩⟩
  have hopened := opened_sound activeId (Persistence.numbered_exec requests)
  refine Iff.trans ⟨fun hin before hpart => ?_, fun hinv before hpart => (hinv before hpart).2⟩
    (@exec_invariant_iff _ _ (Page.next activeId) Inv (fun page => page.Keeps activeId) hnext _
      hopened events)
  -- While the display is what is saved, the page stays sound.
  refine @exec_invariant _ _ (Page.next activeId) Inv
    (fun page event => (page.next activeId event).InStep activeId)
    (fun h hevent => ⟨(h.1.next h.2 _).1, hevent⟩) _ hopened before fun earlier event hearlier => ?_
  have hlater := hin (earlier ++ [event]) (hearlier.trans hpart)
  simp only [page, exec_snoc] at hlater
  exact hlater

end

end HiveBear.Desktop
