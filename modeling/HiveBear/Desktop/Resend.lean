/-
# Answering again

The last answer of a chat can be asked for again, and a message of the user can be edited and
sent again. Both cut the list of the messages off and then send a text the usual way, which
appends the text as a message of the user. To ask again cuts off the answer, and leaves the
message that is sent.
-/

import HiveBear.Desktop.Chat
import HiveBear.Library.Run

namespace HiveBear.Desktop

open LabelledRun

/-! ## The history -/

/-- A message as the user sees it. -/
structure Shown where
  role : Role
  text : String
  deriving DecidableEq

def DisplayMessage.shown (message : DisplayMessage) : Shown :=
  ⟨message.role, message.content.text⟩

/-- What the user sees of a message, as the backend is sent it. -/
def Shown.toChat (shown : Shown) : ChatMessage :=
  match shown.role with
  | .system => .system shown.text
  | .assistant => .assistant shown.text
  | .user | .tool => .userText shown.text

theorem toChat_shown (message : DisplayMessage) : message.shown.toChat = message.toChat := by
  obtain ⟨role, content, request⟩ := message
  cases role <;> rfl

theorem map_toChat_shown (messages : List DisplayMessage) :
    (messages.map DisplayMessage.shown).map Shown.toChat =
      messages.map DisplayMessage.toChat := by
  rw [List.map_map]
  exact List.map_congr_left fun message _ => toChat_shown message

namespace Chat

variable {chat : Chat}

/-! ## The two requests -/

/-- Send through what was rendered, which may refuse to. -/
def sendThrough (chat : Chat) (closure : Closure) (text : String) : Chat :=
  if closure.accepts then chat.send (closure.handleId.getD 0) text else chat

/-- Show other messages, and let `send` see them before they are rendered. -/
def truncate (chat : Chat) (messages : List DisplayMessage) : Chat :=
  { chat with messages := messages, messagesRef := messages }

def regenerate (chat : Chat) (closure : Closure) : Chat :=
  let msgs := chat.messagesRef
  if msgs.length < 2 then chat
  else
    match msgs[msgs.length - 1]?, msgs[msgs.length - 2]? with
    | some lastAssistant, some lastUser =>
        if lastAssistant.role ≠ .assistant ∨ lastUser.role ≠ .user then chat
        else (chat.truncate msgs.dropLast).sendThrough closure lastUser.content.text
    | _, _ => chat

def editAndResend (chat : Chat) (closure : Closure) (index : ℕ) (newText : String) : Chat :=
  (chat.truncate (chat.messagesRef.take index)).sendThrough closure newText

/-! ## What they are for -/

/-- A request carries a history, which is displayed before one message of the assistant. -/
structure Carries (history : List Shown) (i : ℕ) (chat : Chat) : Prop where
  sent : (chat.calls i).chatMessages = history.map Shown.toChat
  displayed : ∃ reply, chat.messages.map DisplayMessage.shown = history ++ [⟨.assistant, reply⟩]

end Chat

/-- Whether the user sends something. -/
def ChatEvent.isSend : ChatEvent → Bool
  | .send _ _ => true
  | _ => false

namespace Chat

variable {chat : Chat}

/-- One request has been sent, and it carries the history until the user sends the next. -/
def Sends (chat : Chat) (history : List Shown) (after : Chat) : Prop :=
  after.requests = chat.requests + 1 ∧
    ∀ events last, Run (Guarded (fun _ event => event.isSend = false) ChatStep) after events last →
      Carries history chat.requests last

/-- To ask again sends the messages up to the last one of the user, where there is one. -/
def RegeneratesRight (chat : Chat) (closure : Closure) : Prop :=
  ∀ before user behind, chat.messagesRef = before ++ user :: behind → user.role = .user →
    (∀ message ∈ behind, message.role ≠ .user) →
      chat.Sends ((before ++ [user]).map DisplayMessage.shown) (chat.regenerate closure)

/-- To edit a message sends what is before it, and then the new text. -/
def EditsRight (chat : Chat) (closure : Closure) (index : ℕ) (newText : String) : Prop :=
  chat.Sends ((chat.messagesRef.take index).map DisplayMessage.shown ++ [⟨.user, newText⟩])
    (chat.editAndResend closure index newText)

/-! ## A history stays -/

variable {history : List Shown} {n : ℕ}

/-- Only the messages and what the requests are sent with matter. -/
theorem Carries.of_eq (h : Carries history n chat) {next : Chat} (hcalls : next.calls = chat.calls)
    (hmessages : next.messages = chat.messages) : Carries history n next where
  sent := by rw [hcalls]; exact h.sent
  displayed := by rw [hmessages]; exact h.displayed

theorem Carries.display (h : Carries history n chat) (content : Content) :
    Carries history n (chat.display content) where
  sent := h.sent
  displayed := by
    obtain ⟨reply, hmessages⟩ := h.displayed
    obtain ⟨early, last, hsplit, hearly, hlast⟩ := List.map_eq_append_iff.mp hmessages
    obtain ⟨message, rfl, -⟩ := List.map_eq_singleton_iff.mp hlast
    refine ⟨content.text, ?_⟩
    rw [Chat.display, setLast, hsplit, List.getLast?_concat]
    show (_ ++ [_]).map _ = _
    rw [List.dropLast_concat, List.map_append, hearly]
    rfl

/-- What a request is sent with is not changed. -/
theorem Carries.setCall (h : Carries history n chat) {i : ℕ} {call : Call}
    (hcall : call.chatMessages = (chat.calls i).chatMessages) :
    Carries history n (chat.setCall i call) where
  sent := by
    rcases eq_or_ne n i with rfl | hother
    · rw [calls_setCall_self, hcall]
      exact h.sent
    · rw [calls_setCall_of_ne _ hother]
      exact h.sent
  displayed := h.displayed

theorem Carries.setPhase (h : Carries history n chat) (i : ℕ) (phase : CallPhase) :
    Carries history n (chat.setPhase i phase) :=
  h.setCall rfl

theorem Carries.stop (h : Carries history n chat) : Carries history n chat.stop := by
  have hstopped : Carries history n { chat with stopRef := true }.unlisten := h.of_eq rfl rfl
  rw [Chat.stop]
  split
  · exact (hstopped.display _).of_eq rfl rfl
  · exact h.of_eq rfl rfl

theorem Carries.onToken (h : Carries history n chat) (i : ℕ) (text : String) :
    Carries history n (chat.onToken i text) := by
  rw [Chat.onToken]
  split
  · exact h
  · exact (h.display _).of_eq rfl rfl

theorem Carries.onError (h : Carries history n chat) (i : ℕ) (message : String) (owner : ℕ) :
    Carries history n (chat.onError i message owner) :=
  (h.display _).setCall rfl

theorem Carries.receive (h : Carries history n chat) (i : ℕ) (event : StreamEvent) :
    Carries history n (chat.receive i event) := by
  cases event with
  | token text =>
      exact List.foldlRecOn chat.tokenListeners _ (motive := Carries history n) h
        fun _ hchat _ _ => hchat.onToken i text
  | error message =>
      exact List.foldlRecOn chat.errorListeners _ (motive := Carries history n) h
        fun _ hchat owner _ => hchat.onError i message owner

theorem Carries.finish (h : Carries history n chat) (i : ℕ) (fullReply : Option String) :
    Carries history n (chat.finish i fullReply) := by
  have hoff : Carries history n { chat.unlisten with streaming := false } := h.of_eq rfl rfl
  exact hoff.setPhase i _

theorem Carries.fail (h : Carries history n chat) (i : ℕ) (message : String) :
    Carries history n (chat.fail i message) := by
  rw [Chat.fail]
  split
  · exact h.finish i none
  · exact (h.display _).finish i none

theorem Carries.reply (h : Carries history n chat) (i : ℕ) (result : Except String String) :
    Carries history n (chat.reply i result) := by
  cases result with
  | error message => exact h.fail i message
  | ok fullReply =>
      rw [Chat.reply]
      split
      · exact (h.display _).finish i _
      · exact h.finish i _

/-- Whatever happens but sending, a request carries its history. -/
theorem Carries.chatStep (h : Carries history n chat) {event : ChatEvent} {next : Chat}
    (hsend : event.isSend = false) (step : ChatStep chat event next) : Carries history n next := by
  cases step with
  | render handleId => exact h.of_eq rfl rfl
  | notSent text rendered refused => exact h
  | send text rendered accepted => cases hsend
  | stop => exact h.stop
  | tokenRegistered phase | tokenListening phase | errorRegistered phase | errorListening phase =>
      exact (h.setPhase _ _).of_eq rfl rfl
  | listenTokenFails message phase | listenErrorFails message phase => exact h.fail _ message
  | start phase | refuse message phase | streamEnds host phase => exact h.setPhase _ _
  | emit text phase | streamFails host message phase => exact h.setCall rfl
  | @deliver i event rest pending =>
      have htaken : Carries history n (chat.setCall i { chat.calls i with pending := rest }) :=
        h.setCall rfl
      exact htaken.receive i event
  | reply phase => exact h.reply _ _

/-- A text that is sent is sent behind what has been displayed. -/
theorem carries_send (chat : Chat) (handleId : ℕ) (text : String)
    (hrendered : chat.messagesRef = chat.messages) :
    Carries (chat.messages.map DisplayMessage.shown ++ [⟨.user, text⟩]) chat.requests
      (chat.send handleId text) where
  sent := by
    let userMsg : DisplayMessage := ⟨.user, [⟨chat.requests, text⟩], chat.requests⟩
    have hsent : ((chat.send handleId text).calls chat.requests).chatMessages =
        (chat.messagesRef ++ [userMsg]).map DisplayMessage.toChat := by
      simp [Chat.send, userMsg]
    rw [hsent, hrendered, ← map_toChat_shown, List.map_append]
    simp [DisplayMessage.shown, Content.text, userMsg]
  displayed := by
    refine ⟨"", ?_⟩
    simp [Chat.send, DisplayMessage.shown, Content.text]

/-- So it is with the messages that are left of a list. -/
theorem sends_truncate (chat : Chat) (messages : List DisplayMessage) (handleId : ℕ)
    (text : String) :
    chat.Sends (messages.map DisplayMessage.shown ++ [⟨.user, text⟩])
      ((chat.truncate messages).send handleId text) := by
  refine ⟨rfl, fun events last run => ?_⟩
  exact run.invariant (fun h guarded => h.chatStep guarded.1 guarded.2)
    (carries_send (chat.truncate messages) handleId text rfl)

/-! ## When the right history is sent -/

/-- The last two of two messages or more. -/
theorem exists_last_two {messages : List DisplayMessage} (h : ¬ messages.length < 2) :
    ∃ before user answer, messages = before ++ [user, answer] := by
  obtain ⟨early, answer, rfl⟩ :=
    List.eq_nil_or_concat messages |>.resolve_left fun hnil => h (by simp [hnil])
  obtain ⟨before, user, rfl⟩ :=
    List.eq_nil_or_concat early |>.resolve_left fun hnil => h (by simp [hnil])
  exact ⟨before, user, answer, by simp⟩

theorem regenerate_append (closure : Closure) {before : List DisplayMessage}
    {user answer : DisplayMessage} (h : chat.messagesRef = before ++ [user, answer]) :
    chat.regenerate closure =
      if answer.role ≠ .assistant ∨ user.role ≠ .user then chat
      else (chat.truncate (before ++ [user])).sendThrough closure user.content.text := by
  have hlength : (before ++ [user, answer]).length = before.length + 2 := by simp
  have hanswer : (before ++ [user, answer])[before.length + 2 - 1]? = some answer := by simp
  have huser : (before ++ [user, answer])[before.length + 2 - 2]? = some user := by simp
  have hcut : (before ++ [user, answer]).dropLast = before ++ [user] := by simp
  rw [regenerate, h, hlength, if_neg (by omega), hanswer, huser, hcut]

/-- Where a message is sent again, it is the last but one, before the answer that is cut off. -/
theorem regenerate_sent {closure : Closure}
    (h : (chat.regenerate closure).requests = chat.requests + 1) :
    ∃ before user answer, chat.messagesRef = before ++ [user, answer] ∧ user.role = .user ∧
      answer.role = .assistant ∧
      chat.regenerate closure = (chat.truncate (before ++ [user])).send
        (closure.handleId.getD 0) user.content.text := by
  have hunsent : chat.regenerate closure ≠ chat := by
    intro hsame
    rw [hsame] at h
    omega
  have hlength : ¬ chat.messagesRef.length < 2 := fun hshort => hunsent (if_pos hshort)
  obtain ⟨before, user, answer, hmessages⟩ := exists_last_two hlength
  have hregenerate := regenerate_append closure hmessages
  have hroles : ¬ (answer.role ≠ .assistant ∨ user.role ≠ .user) := fun hroles =>
    hunsent (by rw [hregenerate, if_pos hroles])
  rw [if_neg hroles] at hregenerate
  have haccepts : closure.accepts = true := by
    by_contra hrefused
    rw [hregenerate, sendThrough, if_neg hrefused] at h
    exact absurd h (by simp [truncate])
  rw [sendThrough, if_pos haccepts] at hregenerate
  rw [not_or, not_not, not_not] at hroles
  exact ⟨before, user, answer, hmessages, hroles.2, hroles.1, hregenerate⟩

/-- What is asked for again is sent with the message in it twice. -/
theorem not_regeneratesRight {closure : Closure} {message : DisplayMessage}
    (hmessage : message ∈ chat.messagesRef) (hrole : message.role = .user) :
    ¬ chat.RegeneratesRight closure := by
  intro hright
  obtain ⟨before, user, behind, hsplit, huser, hbehind⟩ :=
    @Texts.exists_last _ (fun message => message.role = .user) _ ⟨message, hmessage, hrole⟩
  obtain ⟨hsent, -⟩ := hright before user behind hsplit huser hbehind
  obtain ⟨before, user, answer, hsplit, huser, hanswer, hregenerate⟩ := regenerate_sent hsent
  obtain ⟨-, hcarries⟩ := hright before user [answer] hsplit huser fun message hmem => by
    rw [List.mem_singleton.mp hmem, hanswer]
    exact Role.noConfusion
  obtain ⟨hcarried, -⟩ := hcarries [] _ (Run.nil _)
  obtain ⟨-, htwice⟩ := sends_truncate chat (before ++ [user]) (closure.handleId.getD 0)
    user.content.text
  obtain ⟨hcarriedTwice, -⟩ := htwice [] _ (Run.nil _)
  rw [hregenerate, hcarriedTwice] at hcarried
  exact absurd (congrArg List.length hcarried) (by simp)

/-- **The right history is never sent again**, as the message that is asked for again is in it
twice. Where a message is edited, the right history is sent as soon as anything is. -/
theorem right_history_iff (chat : Chat) (closure : Closure) :
    (chat.RegeneratesRight closure ↔ ∀ message ∈ chat.messagesRef, message.role ≠ .user) ∧
      ∀ index newText, chat.EditsRight closure index newText ↔ closure.accepts = true := by
  refine ⟨⟨fun hright message hmessage hrole => not_regeneratesRight hmessage hrole hright, ?_⟩, ?_⟩
  · intro hnone before user behind hsplit huser _
    exact absurd huser (hnone user (by rw [hsplit]; simp))
  · intro index newText
    constructor
    · intro hright
      by_contra hrefused
      have hsent := hright.1
      rw [editAndResend, sendThrough, if_neg hrefused] at hsent
      exact absurd hsent (by simp [truncate])
    · intro haccepts
      rw [EditsRight, editAndResend, sendThrough, if_pos haccepts]
      exact sends_truncate chat _ _ _

/-- The first answer of a chat is asked for again, and its question is sent twice. -/
theorem asked_twice :
    ∃ events chat closure, Run ChatStep (newChat (some 1)) events chat ∧
      closure ∈ chat.closures ∧ closure.accepts = true ∧
      chat.messagesRef.map DisplayMessage.shown = [⟨.user, "Hi"⟩, ⟨.assistant, "Hello"⟩] ∧
      ((chat.regenerate closure).calls 1).chatMessages = [.userText "Hi", .userText "Hi"] ∧
      ¬ chat.RegeneratesRight closure := by
  have sent : Run ChatStep (newChat (some 1)) _ _ :=
    Run.single (@ChatStep.send _ ⟨some 1, false⟩ "Hi" (by decide) rfl)
  have registered := sent.snoc (@ChatStep.tokenRegistered _ 0 _ rfl)
  have listening := registered.snoc (@ChatStep.tokenListening _ 0 _ rfl)
  have both := listening.snoc (@ChatStep.errorRegistered _ 0 _ rfl)
  have asked := both.snoc (@ChatStep.errorListening _ 0 _ rfl)
  have started := asked.snoc (@ChatStep.start _ 0 rfl)
  have emitted := started.snoc (@ChatStep.emit _ 0 _ "Hello" rfl)
  have delivered := emitted.snoc (@ChatStep.deliver _ 0 _ _ rfl)
  have ended := delivered.snoc (@ChatStep.streamEnds _ 0 _ (.engine "Candle") rfl)
  have replied := ended.snoc (@ChatStep.reply _ 0 _ rfl)
  have rendered := replied.snoc (@ChatStep.render _ (some 1))
  refine ⟨_, _, ⟨some 1, false⟩, rendered, by decide, rfl, by decide, rfl, ?_⟩
  exact @not_regeneratesRight _ _ ⟨.user, [⟨0, "Hi"⟩], 0⟩ (by decide) rfl

end Chat

end HiveBear.Desktop
