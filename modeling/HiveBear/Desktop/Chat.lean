/-
# The chat of the desktop app

A chat sends requests to the backend one after the other. A request listens to the events of
the window, starts a stream, and shows what arrives in the last message. The events do not
say which stream they are from, and the listeners, the buffer and whether to stop are shared
by all requests of the chat.

A request waits at several places: for each of its two listeners to be registered, for the
promise of that to be resolved, and for the reply of the backend. In between anything may
happen, and the events of a stream may arrive late, even behind its reply. Stopping a request
does not end its stream.

Each piece of a text carries the number of the request that it came from, and each message
that of the request it was made for. The code knows neither.
-/

import HiveBear.Library.Run
import HiveBear.Library.Texts
import Mathlib.Logic.Function.Basic

namespace HiveBear.Desktop

/-! ## Messages -/

inductive Role
  | user
  | assistant
  | system
  | tool
  deriving DecidableEq

/-- A part of a text, and the request that it came from. -/
structure Piece where
  request : ℕ
  text : String
  deriving DecidableEq

abbrev Content := List Piece

def Content.text (content : Content) : String := String.join (content.map Piece.text)

/-- A message, and the request that it was made for. -/
structure DisplayMessage where
  role : Role
  content : Content
  request : ℕ
  deriving DecidableEq

/-- A message as the backend is sent it. -/
inductive ChatMessage
  | system (content : String)
  | assistant (content : String)
  | userText (content : String)

def DisplayMessage.toChat (message : DisplayMessage) : ChatMessage :=
  match message.role with
  | .system => .system message.content.text
  | .assistant => .assistant message.content.text
  | .user | .tool => .userText message.content.text

/-- Overwrite the last message with one of the assistant. -/
def setLast (messages : List DisplayMessage) (content : Content) : List DisplayMessage :=
  match messages.getLast? with
  | some last => messages.dropLast ++ [⟨.assistant, content, last.request⟩]
  | none => []

/-! ## The reply of the backend -/

/-- What the trimming of JavaScript cuts off. -/
def isJsSpace (c : Char) : Bool :=
  [0x9, 0xA, 0xB, 0xC, 0xD, 0x20, 0xA0, 0x1680, 0x2028, 0x2029, 0x202F, 0x205F, 0x3000,
    0xFEFF].contains c.toNat || (0x2000 ≤ c.toNat && c.toNat ≤ 0x200A)

/-- What a handle stands for. -/
inductive Host
  | engine (name : String)
  | meshPeer (address : String)

/-- What the backend says of a stream without any output. -/
def Host.noOutput : Host → String
  | .engine name =>
      s!"The model produced no output (engine: {name}). Unload and load the model again, " ++
        "or install a different model."
  | .meshPeer address =>
      s!"The remote mesh peer ({address}) returned no output. " ++
        "Verify that the model is loaded on the peer."

/-- What the command that streams a chat returns behind its stream. -/
def streamResult (host : Host) (fullText : String) (streamError : Option String) :
    Except String String :=
  if fullText.toList.all Texts.isRustSpace then .error (streamError.getD host.noOutput)
  else .ok fullText

/-- An event of the window. -/
inductive StreamEvent
  | token (text : String)
  | error (message : String)

/-! ## Requests -/

/-- The two listeners that are to be removed, by the requests they belong to. -/
structure UnlistenRefs where
  token : Option ℕ
  error : Option ℕ
  deriving DecidableEq

/-- How far a request is. While it listens, it holds the object that the listener is to be
noted in, which is the current one of when it began to. -/
inductive CallPhase
  | unsent
  | listenToken (refs : ℕ)
  /-- The listener is registered, and the promise is not resolved yet. -/
  | tokenRegistered (refs : ℕ)
  | listenError (refs : ℕ)
  | errorRegistered (refs : ℕ)
  /-- The backend has been asked to stream. -/
  | asked
  /-- The stream runs, with this text so far. -/
  | streaming (fullText : String)
  | replying (result : Except String String)
  | returned (fullReply : Option String)

def CallPhase.isRunning : CallPhase → Bool
  | .unsent | .returned _ => false
  | _ => true

/-- A request, and the events of its stream that have not been delivered. -/
structure Call where
  handleId : ℕ
  chatMessages : List ChatMessage
  phase : CallPhase
  errorShown : Bool
  pending : List StreamEvent

/-- What `send` has seen when it was rendered. -/
structure Closure where
  handleId : Option ℕ
  streaming : Bool
  deriving DecidableEq

/-- A chat. The listeners are given by the requests they belong to. -/
structure Chat where
  messages : List DisplayMessage
  streaming : Bool
  streamBuffer : Content
  messagesRef : List DisplayMessage
  stopRef : Bool
  /-- The objects that listeners are noted in, the current one last. -/
  unlistenRefs : List UnlistenRefs
  tokenListeners : List ℕ
  errorListeners : List ℕ
  closures : List Closure
  requests : ℕ
  calls : ℕ → Call
  /-- At each stop, how many requests had been sent. -/
  stops : List ℕ

/-- A chat as it is first rendered. -/
def newChat (handleId : Option ℕ) : Chat where
  messages := []
  streaming := false
  streamBuffer := []
  messagesRef := []
  stopRef := false
  unlistenRefs := [⟨none, none⟩]
  tokenListeners := []
  errorListeners := []
  closures := [⟨handleId, false⟩]
  requests := 0
  calls _ := ⟨0, [], .unsent, false, []⟩
  stops := []

namespace Chat

variable (chat : Chat)

/-- Which object is the current one. -/
def currentRefs : ℕ := chat.unlistenRefs.length - 1

def current : UnlistenRefs := chat.unlistenRefs.getLast?.getD ⟨none, none⟩

def setCall (i : ℕ) (call : Call) : Chat :=
  { chat with calls := Function.update chat.calls i call }

def setPhase (i : ℕ) (phase : CallPhase) : Chat :=
  chat.setCall i { chat.calls i with phase := phase }

@[simp]
theorem calls_setCall_self (i : ℕ) (call : Call) : (chat.setCall i call).calls i = call := by
  simp [setCall]

theorem calls_setCall_of_ne {i k : ℕ} (h : k ≠ i) (call : Call) :
    (chat.setCall i call).calls k = chat.calls k := by
  simp [setCall, Function.update, h]

theorem phase_setPhase (i : ℕ) (phase : CallPhase) :
    ((chat.setPhase i phase).calls i).phase = phase := by
  rw [setPhase, calls_setCall_self]

/-- Show a content in the last message. -/
def display (content : Content) : Chat :=
  { chat with messages := setLast chat.messages content }

/-- Remove the listeners that are noted, and begin a new object. -/
def unlisten : Chat :=
  { chat with
    tokenListeners := chat.tokenListeners.filter fun i => some i ≠ chat.current.token
    errorListeners := chat.errorListeners.filter fun i => some i ≠ chat.current.error
    unlistenRefs := chat.unlistenRefs ++ [⟨none, none⟩] }

/-- Send a request, up to where it first waits. -/
def send (handleId : ℕ) (text : String) : Chat :=
  let userMsg : DisplayMessage := ⟨.user, [⟨chat.requests, text⟩], chat.requests⟩
  let chatMessages := (chat.messagesRef ++ [userMsg]).map DisplayMessage.toChat
  { chat with
    stopRef := false
    messages := chat.messages ++ [userMsg, ⟨.assistant, [], chat.requests⟩]
    streaming := true
    streamBuffer := []
    requests := chat.requests + 1
    calls := Function.update chat.calls chat.requests
      ⟨handleId, chatMessages, .listenToken chat.currentRefs, false, []⟩ }

def stop : Chat :=
  let chat := { chat with stopRef := true }.unlisten
  let chat := if chat.streamBuffer.text ≠ "" then chat.display chat.streamBuffer else chat
  { chat with
    streaming := false
    stops := chat.requests :: chat.stops }

/-- A token of a stream, at any listener. -/
def onToken (i : ℕ) (text : String) : Chat :=
  if chat.stopRef then chat
  else
    let content := chat.streamBuffer ++ [⟨i, text⟩]
    { chat.display content with streamBuffer := content }

/-- An error of a stream, at the listener of a request. -/
def onError (i : ℕ) (message : String) (owner : ℕ) : Chat :=
  (chat.display [⟨i, "Error: " ++ message⟩]).setCall owner
    { chat.calls owner with errorShown := true }

/-- An event of a stream reaches every listener. -/
def receive (i : ℕ) : StreamEvent → Chat
  | .token text => chat.tokenListeners.foldl (fun chat _ => chat.onToken i text) chat
  | .error message =>
      chat.errorListeners.foldl (fun chat owner => chat.onError i message owner) chat

/-- What a request does in any case before it returns. -/
def finish (i : ℕ) (fullReply : Option String) : Chat :=
  let chat := { chat.unlisten with streaming := false }
  let fullReply :=
    if chat.stopRef ∧ chat.streamBuffer.text ≠ "" then some chat.streamBuffer.text else fullReply
  chat.setPhase i (.returned fullReply)

/-- What is shown of a reply without any output. -/
def noOutputText : String :=
  "Error: the model returned no output. The loaded engine produced nothing for this prompt — " ++
    "unload and load the model again, or install a different model from the Model Browser."

/-- Listening or streaming has failed. -/
def fail (i : ℕ) (message : String) : Chat :=
  (if chat.stopRef then chat else chat.display [⟨i, "Error: " ++ message⟩]).finish i none

/-- The reply of the backend. -/
def reply (i : ℕ) : Except String String → Chat
  | .ok fullReply =>
      let silent := !chat.stopRef && !(chat.calls i).errorShown && fullReply.toList.all isJsSpace
      (if silent then chat.display [⟨i, noOutputText⟩] else chat).finish i (some fullReply)
  | .error message => chat.fail i message

end Chat

/-! ## The steps -/

inductive ChatEvent
  /-- The chat is rendered, for this model. -/
  | render (handleId : Option ℕ)
  /-- The user sends, through what was rendered then. -/
  | send (closure : Closure) (text : String)
  | stop
  /-- A listener of a request is registered. -/
  | registered (i : ℕ)
  /-- The promise of that is resolved. -/
  | listening (i : ℕ)
  | listenFails (i : ℕ) (message : String)
  | start (i : ℕ)
  | refuse (i : ℕ) (message : String)
  | emit (i : ℕ) (text : String)
  | streamFails (i : ℕ) (message : String)
  | streamEnds (i : ℕ)
  /-- An event of a stream is delivered. -/
  | deliver (i : ℕ)
  /-- The reply of the backend arrives. -/
  | reply (i : ℕ)

/-- Whether a request is accepted. -/
def Closure.accepts (closure : Closure) : Bool :=
  closure.handleId.getD 0 ≠ 0 && !closure.streaming

/-- One step of the chat, of the backend, or of the user. -/
inductive ChatStep : Chat → ChatEvent → Chat → Prop
  | render {chat : Chat} (handleId : Option ℕ) :
      ChatStep chat (.render handleId)
        { chat with
          messagesRef := chat.messages
          closures := chat.closures ++ [⟨handleId, chat.streaming⟩] }
  | notSent {chat : Chat} {closure : Closure} (text : String)
      (rendered : closure ∈ chat.closures) (refused : closure.accepts = false) :
      ChatStep chat (.send closure text) chat
  | send {chat : Chat} {closure : Closure} (text : String)
      (rendered : closure ∈ chat.closures) (accepted : closure.accepts = true) :
      ChatStep chat (.send closure text) (chat.send (closure.handleId.getD 0) text)
  | stop {chat : Chat} : ChatStep chat .stop chat.stop
  | tokenRegistered {chat : Chat} {i refs : ℕ}
      (phase : (chat.calls i).phase = .listenToken refs) :
      ChatStep chat (.registered i)
        { chat.setPhase i (.tokenRegistered refs) with
          tokenListeners := chat.tokenListeners ++ [i] }
  | tokenListening {chat : Chat} {i refs : ℕ}
      (phase : (chat.calls i).phase = .tokenRegistered refs) :
      ChatStep chat (.listening i)
        { chat.setPhase i (.listenError chat.currentRefs) with
          unlistenRefs := chat.unlistenRefs.modify refs ({ · with token := some i }) }
  | errorRegistered {chat : Chat} {i refs : ℕ}
      (phase : (chat.calls i).phase = .listenError refs) :
      ChatStep chat (.registered i)
        { chat.setPhase i (.errorRegistered refs) with
          errorListeners := chat.errorListeners ++ [i] }
  | errorListening {chat : Chat} {i refs : ℕ}
      (phase : (chat.calls i).phase = .errorRegistered refs) :
      ChatStep chat (.listening i)
        { chat.setPhase i .asked with
          unlistenRefs := chat.unlistenRefs.modify refs ({ · with error := some i }) }
  | listenTokenFails {chat : Chat} {i refs : ℕ} (message : String)
      (phase : (chat.calls i).phase = .listenToken refs) :
      ChatStep chat (.listenFails i message) (chat.fail i message)
  | listenErrorFails {chat : Chat} {i refs : ℕ} (message : String)
      (phase : (chat.calls i).phase = .listenError refs) :
      ChatStep chat (.listenFails i message) (chat.fail i message)
  | start {chat : Chat} {i : ℕ} (phase : (chat.calls i).phase = .asked) :
      ChatStep chat (.start i) (chat.setPhase i (.streaming ""))
  | refuse {chat : Chat} {i : ℕ} (message : String) (phase : (chat.calls i).phase = .asked) :
      ChatStep chat (.refuse i message) (chat.setPhase i (.replying (.error message)))
  | emit {chat : Chat} {i : ℕ} {fullText : String} (text : String)
      (phase : (chat.calls i).phase = .streaming fullText) :
      ChatStep chat (.emit i text)
        (chat.setCall i
          { chat.calls i with
            phase := .streaming (fullText ++ text)
            pending := (chat.calls i).pending ++ [.token text] })
  | streamFails {chat : Chat} {i : ℕ} {fullText : String} (host : Host) (message : String)
      (phase : (chat.calls i).phase = .streaming fullText) :
      ChatStep chat (.streamFails i message)
        (chat.setCall i
          { chat.calls i with
            phase := .replying (streamResult host fullText (some message))
            pending := (chat.calls i).pending ++ [.error message] })
  | streamEnds {chat : Chat} {i : ℕ} {fullText : String} (host : Host)
      (phase : (chat.calls i).phase = .streaming fullText) :
      ChatStep chat (.streamEnds i)
        (chat.setPhase i (.replying (streamResult host fullText none)))
  | deliver {chat : Chat} {i : ℕ} {event : StreamEvent} {rest : List StreamEvent}
      (pending : (chat.calls i).pending = event :: rest) :
      ChatStep chat (.deliver i)
        ((chat.setCall i { chat.calls i with pending := rest }).receive i event)
  | reply {chat : Chat} {i : ℕ} {result : Except String String}
      (phase : (chat.calls i).phase = .replying result) :
      ChatStep chat (.reply i) (chat.reply i result)

end HiveBear.Desktop
