/-
# Chats with a peer

A chat asks a peer for a whole answer and reads what comes back until it is told that the answer is
over. The daemon of the peer says so twice: with a token that is marked as the last one, and with a
message behind it.

The chat of the desktop app connects anew for each request, and gets what it would get from an
engine of its own. The chat of the command line keeps its connection. What the daemon says the
second time is still there when the next request is made, and is read as the answer to it. From
then on an answer is read in two turns, and each is shown later than it was asked for.
-/

import HiveBear.Desktop.Chat
import HiveBear.Inference.MessageWire
import HiveBear.Mesh.Pipeline.Replication

namespace HiveBear.Cli

open Mesh

/-! ## Reading an answer -/

/-- What a message is to a chat, whatever session it is of. -/
inductive Heard
  | token (text : String)
  | ended (error : Option String)
  | nothing
  deriving DecidableEq

def heard : MeshMessage → Heard
  | .inferenceToken _ text _ isDone => if isDone then .ended none else .token text
  | .inferenceComplete _ _ _ error => .ended error
  | .error _ message => .ended (some message)
  | _ => .nothing

/-- An answer as it was read: its texts, and the error that it ended with. -/
abbrev Reply := List String × Option String

/-- Read an answer, and leave what is behind it. If it is not over yet, the chat waits. -/
def readReply : List MeshMessage → Option (Reply × List MeshMessage)
  | [] => none
  | message :: rest =>
      match heard message with
      | .token text =>
          (readReply rest).map fun read => ((text :: read.1.1, read.1.2), read.2)
      | .ended error => some (([], error), rest)
      | .nothing => readReply rest

/-- All the answers that are over. -/
def replies : List MeshMessage → List Reply
  | [] => []
  | message :: rest =>
      match heard message with
      | .token text => (replies rest).modifyHead fun reply => (text :: reply.1, reply.2)
      | .ended error => ([], error) :: replies rest
      | .nothing => replies rest

/-- What is read is the first answer, and the others are left. -/
theorem replies_of_readReply {messages left : List MeshMessage} {reply : Reply}
    (h : readReply messages = some (reply, left)) :
    replies messages = reply :: replies left := by
  induction messages generalizing reply with
  | nil => cases h
  | cons message rest ih =>
      rw [readReply] at h
      rw [replies]
      cases hheard : heard message with
      | token text =>
          rw [hheard] at h
          obtain ⟨⟨later, after⟩, hread, hpair⟩ := Option.map_eq_some_iff.mp h
          cases hpair
          dsimp only
          rw [ih hread]
          rfl
      | ended error =>
          rw [hheard] at h
          cases h
          rfl
      | nothing =>
          rw [hheard] at h
          exact ih h

theorem readReply_eq_none {messages : List MeshMessage} (h : readReply messages = none) :
    replies messages = [] := by
  induction messages with
  | nil => rfl
  | cons message rest ih =>
      rw [readReply] at h
      rw [replies]
      cases hheard : heard message with
      | token text =>
          rw [hheard] at h
          dsimp only
          rw [ih (Option.map_eq_none_iff.mp h)]
          rfl
      | ended error =>
          rw [hheard] at h
          cases h
      | nothing =>
          rw [hheard] at h
          exact ih h

/-- Messages that arrive behind an answer do not change it. -/
theorem readReply_append {messages left : List MeshMessage} {reply : Reply}
    (h : readReply messages = some (reply, left)) (more : List MeshMessage) :
    readReply (messages ++ more) = some (reply, left ++ more) := by
  induction messages generalizing reply with
  | nil => cases h
  | cons message rest ih =>
      rw [readReply] at h
      rw [List.cons_append, readReply]
      cases hheard : heard message with
      | token text =>
          rw [hheard] at h
          obtain ⟨⟨later, after⟩, hread, hpair⟩ := Option.map_eq_some_iff.mp h
          cases hpair
          dsimp only
          rw [ih hread]
          rfl
      | ended error =>
          rw [hheard] at h
          cases h
          rfl
      | nothing =>
          rw [hheard] at h
          exact ih h

/-! ## What a daemon sends -/

/-- What a chat that goes on reading makes of an answer of the daemon: the answer, and another one
without any text, unless the answer ended with an error. -/
def repliesOf (result : ChatResult) : List Reply :=
  let outcome := chatOutcome result
  if outcome.2 = none then [outcome, ([], none)] else [outcome]

theorem replies_streamMessages (sessionId : Uuid) (fullText : String) (tokenCount : ℕ)
    (results : List (Except String String)) (more : List MeshMessage) :
    replies (RequestTask.streamMessages sessionId fullText tokenCount results ++ more) =
      repliesOf (.ok results) ++ replies more := by
  induction results generalizing fullText tokenCount with
  | nil => rfl
  | cons result results ih =>
      cases result with
      | error err => rfl
      | ok text =>
          have hlater := ih (fullText ++ text) ((tokenCount + 1) % 2 ^ 32)
          have hstep : replies (RequestTask.streamMessages sessionId fullText tokenCount
              (.ok text :: results) ++ more) =
                (replies (RequestTask.streamMessages sessionId (fullText ++ text)
                  ((tokenCount + 1) % 2 ^ 32) results ++ more)).modifyHead
                    fun reply => (text :: reply.1, reply.2) := rfl
          rw [hstep, hlater, repliesOf, repliesOf]
          cases herror : (streamOutcome results).2 <;>
            simp [chatOutcome, streamOutcome, herror]

theorem replies_pending (peerId : NodeId) (sessionId : Uuid) (result : ChatResult)
    (more : List MeshMessage) :
    replies ((RequestTask.spawn peerId sessionId result).pending ++ more) =
      repliesOf result ++ replies more := by
  cases result with
  | error err => rfl
  | ok results => exact replies_streamMessages sessionId "" 0 results more

/-! ## The chat of the command line -/

/-- A conversation with a peer over one connection. What the peer makes of the requests is noted,
though the chat does not know it. -/
structure MeshChat where
  history : List Inference.ChatMessage
  /-- What has arrived and has not been read. -/
  inbox : List MeshMessage
  shown : List Reply
  results : List ChatResult

/-- A line that is entered, and what comes of sending it. -/
structure MeshTurn where
  input : String
  sessionId : Uuid
  isSent : Bool

namespace MeshChat

def empty : MeshChat := ⟨[], [], [], []⟩

variable (localId : NodeId) (handler : MeshInferenceHandler) (model : String)
  (temperature : UInt32)

/-- A turn of the conversation, whose answer arrives behind all the earlier ones. It has no result
if the chat waits forever. -/
def turn (chat : MeshChat) (line : MeshTurn) : Option MeshChat :=
  let history := chat.history ++ [.user [.text line.input]]
  if line.isSent then
    let result := handler.handleInference model (String.ofList (Inference.messagesJson history))
      2048 temperature
    let arrived := chat.inbox ++ (RequestTask.spawn localId line.sessionId result).pending
    (readReply arrived).map fun (reply, left) =>
      let response := String.join reply.1
      { history :=
          if response = "" then history else history ++ [.assistant (some response) []]
        inbox := left
        shown := chat.shown ++ [reply]
        results := chat.results ++ [result] }
  else some { chat with history := history }

/-- What has been shown and what is still to be read are the answers to all requests, and as many
have been shown as requests have been made. -/
structure Behind (chat : MeshChat) (unread : List Reply) : Prop where
  inbox : ∀ more, replies (chat.inbox ++ more) = unread ++ replies more
  all : chat.shown ++ unread = chat.results.flatMap repliesOf
  length : chat.shown.length = chat.results.length

theorem repliesOf_ne_nil (result : ChatResult) : repliesOf result ≠ [] := by
  rw [repliesOf]
  split_ifs <;> exact List.cons_ne_nil _ _

/-- No turn waits forever, and each reads one answer. -/
theorem Behind.turn {chat : MeshChat} {unread : List Reply} (h : chat.Behind unread)
    (line : MeshTurn) :
    ∃ later unread', chat.turn localId handler model temperature line = some later ∧
      later.Behind unread' := by
  rw [MeshChat.turn]
  by_cases hsent : line.isSent = true
  · rw [if_pos hsent]
    generalize handler.handleInference model _ 2048 temperature = result
    have harrived (more : List MeshMessage) :
        replies (chat.inbox ++ (RequestTask.spawn localId line.sessionId result).pending ++ more) =
          unread ++ repliesOf result ++ replies more := by
      rw [List.append_assoc, h.inbox, replies_pending, List.append_assoc]
    dsimp only
    generalize chat.inbox ++ (RequestTask.spawn localId line.sessionId result).pending = arrived
      at harrived ⊢
    have hnone := harrived []
    rw [List.append_nil, replies, List.append_nil] at hnone
    cases hread : readReply arrived with
    | none =>
        rw [readReply_eq_none hread] at hnone
        exact absurd (List.append_eq_nil_iff.mp hnone.symm).2 (repliesOf_ne_nil result)
    | some read =>
        obtain ⟨reply, left⟩ := read
        rw [replies_of_readReply hread] at hnone
        refine ⟨_, replies left, rfl, ?_, ?_, ?_⟩
        · intro more
          have hmore := harrived more
          rw [replies_of_readReply (readReply_append hread more), ← hnone] at hmore
          exact List.tail_eq_of_cons_eq hmore
        · change chat.shown ++ [reply] ++ replies left = (chat.results ++ [result]).flatMap repliesOf
          rw [List.flatMap_append, List.flatMap_singleton, ← h.all, List.append_assoc,
            List.singleton_append, hnone, List.append_assoc]
        · simp [h.length]
  · rw [if_neg hsent]
    exact ⟨_, unread, rfl, h.inbox, h.all, h.length⟩

theorem behind_turns (lines : List MeshTurn) :
    ∃ chat unread, lines.foldlM (MeshChat.turn localId handler model temperature) empty =
      some chat ∧ chat.Behind unread := by
  induction lines using List.reverseRecOn with
  | nil => exact ⟨empty, [], rfl, fun more => rfl, rfl, rfl⟩
  | append_singleton lines line ih =>
      obtain ⟨chat, unread, hchat, hbehind⟩ := ih
      obtain ⟨later, unread', hlater, hbehind'⟩ :=
        hbehind.turn localId handler model temperature line
      refine ⟨later, unread', ?_, hbehind'⟩
      rw [List.foldlM_append, hchat]
      simp [hlater]

/-- Answers without errors are read in two turns each. -/
theorem getElem?_flatMap_repliesOf {results : List ChatResult}
    (h : ∀ result ∈ results, (chatOutcome result).2 = none) (k : ℕ) :
    (results.flatMap repliesOf)[2 * k]? = results[k]?.map chatOutcome ∧
      (results.flatMap repliesOf)[2 * k + 1]? = results[k]?.map fun _ => ([], none) := by
  induction results generalizing k with
  | nil => simp
  | cons result results ih =>
      obtain ⟨hfirst, hlater⟩ := List.forall_mem_cons.mp h
      rw [List.flatMap_cons, repliesOf, if_pos hfirst]
      cases k with
      | zero => exact ⟨rfl, rfl⟩
      | succ k => exact ih hlater k

/-- **Each turn shows the next answer that has not been shown.** No turn waits forever. An answer
that succeeds is followed by an empty one, so that if all of them do, every second turn shows
nothing, and the others show the answers to requests that are longer and longer ago. -/
theorem shown_of_turns (lines : List MeshTurn) :
    ∃ chat, lines.foldlM (MeshChat.turn localId handler model temperature) empty = some chat ∧
      chat.shown = (chat.results.flatMap repliesOf).take chat.results.length ∧
      ((∀ result ∈ chat.results, (chatOutcome result).2 = none) → ∀ k,
        (2 * k < chat.results.length → chat.shown[2 * k]? = chat.results[k]?.map chatOutcome) ∧
          (2 * k + 1 < chat.results.length → chat.shown[2 * k + 1]? = some ([], none))) := by
  obtain ⟨chat, unread, hchat, hbehind⟩ := behind_turns localId handler model temperature lines
  have hshown : chat.shown = (chat.results.flatMap repliesOf).take chat.results.length := by
    rw [← hbehind.all, ← hbehind.length, List.take_left']
    rfl
  refine ⟨chat, hchat, hshown, fun hall k => ⟨fun hk => ?_, fun hk => ?_⟩⟩
  · rw [hshown, List.getElem?_take_of_lt hk]
    exact (getElem?_flatMap_repliesOf hall k).1
  · rw [hshown, List.getElem?_take_of_lt hk, (getElem?_flatMap_repliesOf hall k).2,
      List.getElem?_eq_getElem (by omega)]
    rfl

end MeshChat

end HiveBear.Cli

namespace HiveBear.Desktop

open Cli Mesh

/-! ## The chat of the desktop app -/

/-- What the window is told of a stream, the text that has been collected, and the error. -/
abbrev Relayed := List StreamEvent × String × Option String

/-- Stream from an engine of this machine. -/
def streamEngine (fullText : String) : List (Except String String) → Relayed
  | [] => ([], fullText, none)
  | .error message :: _ => ([.error message], fullText, some message)
  | .ok text :: rest =>
      let (events, full, error) := streamEngine (fullText ++ text) rest
      (.token text :: events, full, error)

/-- Stream from a peer, over a connection of its own. If nothing more arrives, the chat waits. -/
def streamPeer (fullText : String) : List (Except String MeshMessage) → Option Relayed
  | [] => none
  | .error e :: _ => some ([.error e], fullText, some e)
  | .ok message :: rest =>
      match heard message with
      | .token text =>
          (streamPeer (fullText ++ text) rest).map fun (events, full, error) =>
            (.token text :: events, full, error)
      | .ended error => some (error.toList.map .error, fullText, error)
      | .nothing => streamPeer fullText rest

/-- What a command returns behind its stream. The window is told that the stream is over. -/
def returned (host : Host) (relayed : Relayed) : Except String String :=
  streamResult host relayed.2.1 relayed.2.2

/-- What is relayed of some texts and an error. -/
def relayedOf (fullText : String) (outcome : List String × Option String) : Relayed :=
  (outcome.1.map .token ++ outcome.2.toList.map .error, fullText ++ String.join outcome.1, outcome.2)

theorem streamEngine_eq (fullText : String) (results : List (Except String String)) :
    streamEngine fullText results = relayedOf fullText (streamOutcome results) := by
  induction results generalizing fullText with
  | nil => simp [streamEngine, relayedOf, streamOutcome]
  | cons result results ih =>
      cases result with
      | error message => simp [streamEngine, relayedOf, streamOutcome]
      | ok text =>
          rw [streamEngine, ih]
          simp [relayedOf, streamOutcome, String.append_assoc]

/-- Messages that a chat does not heed make no difference to it. -/
theorem streamPeer_filter (fullText : String) (received : List MeshMessage) :
    streamPeer fullText ((received.filter fun message => heard message ≠ .nothing).map .ok) =
      streamPeer fullText (received.map .ok) := by
  induction received generalizing fullText with
  | nil => rfl
  | cons message rest ih =>
      rw [List.map_cons, streamPeer]
      cases hheard : heard message with
      | token text =>
          rw [List.filter_cons_of_pos (by simp [hheard]), List.map_cons, streamPeer, hheard]
          dsimp only
          rw [ih]
      | ended error =>
          rw [List.filter_cons_of_pos (by simp [hheard]), List.map_cons, streamPeer, hheard]
      | nothing =>
          rw [List.filter_cons_of_neg (by simp [hheard])]
          exact ih fullText

theorem streamPeer_streamMessages (sessionId : Uuid) (sent fullText : String) (tokenCount : ℕ)
    (results : List (Except String String)) (more : List MeshMessage) :
    streamPeer fullText
        ((RequestTask.streamMessages sessionId sent tokenCount results ++ more).map .ok) =
      some (relayedOf fullText (streamOutcome results)) := by
  induction results generalizing sent fullText tokenCount with
  | nil => simp [RequestTask.streamMessages, streamPeer, heard, relayedOf, streamOutcome]
  | cons result results ih =>
      cases result with
      | error err => simp [RequestTask.streamMessages, streamPeer, heard, relayedOf, streamOutcome]
      | ok text =>
          have hstep : streamPeer fullText ((RequestTask.streamMessages sessionId sent tokenCount
              (.ok text :: results) ++ more).map .ok) =
                (streamPeer (fullText ++ text) ((RequestTask.streamMessages sessionId (sent ++ text)
                  ((tokenCount + 1) % 2 ^ 32) results ++ more).map .ok)).map
                    fun (events, full, error) => (.token text :: events, full, error) := rfl
          rw [hstep, ih]
          simp [relayedOf, streamOutcome, String.append_assoc]

end HiveBear.Desktop
