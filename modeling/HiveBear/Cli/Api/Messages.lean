/-
# Messages of the API

A client sends the content of a message as a text or as a list of parts, whatever its role. A
user's parts are taken one by one. Of the other roles only a content that is a text is taken,
and a list of parts becomes an empty message.
-/

import HiveBear.Inference.MessageWire
import HiveBear.Library.JsonLimits

namespace HiveBear.Cli.Api

open HiveBear.Inference JsonText

/-! ## The conversion -/

/-- A part of the content of a message. -/
inductive ApiContentPart
  | text (text : String)
  | imageUrl (url : String)

inductive ApiMessageContent
  | text (text : String)
  | parts (parts : List ApiContentPart)

structure ApiToolCallFunction where
  name : String
  arguments : String

structure ApiToolCall where
  id : String
  function : ApiToolCallFunction

structure ApiMessage where
  role : String
  content : Option ApiMessageContent
  toolCalls : Option (List ApiToolCall)
  toolCallId : Option String

/-- A message of the user with one text. -/
def userText (text : String) : ChatMessage := .user [.text text]

/-- The content, if it is a text. -/
def plainText : Option ApiMessageContent → Option String
  | some (.text text) => some text
  | some (.parts _) | none => none

def convertPart : ApiContentPart → ContentPart
  | .text text => .text text
  | .imageUrl url => .imageUrl url

section

variable (readNumber : List Char → Option (List Char))

/-- A call of a tool, with no arguments if their text is no JSON. -/
def convertToolCall (tc : ApiToolCall) : ToolCallResponse where
  toolName := tc.function.name
  arguments := (fromStrWithin readNumber recursionLimit tc.function.arguments.toList).getD .null
  callId := tc.id

def convertApiMessage (m : ApiMessage) : ChatMessage :=
  if m.role = "system" then .system ((plainText m.content).getD "")
  else if m.role = "assistant" then
    .assistant (plainText m.content) ((m.toolCalls.getD []).map (convertToolCall readNumber))
  else if m.role = "tool" then
    .toolResult (m.toolCallId.getD "") ((plainText m.content).getD "")
  else
    -- a user, or an unknown role
    match m.content with
    | some (.parts parts) => .user (parts.map convertPart)
    | some (.text text) => userText text
    | none => userText ""

def convertApiMessages (messages : List ApiMessage) : List ChatMessage :=
  messages.map (convertApiMessage readNumber)

end

/-! ## What is kept of a text -/

def ApiContentPart.text? : ApiContentPart → Option String
  | .text content => some content
  | .imageUrl _ => none

/-- The text that a client sends: a text, or all text parts put together. -/
def ApiMessage.text (m : ApiMessage) : String :=
  match m.content with
  | some (.text text) => text
  | some (.parts parts) => String.join (parts.filterMap ApiContentPart.text?)
  | none => ""

/-- The text of a message. -/
def messageText : ChatMessage → String
  | .system text => text
  | .user parts => String.join (parts.filterMap ContentPart.text?)
  | .assistant content _ => content.getD ""
  | .toolResult _ content => content

/-- The roles of which only a content that is a text is taken. -/
def TakesPlainText (m : ApiMessage) : Prop :=
  m.role = "system" ∨ m.role = "assistant" ∨ m.role = "tool"

/-- No text is lost of a message: where only a text is taken, a list of parts has none. -/
def NoTextInParts (m : ApiMessage) : Prop :=
  TakesPlainText m → ∀ parts, m.content = some (.parts parts) →
    ∀ text ∈ parts.filterMap ApiContentPart.text?, text = ""

theorem join_eq_empty_iff (texts : List String) :
    String.join texts = "" ↔ ∀ text ∈ texts, text = "" := by
  induction texts with
  | nil => simp [String.join]
  | cons text texts ih =>
      rw [String.join_cons, String.append_eq_empty_iff, ih, List.forall_mem_cons]

/-- A user's parts keep their texts. -/
theorem filterMap_convertPart (parts : List ApiContentPart) :
    (parts.map convertPart).filterMap ContentPart.text? =
      parts.filterMap ApiContentPart.text? := by
  rw [List.filterMap_map]
  congr 1
  funext part
  cases part <;> rfl

/-- What is taken of a content is its text, unless it is a list of parts with text in it. -/
theorem plainText_eq_text_iff (m : ApiMessage) :
    (plainText m.content).getD "" = m.text ↔
      ∀ parts, m.content = some (.parts parts) →
        ∀ text ∈ parts.filterMap ApiContentPart.text?, text = "" := by
  rw [ApiMessage.text]
  cases m.content with
  | none => simp [plainText]
  | some content =>
      cases content with
      | text text => simp [plainText]
      | parts parts =>
          have hparts : (∀ others, some (ApiMessageContent.parts parts) = some (.parts others) →
              ∀ text ∈ others.filterMap ApiContentPart.text?, text = "") ↔
              String.join (parts.filterMap ApiContentPart.text?) = "" := by
            rw [join_eq_empty_iff]
            constructor
            · intro h
              exact h parts rfl
            · intro h others hothers
              obtain rfl := ApiMessageContent.parts.inj (Option.some.inj hothers)
              exact h
          rw [hparts]
          exact eq_comm

variable (readNumber : List Char → Option (List Char))

/-- A message keeps its text just if none is in parts that are not taken. -/
theorem messageText_convertApiMessage_iff (m : ApiMessage) :
    messageText (convertApiMessage readNumber m) = m.text ↔ NoTextInParts m := by
  rw [convertApiMessage, NoTextInParts, TakesPlainText]
  split_ifs with hsystem hassistant htool
  · rw [messageText, plainText_eq_text_iff, imp_iff_right (Or.inl hsystem)]
  · rw [messageText, plainText_eq_text_iff, imp_iff_right (Or.inr (Or.inl hassistant))]
  · rw [messageText, plainText_eq_text_iff, imp_iff_right (Or.inr (Or.inr htool))]
  · refine iff_of_true ?_ fun htakes => absurd htakes (by simp [hsystem, hassistant, htool])
    rw [ApiMessage.text]
    cases m.content with
    | none => rfl
    | some content =>
        cases content with
        | text text => simp [messageText, userText, ContentPart.text?, String.join]
        | parts parts => rw [messageText, filterMap_convertPart]

/-- **When API messages keep their text.** There is one message for each message of the client, in
the same order, and each has its text, just if no text is in parts of a message of the system,
the assistant or a tool. -/
theorem convertApiMessages_texts_iff (messages : List ApiMessage) :
    List.Forall₂ (fun (m : ApiMessage) message => messageText message = m.text) messages
        (convertApiMessages readNumber messages) ↔
      ∀ m ∈ messages, NoTextInParts m := by
  rw [convertApiMessages, List.forall₂_map_right_iff, List.forall₂_same]
  exact forall₂_congr fun m _ => messageText_convertApiMessage_iff readNumber m

/-- A system prompt that is sent as a part. -/
def systemParts : ApiMessage := ⟨"system", some (.parts [.text "You are a bee."]), none, none⟩

theorem system_parts_lost :
    ¬ List.Forall₂ (fun (m : ApiMessage) message => messageText message = m.text) [systemParts]
      (convertApiMessages some [systemParts]) := by
  intro hkept
  have htext := (List.forall₂_cons.mp hkept).1
  rw [messageText_convertApiMessage_iff] at htext
  have hempty := htext (Or.inl rfl) _ rfl "You are a bee." List.mem_cons_self
  exact absurd hempty (by decide)

end HiveBear.Cli.Api
