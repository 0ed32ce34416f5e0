/-
# Protocols of cloud providers

Each protocol turns a request into the JSON body that a family of providers takes, and reads
the JSON body of an answer. Here is what they share: requests, answers, and how a body is
built and looked into.

Floats are only written and compared with constants, which is all that is asked of them.
-/

import HiveBear.Inference.MessageWire
import HiveBear.Inference.Orchestrator
import Mathlib.Data.Rat.Defs

namespace HiveBear.Inference.Cloud

open JsonText

/-! ## Requests -/

/-- What the protocols do with floats. -/
structure RequestFloats (F : Type) where
  toJson : F → Value
  isZero : F → Bool
  lessThanOne : F → Bool
  /-- The float is no further from a literal than the machine's epsilon. -/
  isNear : F → ℚ → Bool

structure SamplingParams (F : Type) where
  temperature : F
  topP : F
  topK : UInt32
  frequencyPenalty : F
  presencePenalty : F

/-- Controls how the model should use tools. -/
inductive ToolChoice
  | auto
  | required
  | none
  | specific (name : String)

structure GenerateRequest (F : Type) where
  messages : List ChatMessage
  maxTokens : UInt32
  sampling : SamplingParams F
  outputSchema : Option Value
  tools : List ToolDefinition
  toolChoice : ToolChoice
  stopSequences : List String

/-! ## Answers -/

/-- A block within a mixed response. -/
inductive ContentBlock
  | text (content : String)
  | toolCall (call : ToolCallResponse)

/-- The response to a request that is not streamed. -/
inductive GenerateResponse
  | text (content : String)
  | toolCall (call : ToolCallResponse)
  | mixed (blocks : List ContentBlock)

def ContentBlock.text? : ContentBlock → Option String
  | .text content => some content
  | .toolCall _ => none

def ContentBlock.toolCall? : ContentBlock → Option ToolCallResponse
  | .text _ => none
  | .toolCall call => some call

namespace GenerateResponse

/-- The response, block by block. -/
def blocks : GenerateResponse → List ContentBlock
  | .text content => [.text content]
  | .toolCall call => [.toolCall call]
  | .mixed blocks => blocks

/-- All the text of a response. -/
def allText (response : GenerateResponse) : String :=
  String.join (response.blocks.filterMap ContentBlock.text?)

def toolCalls (response : GenerateResponse) : List ToolCallResponse :=
  response.blocks.filterMap ContentBlock.toolCall?

end GenerateResponse

/-! ## Bodies -/

def jsonNat (n : ℕ) : Value := .num (toString n).toList

def jsonStrings (texts : List String) : Value := .arr (texts.map jsonString)

/-- The value under a key of an object. -/
def getKey (value : Value) (key : String) : Option Value :=
  match value with
  | .obj fields => getField fields key
  | _ => none

/-- The item of an array at a place. -/
def getItem (value : Value) (i : ℕ) : Option Value :=
  match value with
  | .arr items => items[i]?
  | _ => none

def asArray : Value → Option (List Value)
  | .arr items => some items
  | _ => none

/-- The text under a key. -/
def getStr (value : Value) (key : String) : Option String := (getKey value key).bind asStr

@[simp]
theorem asStr_str (text : List Char) : asStr (.str text) = some (String.ofList text) := rfl

@[simp]
theorem getKey_null (key : String) : getKey .null key = none := rfl

theorem getKey_jsonObject (fields : List (String × Value)) (key : String) :
    getKey (jsonObject fields) key = fields.reverse.lookup key := by
  rw [jsonObject, getKey, getField_jsonFields]

theorem getStr_jsonObject (fields : List (String × Value)) (key : String) :
    getStr (jsonObject fields) key = (fields.reverse.lookup key).bind asStr := by
  rw [getStr, getKey_jsonObject]

/-- The text parts of a message of the user, one on each line. -/
def extractTextFromParts (parts : List ContentPart) : String :=
  "\n".intercalate (parts.filterMap ContentPart.text?)

/-- A call of a tool as OpenAI and Cohere write it. The arguments are JSON in a text. -/
def functionCall (call : ToolCallResponse) : Value :=
  jsonObject [("id", jsonString call.callId), ("type", jsonString "function"),
    ("function", jsonObject [("name", jsonString call.toolName),
      ("arguments", .str (write call.arguments))])]

/-- The calls of tools of a message, if there are any. -/
def functionCalls (toolCalls : List ToolCallResponse) : List (String × Value) :=
  if toolCalls.isEmpty then [] else [("tool_calls", .arr (toolCalls.map functionCall))]

/-- The text of the first system message. -/
def firstSystem (messages : List ChatMessage) : Option String :=
  messages.findSome? fun message =>
    match message with
    | .system text => some text
    | _ => none

/-- A message of the system or of a user, whose content is a text. -/
def textMessage (role content : String) : Value :=
  jsonObject [("role", jsonString role), ("content", jsonString content)]

end HiveBear.Inference.Cloud
