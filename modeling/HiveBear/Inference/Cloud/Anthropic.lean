/-
# Anthropic's protocol

The system text is a field of the request, next to the messages, and takes the first system
message only. The content of a message is a list of blocks, and so is the answer: texts and
calls of tools, in any mixture.
-/

import HiveBear.Inference.Cloud.Protocol

namespace HiveBear.Inference.Cloud.Anthropic

open JsonText

/-! ## Requests -/

def textBlock (text : String) : Value :=
  jsonObject [("type", jsonString "text"), ("text", jsonString text)]

def contentPartToJson : ContentPart → Value
  | .text text => textBlock text
  | .image data mediaType =>
      jsonObject [("type", jsonString "image"),
        ("source", jsonObject [("type", jsonString "base64"),
          ("media_type", jsonString mediaType), ("data", .str (Base64.encode data))])]
  | .imageUrl url =>
      jsonObject [("type", jsonString "image"),
        ("source", jsonObject [("type", jsonString "url"), ("url", jsonString url)])]

def toolChoiceToJson : ToolChoice → Value
  | .auto => jsonObject [("type", jsonString "auto")]
  | .required => jsonObject [("type", jsonString "any")]
  | .none => jsonObject [("type", jsonString "none")]
  | .specific name => jsonObject [("type", jsonString "tool"), ("name", jsonString name)]

def toolUseBlock (call : ToolCallResponse) : Value :=
  jsonObject [("type", jsonString "tool_use"), ("id", jsonString call.callId),
    ("name", jsonString call.toolName), ("input", call.arguments)]

/-- The blocks of an assistant's message. There must be one at least. -/
def assistantBlocks (content : Option String) (toolCalls : List ToolCallResponse) : List Value :=
  let text := content.elim [] fun text => if text.isEmpty then [] else [textBlock text]
  let blocks := text ++ toolCalls.map toolUseBlock
  if blocks.isEmpty then [textBlock ""] else blocks

/-- The entry of a message. A system message has none. -/
def messageEntry : ChatMessage → Option Value
  | .system _ => none
  | .user parts =>
      some (jsonObject [("role", jsonString "user"),
        ("content", .arr (parts.map contentPartToJson))])
  | .assistant content toolCalls =>
      some (jsonObject [("role", jsonString "assistant"),
        ("content", .arr (assistantBlocks content toolCalls))])
  | .toolResult toolCallId content =>
      some (jsonObject [("role", jsonString "user"),
        ("content", .arr [jsonObject [("type", jsonString "tool_result"),
          ("tool_use_id", jsonString toolCallId), ("content", jsonString content)]])])

def toolEntry (tool : ToolDefinition) : Value :=
  jsonObject [("name", jsonString tool.name), ("description", jsonString tool.description),
    ("input_schema", tool.inputSchema)]

section

variable {F : Type} (floats : RequestFloats F) (modelId : String) (req : GenerateRequest F)
  (stream : Bool)

/-- The fields of a request that are there only if they are needed. -/
def optionalFields : List (String × Value) :=
  (if floats.isNear req.sampling.temperature (7 / 10) then []
    else [("temperature", floats.toJson req.sampling.temperature)]) ++
  (if floats.isNear req.sampling.topP (9 / 10) then []
    else [("top_p", floats.toJson req.sampling.topP)]) ++
  (if req.stopSequences.isEmpty then []
    else [("stop_sequences", jsonStrings req.stopSequences)]) ++
  (if req.tools.isEmpty then []
    else [("tools", .arr (req.tools.map toolEntry)),
      ("tool_choice", toolChoiceToJson req.toolChoice)]) ++
  if stream then [("stream", .bool true)] else []

def buildRequestBody : Value :=
  jsonObject ([("model", jsonString modelId),
    ("messages", .arr (req.messages.filterMap messageEntry)),
    ("max_tokens", jsonNat req.maxTokens.toNat)] ++
    (firstSystem req.messages).elim [] (fun text => [("system", jsonString text)]) ++
    optionalFields floats req stream)

end

/-! ## Answers -/

/-- A block of the content, if it is a text or a call of a tool. -/
def readBlock (block : Value) : Option ContentBlock :=
  match getStr block "type" with
  | some type =>
      if type = "text" then (getStr block "text").map .text
      else if type = "tool_use" then
        some (.toolCall ⟨(getStr block "name").getD "", (getKey block "input").getD .null,
          (getStr block "id").getD ""⟩)
      else none
  | none => none

/-- The response with these blocks: a text if there are no calls of tools, a call if there is
nothing else, and otherwise both in their order. -/
def responseOf (blocks : List ContentBlock) : GenerateResponse :=
  let textBlocks := blocks.filterMap ContentBlock.text?
  match blocks.filterMap ContentBlock.toolCall? with
  | [] => .text (String.join textBlocks)
  | [call] => if textBlocks.isEmpty then .toolCall call else .mixed blocks
  | _ => .mixed blocks

def parseResponse (body : Value) : Except InferenceError GenerateResponse :=
  match (getKey body "content").bind asArray with
  | none =>
      .error (.generationError
        s!"Anthropic response missing 'content' array: {String.ofList (write body)}")
  | some [] => .error (.generationError "Anthropic response has empty content array")
  | some content => .ok (responseOf (content.filterMap readBlock))

end HiveBear.Inference.Cloud.Anthropic
