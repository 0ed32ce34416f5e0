/-
# Gemini's protocol

The system text is a field of the request and takes the first system message only. The content
of a message is a list of parts. Of an answer only the text of the first part is read.
-/

import HiveBear.Inference.Cloud.Protocol

namespace HiveBear.Inference.Cloud.Gemini

open JsonText

/-! ## Requests -/

def textPart (text : String) : Value := jsonObject [("text", jsonString text)]

/-- A part of a message. An address of an image is told in words. -/
def partToJson : ContentPart → Value
  | .text text => textPart text
  | .image data mediaType =>
      jsonObject [("inlineData", jsonObject [("mimeType", jsonString mediaType),
        ("data", .str (Base64.encode data))])]
  | .imageUrl url => textPart s!"[image: {url}]"

def functionCallPart (call : ToolCallResponse) : Value :=
  jsonObject [("functionCall", jsonObject [("name", jsonString call.toolName),
    ("args", call.arguments)])]

/-- The parts of an assistant's message. There must be one at least. -/
def assistantParts (content : Option String) (toolCalls : List ToolCallResponse) : List Value :=
  let text := content.elim [] fun text => if text.isEmpty then [] else [textPart text]
  let parts := text ++ toolCalls.map functionCallPart
  if parts.isEmpty then [textPart ""] else parts

def contentEntry (role : String) (parts : List Value) : Value :=
  jsonObject [("role", jsonString role), ("parts", .arr parts)]

/-- The entry of a message. A system message has none. -/
def convertMessage : ChatMessage → Option Value
  | .system _ => none
  | .user parts => some (contentEntry "user" (parts.map partToJson))
  | .assistant content toolCalls =>
      some (contentEntry "model" (assistantParts content toolCalls))
  | .toolResult _ content => some (contentEntry "user" [textPart content])

section

variable {F : Type} (floats : RequestFloats F) (req : GenerateRequest F)

def generationConfig : Value :=
  jsonObject ([("temperature", floats.toJson req.sampling.temperature),
    ("maxOutputTokens", jsonNat req.maxTokens.toNat),
    ("topP", floats.toJson req.sampling.topP)] ++
    (if req.stopSequences.isEmpty then []
      else [("stopSequences", jsonStrings req.stopSequences)]) ++
    if 0 < req.sampling.topK then [("topK", jsonNat req.sampling.topK.toNat)] else [])

def buildRequestBody : Value :=
  jsonObject ([("contents", .arr (req.messages.filterMap convertMessage)),
    ("generationConfig", generationConfig floats req)] ++
    (firstSystem req.messages).elim [] fun text =>
      [("systemInstruction", jsonObject [("parts", .arr [textPart text])])])

end

/-! ## Answers -/

/-- The parts of the first candidate of a body. -/
def firstParts (body : Value) : Option Value :=
  let candidate := (getKey body "candidates").bind fun candidates => getItem candidates 0
  let content := candidate.bind fun candidate => getKey candidate "content"
  content.bind fun content => getKey content "parts"

def parseResponse (body : Value) : Except InferenceError GenerateResponse :=
  match ((firstParts body).bind fun parts => getItem parts 0).bind fun part =>
    getStr part "text" with
  | some text => .ok (.text text)
  | none =>
      .error (.generationError ("Failed to parse Gemini response: missing " ++
        s!"candidates[0].content.parts[0].text in {String.ofList (write body)}"))

end HiveBear.Inference.Cloud.Gemini
