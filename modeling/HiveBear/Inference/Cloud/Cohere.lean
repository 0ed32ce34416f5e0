/-
# Cohere's protocol

System messages stay among the others. The content of a message is a text, and calls of tools
stand next to it. Of an answer only the text of the first item of its content is read, or a
text next to the message.
-/

import HiveBear.Inference.Cloud.Protocol

namespace HiveBear.Inference.Cloud.Cohere

open JsonText

/-! ## Requests -/

def convertMessage : ChatMessage → Value
  | .system text => textMessage "system" text
  | .user parts => textMessage "user" (extractTextFromParts parts)
  | .assistant content toolCalls =>
      jsonObject ([("role", jsonString "assistant"), ("content", jsonString (content.getD ""))] ++
        functionCalls toolCalls)
  | .toolResult toolCallId content =>
      jsonObject [("role", jsonString "tool"), ("tool_call_id", jsonString toolCallId),
        ("content", jsonString content)]

section

variable {F : Type} (floats : RequestFloats F) (modelId : String) (req : GenerateRequest F)
  (stream : Bool)

/-- The fields of a request that are there only if they are needed. -/
def optionalFields : List (String × Value) :=
  (if floats.lessThanOne req.sampling.topP then [("p", floats.toJson req.sampling.topP)]
    else []) ++
  (if 0 < req.sampling.topK then [("k", jsonNat req.sampling.topK.toNat)] else []) ++
  (if floats.isZero req.sampling.frequencyPenalty then []
    else [("frequency_penalty", floats.toJson req.sampling.frequencyPenalty)]) ++
  (if floats.isZero req.sampling.presencePenalty then []
    else [("presence_penalty", floats.toJson req.sampling.presencePenalty)]) ++
  if req.stopSequences.isEmpty then [] else [("stop_sequences", jsonStrings req.stopSequences)]

def buildRequestBody : Value :=
  jsonObject ([("model", jsonString modelId),
    ("messages", .arr (req.messages.map convertMessage)),
    ("max_tokens", jsonNat req.maxTokens.toNat),
    ("temperature", floats.toJson req.sampling.temperature), ("stream", .bool stream)] ++
    optionalFields floats req)

end

/-! ## Answers -/

def parseResponse (body : Value) : Except InferenceError GenerateResponse :=
  let content := (getKey body "message").bind fun message => getKey message "content"
  match (content.bind fun content => getItem content 0).bind fun item => getStr item "text" with
  | some text => .ok (.text text)
  | none =>
      match getStr body "text" with
      | some text => .ok (.text text)
      | none =>
          .error (.generationError ("Failed to parse Cohere response: expected " ++
            s!"message.content[0].text or text field in {String.ofList (write body)}"))

end HiveBear.Inference.Cloud.Cohere
