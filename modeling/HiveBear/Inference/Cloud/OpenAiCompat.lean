/-
# The protocol that most providers share

An assistant's message keeps its text and its calls of tools apart, and the arguments of a
call are JSON inside a text. An answer of the provider has the same form, so what is sent as
an assistant's message can be read as an answer.

It is read as what it was, up to what `serde_json` does to the arguments on their way through
their text: values that are nested too deep are not read, and the call then has no arguments;
a float may be read as a neighbouring one.
-/

import HiveBear.Inference.Cloud.Protocol
import HiveBear.Library.JsonLimits

namespace HiveBear.Inference.Cloud.OpenAiCompat

open JsonText

/-! ## Requests -/

def hasImages (parts : List ContentPart) : Bool :=
  parts.any fun part =>
    match part with
    | .text _ => false
    | .image _ _ | .imageUrl _ => true

/-- A part of a message as an item of its content. -/
def partToJson : ContentPart → Value
  | .text text => jsonObject [("type", jsonString "text"), ("text", jsonString text)]
  | .image data mediaType =>
      let b64 := String.ofList (Base64.encode data)
      jsonObject [("type", jsonString "image_url"),
        ("image_url", jsonObject [("url", jsonString s!"data:{mediaType};base64,{b64}")])]
  | .imageUrl url =>
      jsonObject [("type", jsonString "image_url"),
        ("image_url", jsonObject [("url", jsonString url)])]

def partsToContentArray (parts : List ContentPart) : Value := .arr (parts.map partToJson)

def toolChoiceToValue : ToolChoice → Value
  | .auto => jsonString "auto"
  | .required => jsonString "required"
  | .none => jsonString "none"
  | .specific name =>
      jsonObject [("type", jsonString "function"),
        ("function", jsonObject [("name", jsonString name)])]

/-- The entry of an assistant's message. Text that is not there is left out. -/
def assistantEntry (content : Option String) (toolCalls : List ToolCallResponse) : Value :=
  jsonObject (("role", jsonString "assistant") ::
    content.elim [] (fun text => [("content", jsonString text)]) ++ functionCalls toolCalls)

def messageEntry : ChatMessage → Value
  | .system text => textMessage "system" text
  | .user parts =>
      if hasImages parts then
        jsonObject [("role", jsonString "user"), ("content", partsToContentArray parts)]
      else textMessage "user" (extractTextFromParts parts)
  | .assistant content toolCalls => assistantEntry content toolCalls
  | .toolResult toolCallId content =>
      jsonObject [("role", jsonString "tool"), ("tool_call_id", jsonString toolCallId),
        ("content", jsonString content)]

def toolEntry (tool : ToolDefinition) : Value :=
  jsonObject [("type", jsonString "function"),
    ("function", jsonObject [("name", jsonString tool.name),
      ("description", jsonString tool.description), ("parameters", tool.inputSchema)])]

section

variable {F : Type} (floats : RequestFloats F) (modelId : String) (req : GenerateRequest F)
  (stream : Bool)

/-- The fields of a request that are there only if they are needed. -/
def optionalFields : List (String × Value) :=
  (if floats.isZero req.sampling.frequencyPenalty then []
    else [("frequency_penalty", floats.toJson req.sampling.frequencyPenalty)]) ++
  (if floats.isZero req.sampling.presencePenalty then []
    else [("presence_penalty", floats.toJson req.sampling.presencePenalty)]) ++
  (if req.stopSequences.isEmpty then [] else [("stop", jsonStrings req.stopSequences)]) ++
  (if req.tools.isEmpty then []
    else [("tools", .arr (req.tools.map toolEntry)),
      ("tool_choice", toolChoiceToValue req.toolChoice)]) ++
  req.outputSchema.elim [] fun schema =>
    [("response_format", jsonObject [("type", jsonString "json_schema"),
      ("json_schema", jsonObject [("name", jsonString "structured_output"),
        ("strict", .bool true), ("schema", schema)])])]

def buildRequestBody : Value :=
  jsonObject ([("model", jsonString modelId), ("messages", .arr (req.messages.map messageEntry)),
    ("max_tokens", jsonNat req.maxTokens.toNat),
    ("temperature", floats.toJson req.sampling.temperature),
    ("top_p", floats.toJson req.sampling.topP), ("stream", .bool stream)] ++
    optionalFields floats req)

end

/-! ## Answers -/

section

variable (readNumber : List Char → Option (List Char))

/-- The arguments of a call, or none if their text is no JSON. -/
def readArguments (argsStr : String) : Value :=
  (fromStrWithin readNumber recursionLimit argsStr.toList).getD (.obj [])

def readCall (tc : Value) : ToolCallResponse :=
  let func := (getKey tc "function").getD .null
  { toolName := (getStr func "name").getD ""
    arguments := readArguments readNumber ((getStr func "arguments").getD "{}")
    callId := (getStr tc "id").getD "" }

/-- The calls of tools of a message, if it has a list of them that is not empty. -/
def callItems (message : Value) : List Value :=
  ((getKey message "tool_calls").bind asArray).getD []

def parseMessage (message : Value) : GenerateResponse :=
  let text := (getStr message "content").getD ""
  match callItems message with
  | [] => .text text
  | arr =>
      if text = "" then
        match arr with
        | [tc] => .toolCall (readCall readNumber tc)
        | arr => .mixed (arr.map fun tc => .toolCall (readCall readNumber tc))
      else .mixed (.text text :: arr.map fun tc => .toolCall (readCall readNumber tc))

def parseResponse (body : Value) : Except InferenceError GenerateResponse :=
  match (getKey body "choices").bind fun choices => getItem choices 0 with
  | none => .error (.generationError "OpenAI response missing choices[0]")
  | some choice =>
      match getKey choice "message" with
      | none => .error (.generationError "OpenAI response missing choices[0].message")
      | some message => .ok (parseMessage readNumber message)

end

/-! ## What is read of a message -/

variable {readNumber : List Char → Option (List Char)}

/-- A response has all the text of a message. -/
theorem allText_parseMessage (message : Value) :
    (parseMessage readNumber message).allText = (getStr message "content").getD "" := by
  have hcalls (arr : List Value) :
      (arr.map fun tc => ContentBlock.toolCall (readCall readNumber tc)).filterMap
        ContentBlock.text? = [] := by
    rw [List.filterMap_map, List.filterMap_eq_nil_iff]
    exact fun _ _ => rfl
  rw [parseMessage, GenerateResponse.allText]
  generalize (getStr message "content").getD "" = text
  cases callItems message with
  | nil => simp [GenerateResponse.blocks, ContentBlock.text?, String.join]
  | cons tc arr =>
      dsimp only
      by_cases htext : text = ""
      · rw [if_pos htext, htext]
        cases arr with
        | nil => rfl
        | cons next arr =>
            rw [GenerateResponse.blocks, hcalls]
            rfl
      · rw [if_neg htext, GenerateResponse.blocks, List.filterMap_cons, hcalls]
        simp [ContentBlock.text?, String.join]

/-- A response has all the calls of a message, in their order. -/
theorem toolCalls_parseMessage (message : Value) :
    (parseMessage readNumber message).toolCalls = (callItems message).map (readCall readNumber) := by
  have hcalls (arr : List Value) :
      (arr.map fun tc => ContentBlock.toolCall (readCall readNumber tc)).filterMap
        ContentBlock.toolCall? = arr.map (readCall readNumber) := by
    rw [List.filterMap_map]
    exact congrFun (List.filterMap_eq_map (f := readCall readNumber)) arr
  rw [parseMessage, GenerateResponse.toolCalls]
  generalize (getStr message "content").getD "" = text
  cases callItems message with
  | nil => rfl
  | cons tc arr =>
      dsimp only
      by_cases htext : text = ""
      · rw [if_pos htext]
        cases arr with
        | nil => rfl
        | cons next arr => exact hcalls _
      · rw [if_neg htext]
        exact hcalls _

/-! ## An entry, read as an answer -/

theorem getStr_assistantEntry (content : Option String) (toolCalls : List ToolCallResponse) :
    getStr (assistantEntry content toolCalls) "content" = content := by
  rw [assistantEntry, getStr_jsonObject, functionCalls]
  cases content with
  | none => cases toolCalls <;> simp [List.lookup_cons]
  | some text => cases toolCalls <;> simp [List.lookup_cons]

theorem callItems_assistantEntry (content : Option String) (toolCalls : List ToolCallResponse) :
    callItems (assistantEntry content toolCalls) = toolCalls.map functionCall := by
  rw [callItems, assistantEntry, getKey_jsonObject, functionCalls]
  cases toolCalls with
  | nil => cases content <;> simp [List.lookup_cons]
  | cons call calls => simp [asArray]

/-- The arguments of a call come back from their text just if the reader keeps them. -/
theorem readArguments_write_iff {arguments : Value} (h : arguments.Sound) :
    readArguments readNumber (String.ofList (write arguments)) = arguments ↔
      arguments.Within readNumber recursionLimit := by
  rw [← fromStrWithin_write_iff readNumber recursionLimit h, readArguments, String.toList_ofList]
  cases hread : fromStrWithin readNumber recursionLimit (write arguments) with
  | some value => simp
  | none =>
      refine iff_of_false ?_ (Option.some_ne_none arguments).symm
      -- the empty object, which stands for what is not read, would have been read
      rintro rfl
      rw [(fromStrWithin_write_iff readNumber recursionLimit h).mpr ⟨by decide, trivial⟩] at hread
      cases hread

theorem readCall_functionCall_iff {call : ToolCallResponse} (h : call.arguments.Sound) :
    readCall readNumber (functionCall call) = call ↔ call.arguments.Within readNumber recursionLimit := by
  rw [← readArguments_write_iff h]
  obtain ⟨toolName, arguments, callId⟩ := call
  simp [readCall, functionCall, getKey_jsonObject, getStr_jsonObject, List.lookup_cons]

/-- A response is read as this text and these calls of tools. -/
def ReadAs (answer : Except InferenceError GenerateResponse) (content : Option String)
    (toolCalls : List ToolCallResponse) : Prop :=
  ∃ response, answer = .ok response ∧ response.allText = content.getD "" ∧
    response.toolCalls = toolCalls

/-- The message of the first choice of a response. -/
def firstMessage (body : Value) : Option Value :=
  ((getKey body "choices").bind fun choices => getItem choices 0).bind fun choice =>
    getKey choice "message"

theorem parseResponse_of_firstMessage {body message : Value}
    (h : firstMessage body = some message) :
    parseResponse readNumber body = .ok (parseMessage readNumber message) := by
  obtain ⟨choice, hchoice, hmessage⟩ := Option.bind_eq_some_iff.mp h
  rw [parseResponse, hchoice]
  dsimp only
  rw [hmessage]

/-- An entry that comes back as an answer is read as its own text and calls just if the
reader keeps the arguments of every call. -/
theorem readAs_assistantEntry_iff (content : Option String) {toolCalls : List ToolCallResponse}
    (hsound : ∀ call ∈ toolCalls, call.arguments.Sound) {body : Value}
    (hbody : firstMessage body = some (assistantEntry content toolCalls)) :
    ReadAs (parseResponse readNumber body) content toolCalls ↔
      ∀ call ∈ toolCalls, call.arguments.Within readNumber recursionLimit := by
  have hcalls : toolCalls.map (readCall readNumber ∘ functionCall) = toolCalls ↔
      ∀ call ∈ toolCalls, call.arguments.Within readNumber recursionLimit := by
    have hself := List.map_inj_left (f := readCall readNumber ∘ functionCall) (g := id)
      (l := toolCalls)
    rw [List.map_id] at hself
    rw [hself]
    refine forall₂_congr fun call hcall => ?_
    exact readCall_functionCall_iff (hsound call hcall)
  rw [parseResponse_of_firstMessage hbody, ← hcalls]
  have htext := @allText_parseMessage readNumber (assistantEntry content toolCalls)
  have htools := @toolCalls_parseMessage readNumber (assistantEntry content toolCalls)
  rw [getStr_assistantEntry] at htext
  rw [callItems_assistantEntry, List.map_map] at htools
  constructor
  · rintro ⟨response, hresponse, -, hread⟩
    obtain rfl := Except.ok.inj hresponse
    exact htools.symm.trans hread
  · intro hread
    exact ⟨_, rfl, htext, htools.trans hread⟩

/-- A call of a tool as the program can hold it: its arguments are a value of JSON. -/
structure WireCall extends ToolCallResponse where
  sound : arguments.Sound

/-- **Tool calls round trip, within the limits of the reader.** When the entry of an assistant's
message comes back as the first choice of a response, it is read as its text and its calls,
in their order, just if the arguments of every call are within what `serde_json` keeps. -/
theorem assistant_round_trip_iff (content : Option String) (toolCalls : List WireCall)
    (body : Value) (hbody : firstMessage body =
      some (messageEntry (.assistant content (toolCalls.map WireCall.toToolCallResponse)))) :
    ReadAs (parseResponse readNumber body) content (toolCalls.map WireCall.toToolCallResponse) ↔
      ∀ call ∈ toolCalls, call.arguments.Within readNumber recursionLimit := by
  have hsound : ∀ call ∈ toolCalls.map WireCall.toToolCallResponse, call.arguments.Sound := by
    intro call hcall
    obtain ⟨wire, -, rfl⟩ := List.mem_map.mp hcall
    exact wire.sound
  rw [readAs_assistantEntry_iff content hsound hbody, List.forall_mem_map]

/-- A response with one choice. -/
def responseWith (message : Value) : Value :=
  jsonObject [("id", jsonString "chatcmpl-1"),
    ("choices", .arr [jsonObject [("index", jsonNat 0), ("message", message)]])]

theorem firstMessage_responseWith (message : Value) :
    firstMessage (responseWith message) = some message := by
  simp [firstMessage, responseWith, getKey_jsonObject, getItem]

/-- A call whose arguments are empty, and one with an argument. -/
def twoCalls : List WireCall :=
  [⟨⟨"now", .obj [], "call_1"⟩, trivial⟩,
    ⟨⟨"search", jsonObject [("q", jsonString "\"bees\"")], "call_2"⟩, trivial, trivial⟩]

theorem assistant_round_trip_two :
    ReadAs (parseResponse some (responseWith (messageEntry (.assistant (some "One moment.")
        (twoCalls.map WireCall.toToolCallResponse)))))
      (some "One moment.") (twoCalls.map WireCall.toToolCallResponse) := by
  refine (assistant_round_trip_iff (some "One moment.") twoCalls _
    (firstMessage_responseWith _)).mpr ?_
  intro call hcall
  rcases List.mem_cons.mp hcall with rfl | hcall
  · exact ⟨by decide, trivial⟩
  · obtain rfl := List.mem_singleton.mp hcall
    exact ⟨by decide, trivial, trivial⟩

/-! ## Arguments that are not kept -/

/-- Arrays inside arrays. -/
def nested : ℕ → Value
  | 0 => .null
  | n + 1 => .arr [nested n]

theorem depth_nested (n : ℕ) : (nested n).depth = n := by
  induction n with
  | zero => rfl
  | succ n ih => rw [nested, Value.depth, depthItems, depthItems, ih, Nat.max_zero]

theorem sound_nested (n : ℕ) : (nested n).Sound := by
  induction n with
  | zero => trivial
  | succ n ih => exact ⟨ih, trivial⟩

/-- How `serde_json` reads one number: the float that it finds is a neighbouring one. -/
def neighbouring (literal : List Char) : Option (List Char) :=
  if literal = "31.245270191439438".toList then some "31.24527019143944".toList else some literal

/-- The arguments of a call, read from an answer that repeats its entry. -/
def Survives (arguments : Value) : Prop :=
  ReadAs (parseResponse neighbouring (responseWith
    (messageEntry (.assistant none [⟨"f", arguments, "call_1"⟩])))) none [⟨"f", arguments, "call_1"⟩]

theorem survives_iff {arguments : Value} (h : arguments.Sound) :
    Survives arguments ↔ arguments.Within neighbouring recursionLimit := by
  have hsound : ∀ call ∈ [(⟨"f", arguments, "call_1"⟩ : ToolCallResponse)],
      call.arguments.Sound := by
    intro call hcall
    rw [List.mem_singleton.mp hcall]
    exact h
  rw [Survives, messageEntry, readAs_assistantEntry_iff none hsound (firstMessage_responseWith _),
    List.forall_mem_singleton]

/-- Arguments that are nested 128 deep are lost, and a float is read as another one. -/
theorem arguments_not_kept :
    ¬ Survives (nested 128) ∧ ¬ Survives (.num "31.245270191439438".toList) := by
  constructor
  · rw [survives_iff (sound_nested 128)]
    intro hwithin
    have hdepth := hwithin.1
    rw [depth_nested] at hdepth
    exact absurd hdepth (by decide)
  · have hsound : (Value.num "31.245270191439438".toList).Sound :=
      ⟨⟨false, ⟨"31".toList, by decide, Texts.forall_mem_of_all rfl⟩,
        some ⟨"245270191439438".toList, by decide, Texts.forall_mem_of_all rfl⟩, none⟩,
        by decide, by decide⟩
    rw [survives_iff hsound]
    intro hwithin
    have hkept : neighbouring "31.245270191439438".toList = some "31.245270191439438".toList :=
      hwithin.2
    exact absurd hkept (by decide)

end HiveBear.Inference.Cloud.OpenAiCompat
