/-
# Messages on the wire

A mesh backend sends a conversation as JSON, and the daemon reads it back. The messages are written
as their types say. They are read by hand, since a message may come in several shapes: the content of
an assistant may be a text, an object, or nothing.

What was written is read as it was, whatever the texts, the images and the calls of tools hold.
-/

import HiveBear.Inference.ToolCalling
import HiveBear.Library.Base64
import HiveBear.Library.JsonWriter
import HiveBear.Library.PartialMaps

namespace HiveBear.Inference

open JsonText

/-! ## Writing -/

def jsonString (text : String) : Value := .str text.toList

def jsonFields (fields : List (String × Value)) : List (List Char × Value) :=
  fields.map fun field => (field.1.toList, field.2)

/-- An object with these fields. -/
def jsonObject (fields : List (String × Value)) : Value := .obj (jsonFields fields)

/-- The type of a part stands among its fields, and an image is written as letters. -/
def ContentPart.serialize : ContentPart → Value
  | .text content => jsonObject [("type", jsonString "text"), ("text", jsonString content)]
  | .image data mediaType =>
      jsonObject [("type", jsonString "image"), ("data", .str (Base64.encode data)),
        ("media_type", jsonString mediaType)]
  | .imageUrl url => jsonObject [("type", jsonString "image_url"), ("url", jsonString url)]

def ToolCallResponse.serialize (call : ToolCallResponse) : Value :=
  jsonObject [("tool_name", jsonString call.toolName), ("arguments", call.arguments),
    ("call_id", jsonString call.callId)]

/-- The role and the content of a message stand side by side. -/
def tagged (role : String) (content : Value) : Value :=
  jsonObject [("role", jsonString role), ("content", content)]

/-- The content of an assistant: the calls of tools are left out if there are none. -/
def assistantContent (content : Option String) (toolCalls : List ToolCallResponse) : Value :=
  jsonObject (("content", content.elim .null jsonString) ::
    if toolCalls.isEmpty then []
    else [("tool_calls", .arr (toolCalls.map ToolCallResponse.serialize))])

def ChatMessage.serialize : ChatMessage → Value
  | .system text => tagged "system" (jsonString text)
  | .user parts => tagged "user" (.arr (parts.map ContentPart.serialize))
  | .assistant content toolCalls => tagged "assistant" (assistantContent content toolCalls)
  | .toolResult toolCallId content =>
      tagged "tool" (jsonObject [("tool_call_id", jsonString toolCallId),
        ("content", jsonString content)])

/-- The conversation as it is sent. -/
def messagesJson (messages : List ChatMessage) : List Char :=
  write (.arr (messages.map ChatMessage.serialize))

/-! ## Reading -/

/-- The fields of a struct, by name or by place. -/
def structFields (names : List String) : Value → Option (List Value)
  | .obj fields => names.mapM (getField fields)
  | .arr items => if items.length = names.length then some items else none
  | _ => none

/-- The type of a part, and what is left. -/
def internalTag : Value → Option (String × Value)
  | .obj fields =>
      (getField fields "type").bind fun tag => (asStr tag).map fun tag =>
        (tag, .obj (fields.filter fun field => field.1 ≠ "type".toList))
  | .arr (tag :: items) => (asStr tag).map fun tag => (tag, .arr items)
  | _ => none

def ContentPart.deserialize (value : Value) : Option ContentPart :=
  (internalTag value).bind fun (tag, rest) =>
    if tag = "text" then
      match structFields ["text"] rest with
      | some [content] => (asStr content).map .text
      | _ => none
    else if tag = "image" then
      match structFields ["data", "media_type"] rest with
      | some [.str data, mediaType] =>
          (Base64.decode data).bind fun data => (asStr mediaType).map (.image data)
      | _ => none
    else if tag = "image_url" then
      match structFields ["url"] rest with
      | some [url] => (asStr url).map .imageUrl
      | _ => none
    else none

def ToolCallResponse.deserialize (value : Value) : Option ToolCallResponse :=
  match structFields ["tool_name", "arguments", "call_id"] value with
  | some [toolName, arguments, callId] =>
      (asStr toolName).bind fun toolName => (asStr callId).map fun callId =>
        ⟨toolName, arguments, callId⟩
  | _ => none

/-- The items of an array, each read alike. -/
def readAll {α : Type} (read : Value → Option α) : Value → Option (List α)
  | .arr items => items.mapM read
  | _ => none

/-- What is wrong with a message: what the reader says, or what its parts do. -/
inductive DeError
  | custom (text : String)
  | serde
  deriving DecidableEq

def orSerde {α : Type} : Option α → Except DeError α
  | some a => .ok a
  | none => .error .serde

def optional (value : Value) : Option Value :=
  match value with
  | .null => none
  | value => some value

/-- The role of a message and its content, if it has any. Neither may be there twice. -/
def rawMessage : Value → Option (String × Option Value)
  | .obj fields =>
      match fields.filter (fun field => field.1 = "role".toList),
        fields.filter (fun field => field.1 = "content".toList) with
      | [role], [] => (asStr role.2).map fun role => (role, none)
      | [role], [content] => (asStr role.2).map fun role => (role, optional content.2)
      | _, _ => none
  | .arr [role, content] => (asStr role).map fun role => (role, optional content)
  | _ => none

/-- The calls of tools in the content of an assistant. -/
def readToolCalls (fields : List (List Char × Value)) : Except DeError (List ToolCallResponse) :=
  match getField fields "tool_calls" with
  | some toolCalls => orSerde (readAll ToolCallResponse.deserialize toolCalls)
  | none => .ok []

def ChatMessage.deserialize (value : Value) : Except DeError ChatMessage :=
  match rawMessage value with
  | none => .error .serde
  | some (role, content) =>
      if role = "system" then
        match content with
        | some (.str text) => .ok (.system (String.ofList text))
        | some value => .ok (.system (String.ofList (write value)))
        | none => .ok (.system "")
      else if role = "user" then
        match content with
        | some value => (orSerde (readAll ContentPart.deserialize value)).map .user
        | none => .ok (.user [])
      else if role = "assistant" then
        match content with
        | some (.str text) => .ok (.assistant (some (String.ofList text)) [])
        | some (.obj fields) =>
            (readToolCalls fields).map
              (.assistant ((getField fields "content").bind asStr))
        | none => .ok (.assistant none [])
        | some _ => .error (.custom "invalid assistant content")
      else if role = "tool" then
        match content with
        | some (.obj fields) =>
            match (getField fields "tool_call_id").bind asStr with
            | none => .error (.custom "missing tool_call_id")
            | some toolCallId =>
                .ok (.toolResult toolCallId
                  (((getField fields "content").bind asStr).getD ""))
        | _ => .error (.custom "expected object for tool content")
      else .error (.custom ("unknown role: " ++ role))

/-- The conversation that is read. -/
def readMessages (text : List Char) : Except DeError (List ChatMessage) :=
  match fromStr text with
  | some (.arr items) => items.mapM ChatMessage.deserialize
  | _ => .error .serde

/-! ## Round trips -/

@[simp]
theorem asStr_jsonString (text : String) : asStr (jsonString text) = some text := by
  rw [jsonString, asStr, String.ofList_toList]

@[simp]
theorem filter_jsonFields (fields : List (String × Value)) (p : List Char → Bool) :
    (jsonFields fields).filter (fun field => p field.1) =
      jsonFields (fields.filter fun field => p field.1.toList) := by
  rw [jsonFields, jsonFields, List.filter_map]
  rfl

theorem lookup_jsonFields (fields : List (String × Value)) (name : String) :
    (jsonFields fields).lookup name.toList = fields.lookup name := by
  induction fields with
  | nil => rfl
  | cons first fields ih =>
      obtain ⟨key, value⟩ := first
      change List.lookup name.toList ((key.toList, value) :: jsonFields fields) = _
      have hsame : (name.toList == key.toList) = (name == key) := by
        rw [Bool.eq_iff_iff, beq_iff_eq, beq_iff_eq, String.toList_inj]
      rw [List.lookup_cons, List.lookup_cons, hsame, ih]

theorem getField_jsonFields (fields : List (String × Value)) (name : String) :
    getField (jsonFields fields) name = fields.reverse.lookup name := by
  have hreverse : (jsonFields fields).reverse = jsonFields fields.reverse :=
    List.map_reverse.symm
  rw [getField, hreverse, lookup_jsonFields]

theorem readAll_map {α : Type} {serialize : α → Value} {read : Value → Option α}
    (h : ∀ item, read (serialize item) = some item) (items : List α) :
    readAll read (.arr (items.map serialize)) = some items := by
  rw [readAll]
  exact PartialMaps.mapM_map_eq_some fun item _ => h item

/-- A call of a tool is read as it was written. -/
theorem ToolCallResponse.deserialize_serialize (call : ToolCallResponse) :
    deserialize call.serialize = some call := by
  have hfields : structFields ["tool_name", "arguments", "call_id"] call.serialize =
      some [jsonString call.toolName, call.arguments, jsonString call.callId] := by
    rw [serialize, jsonObject, structFields]
    simp [getField_jsonFields, List.lookup_cons]
  rw [deserialize, hfields]
  simp

/-- The type of a part is found, with the other fields as they were. -/
theorem internalTag_jsonObject (tag : String) {fields : List (String × Value)}
    (h : ∀ field ∈ fields, field.1 ≠ "type") :
    internalTag (jsonObject (("type", jsonString tag) :: fields)) = some (tag, jsonObject fields) := by
  have hothers : fields.reverse.lookup "type" = none := by
    rw [List.lookup_eq_none_iff]
    intro field hfield
    simpa using (h field (List.mem_reverse.mp hfield)).symm
  have hkept : fields.filter (fun field => field.1 ≠ "type") = fields :=
    List.filter_eq_self.mpr fun field hfield => by simpa using h field hfield
  have htag : getField (jsonFields (("type", jsonString tag) :: fields)) "type" =
      some (jsonString tag) := by
    rw [getField_jsonFields, List.reverse_cons, List.lookup_append, hothers]
    rfl
  have hrest : (jsonFields (("type", jsonString tag) :: fields)).filter
      (fun field => field.1 ≠ "type".toList) = jsonFields fields := by
    have hfilter := filter_jsonFields (("type", jsonString tag) :: fields)
      fun key => key ≠ "type".toList
    simp only [ne_eq, String.toList_inj] at hfilter
    simp only [ne_eq] at hkept ⊢
    rw [hfilter, List.filter_cons_of_neg (by simp), hkept]
  rw [jsonObject, internalTag, htag, hrest, Option.bind_some, asStr_jsonString, Option.map_some,
    jsonObject]

/-- A part is read as it was written. -/
theorem ContentPart.deserialize_serialize (part : ContentPart) :
    deserialize part.serialize = some part := by
  cases part with
  | text content =>
      have htag : internalTag (serialize (.text content)) = _ :=
        internalTag_jsonObject "text" (by simp)
      have hfields : structFields ["text"] (jsonObject [("text", jsonString content)]) =
          some [jsonString content] := by
        simp [jsonObject, structFields, getField_jsonFields]
      rw [deserialize, htag]
      simp [hfields]
  | image data mediaType =>
      have htag : internalTag (serialize (.image data mediaType)) = _ :=
        internalTag_jsonObject "image" (by simp)
      have hfields : structFields ["data", "media_type"]
          (jsonObject [("data", .str (Base64.encode data)), ("media_type", jsonString mediaType)]) =
            some [.str (Base64.encode data), jsonString mediaType] := by
        simp [jsonObject, structFields, getField_jsonFields, List.lookup_cons]
      rw [deserialize, htag]
      simp [hfields, Base64.decode_encode]
  | imageUrl url =>
      have htag : internalTag (serialize (.imageUrl url)) = _ :=
        internalTag_jsonObject "image_url" (by simp)
      have hfields : structFields ["url"] (jsonObject [("url", jsonString url)]) =
          some [jsonString url] := by
        simp [jsonObject, structFields, getField_jsonFields]
      rw [deserialize, htag]
      simp [hfields]

/-- The role and the content of a message are found. -/
theorem rawMessage_tagged (role : String) {content : Value} (h : content ≠ .null) :
    rawMessage (tagged role content) = some (role, some content) := by
  have hfilter (name : String) :=
    filter_jsonFields [("role", jsonString role), ("content", content)] fun key => key = name.toList
  simp only [String.toList_inj] at hfilter
  have hrole : (jsonFields [("role", jsonString role), ("content", content)]).filter
      (fun field => field.1 = "role".toList) = [("role".toList, jsonString role)] := by
    rw [hfilter]
    simp [jsonFields]
  have hcontent : (jsonFields [("role", jsonString role), ("content", content)]).filter
      (fun field => field.1 = "content".toList) = [("content".toList, content)] := by
    rw [hfilter]
    simp [jsonFields]
  have hoptional : optional content = some content := by
    cases content with
    | null => exact absurd rfl h
    | bool | num | str | arr | obj => rfl
  rw [tagged, jsonObject, rawMessage, hrole, hcontent]
  dsimp only
  rw [asStr_jsonString, hoptional, Option.map_some]

/-- What an assistant says is read as it was written, with the calls of tools. -/
theorem lookup_assistantContent (content : Option String) (toolCalls : List ToolCallResponse) :
    ∃ fields, assistantContent content toolCalls = .obj fields ∧
      (getField fields "content").bind asStr = content ∧
      readToolCalls fields = .ok toolCalls := by
  refine ⟨_, rfl, ?_, ?_⟩
  · have hlookup : getField (jsonFields (("content", content.elim .null jsonString) ::
        if toolCalls.isEmpty then []
        else [("tool_calls", .arr (toolCalls.map ToolCallResponse.serialize))])) "content" =
          some (content.elim .null jsonString) := by
      rw [getField_jsonFields]
      cases toolCalls with
      | nil => rfl
      | cons call calls => simp [List.lookup_cons]
    rw [hlookup, Option.bind_some]
    cases content with
    | none => rfl
    | some text => exact asStr_jsonString text
  · have hcalls := readAll_map ToolCallResponse.deserialize_serialize toolCalls
    rw [readToolCalls]
    cases toolCalls with
    | nil =>
        rw [getField_jsonFields]
        rfl
    | cons call calls =>
        have hlookup : getField (jsonFields (("content", content.elim .null jsonString) ::
            [("tool_calls", .arr ((call :: calls).map ToolCallResponse.serialize))])) "tool_calls" =
              some (.arr ((call :: calls).map ToolCallResponse.serialize)) := by
          rw [getField_jsonFields]
          simp
        change (match getField (jsonFields (("content", content.elim .null jsonString) ::
          [("tool_calls", .arr ((call :: calls).map ToolCallResponse.serialize))])) "tool_calls" with
            | some toolCalls => orSerde (readAll ToolCallResponse.deserialize toolCalls)
            | none => .ok []) = _
        rw [hlookup]
        exact congrArg orSerde hcalls

/-- A message is read as it was written. -/
theorem ChatMessage.deserialize_serialize (message : ChatMessage) :
    deserialize message.serialize = .ok message := by
  cases message with
  | system text =>
      have hraw : rawMessage (serialize (.system text)) = some ("system", some (jsonString text)) :=
        rawMessage_tagged "system" (by simp [jsonString])
      rw [deserialize, hraw, jsonString]
      simp
  | user parts =>
      have hraw : rawMessage (serialize (.user parts)) =
          some ("user", some (.arr (parts.map ContentPart.serialize))) :=
        rawMessage_tagged "user" (by simp)
      rw [deserialize, hraw]
      simp [readAll_map ContentPart.deserialize_serialize, orSerde, Except.map]
  | assistant content toolCalls =>
      obtain ⟨fields, hobject, hcontent, hcalls⟩ := lookup_assistantContent content toolCalls
      have hraw : rawMessage (serialize (.assistant content toolCalls)) =
          some ("assistant", some (.obj fields)) := by
        rw [serialize, hobject]
        exact rawMessage_tagged "assistant" (by simp)
      rw [deserialize, hraw]
      dsimp only
      rw [if_neg (by decide), if_neg (by decide), if_pos rfl, hcontent, hcalls]
      rfl
  | toolResult toolCallId content =>
      have hraw : rawMessage (serialize (.toolResult toolCallId content)) =
          some ("tool", some (jsonObject [("tool_call_id", jsonString toolCallId),
            ("content", jsonString content)])) :=
        rawMessage_tagged "tool" (by simp [jsonObject])
      have hid : (getField (jsonFields [("tool_call_id", jsonString toolCallId),
          ("content", jsonString content)]) "tool_call_id").bind asStr = some toolCallId := by
        rw [getField_jsonFields]
        simp [List.lookup_cons]
      have hcontent : (getField (jsonFields [("tool_call_id", jsonString toolCallId),
          ("content", jsonString content)]) "content").bind asStr = some content := by
        rw [getField_jsonFields]
        simp
      rw [deserialize, hraw, jsonObject]
      dsimp only
      rw [if_neg (by decide), if_neg (by decide), if_neg (by decide), if_pos rfl, hid, hcontent]
      rfl

/-! ## Conversations -/

/-- The arguments of all calls of tools are JSON. -/
def ChatMessage.Sound : ChatMessage → Prop
  | .assistant _ toolCalls => ∀ call ∈ toolCalls, call.arguments.Sound
  | .system _ | .user _ | .toolResult _ _ => True

theorem soundFields_jsonFields {fields : List (String × Value)}
    (h : ∀ field ∈ fields, field.2.Sound) : SoundFields (jsonFields fields) := by
  induction fields with
  | nil => trivial
  | cons first fields ih =>
      obtain ⟨hfirst, hfields⟩ := List.forall_mem_cons.mp h
      exact ⟨hfirst, ih hfields⟩

theorem soundItems_map {α : Type} {serialize : α → Value} {items : List α}
    (h : ∀ item ∈ items, (serialize item).Sound) : SoundItems (items.map serialize) := by
  induction items with
  | nil => trivial
  | cons item items ih =>
      obtain ⟨hitem, hitems⟩ := List.forall_mem_cons.mp h
      exact ⟨hitem, ih hitems⟩

theorem ContentPart.sound_serialize (part : ContentPart) : part.serialize.Sound := by
  cases part with
  | text | image | imageUrl =>
      apply soundFields_jsonFields
      simp [jsonString, Value.Sound]

/-- What is written of a message with sound arguments is JSON. -/
theorem ChatMessage.sound_serialize {message : ChatMessage} (h : message.Sound) :
    message.serialize.Sound := by
  have htagged (role : String) {content : Value} (hcontent : content.Sound) :
      (tagged role content).Sound := by
    apply soundFields_jsonFields
    simp [jsonString, Value.Sound, hcontent]
  cases message with
  | system text => exact htagged "system" trivial
  | user parts =>
      exact htagged "user" (soundItems_map fun part _ => part.sound_serialize)
  | assistant content toolCalls =>
      have hcalls : SoundItems (toolCalls.map ToolCallResponse.serialize) := by
        apply soundItems_map
        intro call hcall
        apply soundFields_jsonFields
        simp [jsonString, Value.Sound, h call hcall]
      have hcontent : (content.elim .null jsonString).Sound := by
        cases content <;> trivial
      apply htagged "assistant"
      apply soundFields_jsonFields
      intro field hfield
      rcases List.mem_cons.mp hfield with rfl | hrest
      · exact hcontent
      · split at hrest
        · cases hrest
        · rw [List.mem_singleton.mp hrest]
          exact hcalls
  | toolResult toolCallId content =>
      apply htagged "tool"
      apply soundFields_jsonFields
      simp [jsonString, Value.Sound]

/-- A message as the program can hold it: the arguments of its calls are values of JSON. -/
def WireMessage : Type := { message : ChatMessage // message.Sound }

/-- **Messages survive the wire.** What the daemon reads is the conversation that the backend
wrote. -/
theorem readMessages_messagesJson (messages : List WireMessage) :
    readMessages (messagesJson (messages.map Subtype.val)) = .ok (messages.map Subtype.val) := by
  have hsound : (Value.arr ((messages.map Subtype.val).map ChatMessage.serialize)).Sound := by
    apply soundItems_map
    intro message hmessage
    obtain ⟨wire, -, rfl⟩ := List.mem_map.mp hmessage
    exact wire.val.sound_serialize wire.property
  rw [readMessages, messagesJson, fromStr_write hsound]
  dsimp only
  induction messages.map Subtype.val with
  | nil => rfl
  | cons message messages ih =>
      rw [List.map_cons, List.mapM_cons, message.deserialize_serialize, ih]
      rfl

end HiveBear.Inference
