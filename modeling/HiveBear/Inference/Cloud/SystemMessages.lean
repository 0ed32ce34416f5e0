/-
# What of a conversation reaches a provider

Every message of a user or an assistant has an entry in the body of a request, in its order
and with its texts. System messages keep their entries too where the provider takes them among
the others. Where it takes a system text of its own, that is the first one, and the texts of
the later system messages are in no field of the body.
-/

import HiveBear.Inference.Cloud.Anthropic
import HiveBear.Inference.Cloud.Cohere
import HiveBear.Inference.Cloud.Gemini
import HiveBear.Inference.Cloud.OpenAiCompat
import HiveBear.Library.Occurrences

namespace HiveBear.Inference.Cloud

open JsonText

/-- A family of providers. -/
inductive CloudProtocol
  | openAiCompat
  | anthropic
  | gemini
  | cohere

namespace CloudProtocol

/-- The body of a request. -/
def buildRequestBody {F : Type} (protocol : CloudProtocol) (floats : RequestFloats F)
    (modelId : String) (req : GenerateRequest F) (stream : Bool) : Value :=
  match protocol with
  | .openAiCompat => OpenAiCompat.buildRequestBody floats modelId req stream
  | .anthropic => Anthropic.buildRequestBody floats modelId req stream
  | .gemini => Gemini.buildRequestBody floats req
  | .cohere => Cohere.buildRequestBody floats modelId req stream

/-- The entry of a message, if it has one. -/
def messageEntry : CloudProtocol → ChatMessage → Option Value
  | .openAiCompat, message => some (OpenAiCompat.messageEntry message)
  | .anthropic, message => Anthropic.messageEntry message
  | .gemini, message => Gemini.convertMessage message
  | .cohere, message => some (Cohere.convertMessage message)

/-! ## What a provider finds in a body -/

/-- The items of an array under a key. -/
def itemsUnder (value : Value) (key : String) : List Value :=
  ((getKey value key).bind asArray).getD []

/-- The entries of a body, one for each turn. -/
def entries : CloudProtocol → Value → List Value
  | .gemini, body => itemsUnder body "contents"
  | .openAiCompat, body | .anthropic, body | .cohere, body => itemsUnder body "messages"

/-- The texts that are for the system. -/
def systemTexts : CloudProtocol → Value → List String
  | .anthropic, body => (getStr body "system").toList
  | .gemini, body =>
      (itemsUnder ((getKey body "systemInstruction").getD .null) "parts").filterMap fun part =>
        getStr part "text"
  | .openAiCompat, body | .cohere, body =>
      (itemsUnder body "messages").filterMap fun entry =>
        if getStr entry "role" = some "system" then getStr entry "content" else none

/-- The texts in the content of an entry, which is a text or a list of parts. -/
def contentTexts : Value → List String
  | .str text => [String.ofList text]
  | .arr items => items.filterMap fun item => getStr item "text"
  | _ => []

/-- The texts of an entry. -/
def entryTexts (protocol : CloudProtocol) (entry : Value) : List String :=
  match protocol with
  | .gemini => contentTexts ((getKey entry "parts").getD .null)
  | .openAiCompat | .anthropic | .cohere => contentTexts ((getKey entry "content").getD .null)

end CloudProtocol

end HiveBear.Inference.Cloud

namespace HiveBear.Inference

/-- The message is one of the user or the assistant. -/
def ChatMessage.isTurn : ChatMessage → Bool
  | .user _ | .assistant _ _ => true
  | .system _ | .toolResult _ _ => false

/-- What the user or the assistant says in a message. -/
def ChatMessage.turnTexts : ChatMessage → List String
  | .user parts => parts.filterMap ContentPart.text?
  | .assistant content _ => content.toList
  | .system _ | .toolResult _ _ => []

end HiveBear.Inference

namespace HiveBear.Inference.Cloud.CloudProtocol

open JsonText

/-- The texts of a message are in an entry, in their order. -/
def Carries (protocol : CloudProtocol) (message : ChatMessage) (entry : Value) : Prop :=
  InOrder (message.turnTexts.map String.toList)
    ((protocol.entryTexts entry).flatMap String.toList)

/-- The text of every system message is for the system, and the messages of user and assistant
have their texts in entries in their order. -/
structure TextsKept (protocol : CloudProtocol) (messages : List ChatMessage) (body : Value) :
    Prop where
  system : ∀ text, .system text ∈ messages → text ∈ protocol.systemTexts body
  turns : List.SublistForall₂ protocol.Carries (messages.filter ChatMessage.isTurn)
    (protocol.entries body)

/-- No two system messages have different texts. -/
def OneSystemText (messages : List ChatMessage) : Prop :=
  ∀ first second, .system first ∈ messages → .system second ∈ messages → first = second

/-! ## The fields of a body -/

/-- Appended fields with other keys change nothing of what is under a key. -/
theorem getKey_append {fields others : List (String × Value)} {keys : List String}
    (hkeys : ∀ field ∈ others, field.1 ∈ keys) {key : String} (hkey : key ∉ keys) :
    getKey (jsonObject (fields ++ others)) key = getKey (jsonObject fields) key := by
  have hothers : others.reverse.lookup key = none := by
    rw [List.lookup_eq_none_iff]
    intro field hfield
    refine bne_iff_ne.mpr ?_
    rintro rfl
    exact hkey (hkeys field (List.mem_reverse.mp hfield))
  rw [getKey_jsonObject, getKey_jsonObject, List.reverse_append, List.lookup_append, hothers,
    Option.none_or]

theorem forall_mem_ite {α : Type*} {P : α → Prop} {c : Prop} [Decidable c] {list other : List α}
    (hlist : ∀ x ∈ list, P x) (hother : ∀ x ∈ other, P x) :
    ∀ x ∈ if c then list else other, P x := by
  split
  · exact hlist
  · exact hother

section Bodies

variable {F : Type} (floats : RequestFloats F) (modelId : String) (req : GenerateRequest F)
  (stream : Bool)

theorem openAiCompat_optional_keys : ∀ field ∈ OpenAiCompat.optionalFields floats req,
    field.1 ∈ ["frequency_penalty", "presence_penalty", "stop", "tools", "tool_choice",
      "response_format"] := by
  rw [OpenAiCompat.optionalFields]
  simp only [List.forall_mem_append]
  refine ⟨⟨⟨⟨forall_mem_ite ?_ ?_, forall_mem_ite ?_ ?_⟩, forall_mem_ite ?_ ?_⟩,
    forall_mem_ite ?_ ?_⟩, ?_⟩
  rotate_right
  · cases req.outputSchema with
    | none => simp
    | some schema => simp
  all_goals simp

theorem anthropic_optional_keys : ∀ field ∈ Anthropic.optionalFields floats req stream,
    field.1 ∈ ["temperature", "top_p", "stop_sequences", "tools", "tool_choice", "stream"] := by
  rw [Anthropic.optionalFields]
  simp only [List.forall_mem_append]
  refine ⟨⟨⟨⟨forall_mem_ite ?_ ?_, forall_mem_ite ?_ ?_⟩, forall_mem_ite ?_ ?_⟩,
    forall_mem_ite ?_ ?_⟩, forall_mem_ite ?_ ?_⟩
  all_goals simp

theorem cohere_optional_keys : ∀ field ∈ Cohere.optionalFields floats req,
    field.1 ∈ ["p", "k", "frequency_penalty", "presence_penalty", "stop_sequences"] := by
  rw [Cohere.optionalFields]
  simp only [List.forall_mem_append]
  refine ⟨⟨⟨⟨forall_mem_ite ?_ ?_, forall_mem_ite ?_ ?_⟩, forall_mem_ite ?_ ?_⟩,
    forall_mem_ite ?_ ?_⟩, forall_mem_ite ?_ ?_⟩
  all_goals simp

theorem key_of_mem_elim {key : String} {toJson : String → Value} {text : Option String}
    {field : String × Value} (h : field ∈ text.elim [] fun text => [(key, toJson text)]) :
    field.1 ∈ [key] := by
  cases text with
  | none => cases h
  | some text => exact congrArg Prod.fst (List.mem_singleton.mp h) ▸ List.mem_cons_self

/-- The entries of a body are those of the messages, in their order. -/
theorem entries_buildRequestBody (protocol : CloudProtocol) :
    protocol.entries (protocol.buildRequestBody floats modelId req stream) =
      req.messages.filterMap protocol.messageEntry := by
  cases protocol with
  | openAiCompat =>
      have hentry : openAiCompat.messageEntry = some ∘ OpenAiCompat.messageEntry := rfl
      rw [entries, itemsUnder, buildRequestBody, OpenAiCompat.buildRequestBody,
        getKey_append (openAiCompat_optional_keys floats req) (by decide), hentry,
        List.filterMap_eq_map]
      simp [getKey_jsonObject, List.lookup_cons, asArray]
  | anthropic =>
      have hentry : anthropic.messageEntry = Anthropic.messageEntry := rfl
      rw [entries, itemsUnder, buildRequestBody, Anthropic.buildRequestBody,
        getKey_append (anthropic_optional_keys floats req stream) (by decide),
        getKey_append (fun _ => key_of_mem_elim) (by decide), hentry]
      simp [getKey_jsonObject, List.lookup_cons, asArray]
  | gemini =>
      have hentry : gemini.messageEntry = Gemini.convertMessage := rfl
      rw [entries, itemsUnder, buildRequestBody, Gemini.buildRequestBody,
        getKey_append (fun _ => key_of_mem_elim) (by decide), hentry]
      simp [getKey_jsonObject, List.lookup_cons, asArray]
  | cohere =>
      have hentry : cohere.messageEntry = some ∘ Cohere.convertMessage := rfl
      rw [entries, itemsUnder, buildRequestBody, Cohere.buildRequestBody,
        getKey_append (cohere_optional_keys floats req) (by decide), hentry,
        List.filterMap_eq_map]
      simp [getKey_jsonObject, List.lookup_cons, asArray]

/-- The text of a system message. -/
def systemText? : ChatMessage → Option String
  | .system text => some text
  | .user _ | .assistant _ _ | .toolResult _ _ => none

theorem firstSystem_eq (messages : List ChatMessage) :
    firstSystem messages = messages.findSome? systemText? := by
  rw [firstSystem]
  congr 1
  funext message
  cases message <;> rfl

/-- The text of an entry whose role is the system's. -/
def systemEntryText (entry : Value) : Option String :=
  if getStr entry "role" = some "system" then getStr entry "content" else none

theorem openAiCompat_systemEntryText (message : ChatMessage) :
    systemEntryText (OpenAiCompat.messageEntry message) = systemText? message := by
  cases message with
  | system text => simp [systemEntryText, OpenAiCompat.messageEntry, textMessage,
      getStr_jsonObject, List.lookup_cons, systemText?]
  | user parts =>
      rw [OpenAiCompat.messageEntry]
      split <;>
        simp [systemEntryText, textMessage, getStr_jsonObject, List.lookup_cons, systemText?]
  | assistant content toolCalls =>
      cases content <;> cases toolCalls <;>
        simp [systemEntryText, OpenAiCompat.messageEntry, OpenAiCompat.assistantEntry,
          functionCalls, getStr_jsonObject, List.lookup_cons, systemText?]
  | toolResult toolCallId content =>
      simp [systemEntryText, OpenAiCompat.messageEntry, getStr_jsonObject, List.lookup_cons,
        systemText?]

theorem cohere_systemEntryText (message : ChatMessage) :
    systemEntryText (Cohere.convertMessage message) = systemText? message := by
  cases message with
  | system text => simp [systemEntryText, Cohere.convertMessage, textMessage,
      getStr_jsonObject, List.lookup_cons, systemText?]
  | user parts => simp [systemEntryText, Cohere.convertMessage, textMessage,
      getStr_jsonObject, List.lookup_cons, systemText?]
  | assistant content toolCalls =>
      cases toolCalls <;>
        simp [systemEntryText, Cohere.convertMessage, functionCalls, getStr_jsonObject,
          List.lookup_cons, systemText?]
  | toolResult toolCallId content =>
      simp [systemEntryText, Cohere.convertMessage, getStr_jsonObject, List.lookup_cons,
        systemText?]

/-- What the provider takes for the system is the text of the first system message where it
has a field for it, and otherwise that of every system message. -/
theorem systemTexts_buildRequestBody (protocol : CloudProtocol) :
    protocol.systemTexts (protocol.buildRequestBody floats modelId req stream) =
      match protocol with
      | .openAiCompat | .cohere => req.messages.filterMap systemText?
      | .anthropic | .gemini => (firstSystem req.messages).toList := by
  have hentries := entries_buildRequestBody floats modelId req stream
  cases protocol with
  | openAiCompat =>
      have hitems := hentries .openAiCompat
      rw [entries] at hitems
      change (itemsUnder _ "messages").filterMap systemEntryText = _
      rw [hitems, List.filterMap_filterMap]
      exact congrArg (List.filterMap · req.messages) (funext openAiCompat_systemEntryText)
  | cohere =>
      have hitems := hentries .cohere
      rw [entries] at hitems
      change (itemsUnder _ "messages").filterMap systemEntryText = _
      rw [hitems, List.filterMap_filterMap]
      exact congrArg (List.filterMap · req.messages) (funext cohere_systemEntryText)
  | anthropic =>
      rw [systemTexts, buildRequestBody, Anthropic.buildRequestBody, getStr,
        getKey_append (anthropic_optional_keys floats req stream) (by decide)]
      cases firstSystem req.messages <;> simp [getKey_jsonObject, List.lookup_cons]
  | gemini =>
      rw [systemTexts, buildRequestBody, Gemini.buildRequestBody]
      cases firstSystem req.messages <;>
        simp [itemsUnder, getKey_jsonObject, getStr_jsonObject, List.lookup_cons, asArray,
          Gemini.textPart]

end Bodies

/-! ## The texts of an entry -/

/-- Texts that are joined by line breaks stand in their order. -/
theorem inOrder_lines (texts : List String) :
    InOrder (texts.map String.toList) ("\n".intercalate texts).toList := by
  induction texts with
  | nil => trivial
  | cons text texts ih =>
      by_cases hlast : texts = []
      · rw [hlast, String.intercalate_singleton]
        exact InOrder.singleton (List.infix_refl _)
      · rw [String.intercalate_cons_of_ne_nil hlast, String.toList_append, String.toList_append,
          List.append_assoc]
        exact (InOrder.singleton (List.infix_refl text.toList)).append (ih.append_left _)

/-- Parts that are shown one by one are shown in their order, whatever the images are shown as. -/
theorem inOrder_parts {toJson : ContentPart → Value}
    (htext : ∀ text, getStr (toJson (.text text)) "text" = some text) (parts : List ContentPart) :
    InOrder ((parts.filterMap ContentPart.text?).map String.toList)
      ((contentTexts (.arr (parts.map toJson))).flatMap String.toList) := by
  induction parts with
  | nil => trivial
  | cons part parts ih =>
      have hskip (hnone : part.text? = none) :
          InOrder (((part :: parts).filterMap ContentPart.text?).map String.toList)
            ((contentTexts (.arr ((part :: parts).map toJson))).flatMap String.toList) := by
        rw [List.filterMap_cons_none hnone, contentTexts, List.map_cons, List.filterMap_cons]
        cases getStr (toJson part) "text" with
        | none => exact ih
        | some shown => exact ih.append_left shown.toList
      cases part with
      | text text =>
          have hshown : contentTexts (.arr ((ContentPart.text text :: parts).map toJson)) =
              text :: contentTexts (.arr (parts.map toJson)) := by
            simp [contentTexts, htext]
          rw [hshown]
          exact (InOrder.singleton (List.infix_refl text.toList)).append ih
      | image data mediaType => exact hskip rfl
      | imageUrl url => exact hskip rfl

theorem carries_parts {protocol : CloudProtocol} {parts : List ContentPart} {entry : Value}
    {toJson : ContentPart → Value}
    (hshown : protocol.entryTexts entry = contentTexts (.arr (parts.map toJson)))
    (htext : ∀ text, getStr (toJson (.text text)) "text" = some text) :
    protocol.Carries (.user parts) entry := by
  rw [Carries, hshown]
  exact inOrder_parts htext parts

theorem carries_lines {protocol : CloudProtocol} {parts : List ContentPart} {entry : Value}
    (hshown : protocol.entryTexts entry = [extractTextFromParts parts]) :
    protocol.Carries (.user parts) entry := by
  rw [Carries, hshown, List.flatMap_singleton]
  exact inOrder_lines _

/-- The texts of an entry whose content is one text. -/
theorem contentTexts_textMessage (role text : String) :
    contentTexts ((getKey (textMessage role text) "content").getD .null) = [text] := by
  simp [textMessage, getKey_jsonObject, contentTexts, jsonString]

/-- A user's message has an entry with its texts. -/
theorem exists_user_entry (protocol : CloudProtocol) (parts : List ContentPart) :
    ∃ entry, protocol.messageEntry (.user parts) = some entry ∧
      protocol.Carries (.user parts) entry := by
  cases protocol with
  | openAiCompat =>
      refine ⟨_, rfl, ?_⟩
      rw [OpenAiCompat.messageEntry]
      split
      · refine @carries_parts _ _ _ OpenAiCompat.partToJson ?_ fun text => ?_
        · rw [entryTexts, OpenAiCompat.partsToContentArray]
          simp [getKey_jsonObject]
        · simp [OpenAiCompat.partToJson, getStr_jsonObject]
      · exact carries_lines (contentTexts_textMessage "user" _)
  | anthropic =>
      refine ⟨_, rfl, @carries_parts _ _ _ Anthropic.contentPartToJson ?_ fun text => ?_⟩
      · rw [entryTexts]
        simp [getKey_jsonObject]
      · simp [Anthropic.contentPartToJson, Anthropic.textBlock, getStr_jsonObject]
  | gemini =>
      refine ⟨_, rfl, @carries_parts _ _ _ Gemini.partToJson ?_ fun text => ?_⟩
      · rw [entryTexts, Gemini.contentEntry]
        simp [getKey_jsonObject]
      · simp [Gemini.partToJson, Gemini.textPart, getStr_jsonObject]
  | cohere => exact ⟨_, rfl, carries_lines (contentTexts_textMessage "user" _)⟩

/-- What an assistant says is shown if it comes first, or is nothing at all. -/
theorem inOrder_said {content : Option String} {shown : List String}
    (h : ∀ text ∈ content, text = "" ∨ ∃ more, shown = text :: more) :
    InOrder (content.toList.map String.toList) (shown.flatMap String.toList) := by
  cases content with
  | none => trivial
  | some text =>
      refine InOrder.singleton ?_
      rcases h text rfl with rfl | ⟨more, rfl⟩
      · exact List.nil_infix
      · exact (List.prefix_append _ _).isInfix

/-- An assistant's message has an entry with its text. -/
theorem exists_assistant_entry (protocol : CloudProtocol) (content : Option String)
    (toolCalls : List ToolCallResponse) :
    ∃ entry, protocol.messageEntry (.assistant content toolCalls) = some entry ∧
      protocol.Carries (.assistant content toolCalls) entry := by
  cases protocol with
  | openAiCompat =>
      refine ⟨_, rfl, inOrder_said ?_⟩
      rintro text rfl
      refine Or.inr ⟨[], ?_⟩
      have hcontent : getKey (OpenAiCompat.assistantEntry (some text) toolCalls) "content" =
          some (jsonString text) := by
        rw [OpenAiCompat.assistantEntry, getKey_jsonObject, functionCalls]
        cases toolCalls <;> simp [List.lookup_cons]
      rw [entryTexts, OpenAiCompat.messageEntry, hcontent]
      simp [contentTexts, jsonString]
  | anthropic =>
      refine ⟨_, rfl, inOrder_said ?_⟩
      rintro text rfl
      by_cases hempty : text = ""
      · exact Or.inl hempty
      · right
        simp [entryTexts, getKey_jsonObject, Anthropic.assistantBlocks, hempty, contentTexts,
          Anthropic.textBlock, getStr_jsonObject]
  | gemini =>
      refine ⟨_, rfl, inOrder_said ?_⟩
      rintro text rfl
      by_cases hempty : text = ""
      · exact Or.inl hempty
      · right
        simp [entryTexts, getKey_jsonObject, Gemini.assistantParts, hempty, contentTexts,
          Gemini.contentEntry, Gemini.textPart, getStr_jsonObject]
  | cohere =>
      refine ⟨_, rfl, inOrder_said ?_⟩
      rintro text rfl
      refine Or.inr ⟨[], ?_⟩
      rw [entryTexts, Cohere.convertMessage, getKey_jsonObject, functionCalls]
      cases toolCalls <;> simp [List.lookup_cons, contentTexts, jsonString]

/-- A turn has an entry with its texts. -/
theorem exists_entry (protocol : CloudProtocol) {message : ChatMessage}
    (hturn : message.isTurn = true) :
    ∃ entry, protocol.messageEntry message = some entry ∧ protocol.Carries message entry := by
  cases message with
  | system | toolResult => cases hturn
  | user parts => exact protocol.exists_user_entry parts
  | assistant content toolCalls => exact protocol.exists_assistant_entry content toolCalls

/-- The entries of the turns are among all entries, in their order. -/
theorem sublistForall₂_filterMap {α β : Type*} {R : α → β → Prop} {p : α → Bool}
    {f : α → Option β} (h : ∀ a, p a = true → ∃ b, f a = some b ∧ R a b) (items : List α) :
    List.SublistForall₂ R (items.filter p) (items.filterMap f) := by
  induction items with
  | nil => exact .nil
  | cons item items ih =>
      by_cases hp : p item = true
      · obtain ⟨b, hb, hR⟩ := h item hp
        rw [List.filter_cons_of_pos hp, List.filterMap_cons, hb]
        exact .cons hR ih
      · rw [List.filter_cons_of_neg hp, List.filterMap_cons]
        cases f item with
        | none => exact ih
        | some b => exact .cons_right ih

/-! ## Exactly when nothing is lost -/

theorem systemText_eq_some_iff {message : ChatMessage} {text : String} :
    systemText? message = some text ↔ message = .system text := by
  cases message <;> simp [systemText?]

theorem mem_filterMap_systemText {messages : List ChatMessage} {text : String} :
    text ∈ messages.filterMap systemText? ↔ .system text ∈ messages := by
  simp [List.mem_filterMap, systemText_eq_some_iff]

/-- The first system text stands for all just if they are all the same. -/
theorem mem_firstSystem_iff (messages : List ChatMessage) :
    (∀ text, .system text ∈ messages → text ∈ (firstSystem messages).toList) ↔
      OneSystemText messages := by
  simp only [Option.mem_toList]
  constructor
  · intro hfirst first second hmem hmem'
    exact Option.some.inj ((hfirst first hmem).symm.trans (hfirst second hmem'))
  · intro hone text hmem
    rw [firstSystem_eq]
    cases hfound : messages.findSome? systemText? with
    | none =>
        have hno := List.findSome?_eq_none_iff.mp hfound _ hmem
        cases hno
    | some first =>
        obtain ⟨message, hmessage, hfirst⟩ := List.exists_of_findSome?_eq_some hfound
        rw [systemText_eq_some_iff.mp hfirst] at hmessage
        rw [hone first text hmessage hmem]

/-- **When no message is lost.** The texts of all messages reach the provider just if it takes
system messages among the others, or there are no two of them with different texts. -/
theorem textsKept_iff {F : Type} (protocol : CloudProtocol) (floats : RequestFloats F)
    (modelId : String) (req : GenerateRequest F) (stream : Bool) :
    protocol.TextsKept req.messages (protocol.buildRequestBody floats modelId req stream) ↔
      protocol = .openAiCompat ∨ protocol = .cohere ∨ OneSystemText req.messages := by
  have hturns : List.SublistForall₂ protocol.Carries (req.messages.filter ChatMessage.isTurn)
      (protocol.entries (protocol.buildRequestBody floats modelId req stream)) := by
    rw [entries_buildRequestBody]
    exact sublistForall₂_filterMap (fun _ => protocol.exists_entry) req.messages
  have hkept : protocol.TextsKept req.messages
        (protocol.buildRequestBody floats modelId req stream) ↔
      ∀ text, .system text ∈ req.messages →
        text ∈ protocol.systemTexts (protocol.buildRequestBody floats modelId req stream) :=
    ⟨TextsKept.system, fun hsystem => ⟨hsystem, hturns⟩⟩
  rw [hkept, systemTexts_buildRequestBody]
  cases protocol with
  | openAiCompat =>
      exact iff_of_true (fun text => mem_filterMap_systemText.mpr) (Or.inl rfl)
  | cohere =>
      exact iff_of_true (fun text => mem_filterMap_systemText.mpr) (Or.inr (Or.inl rfl))
  | anthropic | gemini =>
      dsimp only
      rw [mem_firstSystem_iff, or_iff_right (by intro h; cases h),
        or_iff_right (by intro h; cases h)]

/-- Sampling without floats. -/
def unitFloats : RequestFloats Unit := ⟨fun _ => jsonNat 1, fun _ => true, fun _ => false, fun _ _ => true⟩

/-- A conversation with two system messages. -/
def twoSystemMessages : GenerateRequest Unit where
  messages := [.system "Be brief.", .user [.text "Hello"], .system "Answer in French."]
  maxTokens := 64
  sampling := ⟨(), (), 0, (), ()⟩
  outputSchema := none
  tools := []
  toolChoice := .auto
  stopSequences := []

/-- The second of two system messages is lost on the way to two of the families. -/
theorem second_system_message_lost :
    ¬ anthropic.TextsKept twoSystemMessages.messages
        (anthropic.buildRequestBody unitFloats "model" twoSystemMessages false) ∧
      ¬ gemini.TextsKept twoSystemMessages.messages
        (gemini.buildRequestBody unitFloats "model" twoSystemMessages false) := by
  constructor
  · intro hkept
    have hsecond := hkept.system "Answer in French." (by simp [twoSystemMessages])
    rw [systemTexts_buildRequestBody] at hsecond
    exact absurd hsecond (by decide)
  · intro hkept
    have hsecond := hkept.system "Answer in French." (by simp [twoSystemMessages])
    rw [systemTexts_buildRequestBody] at hsecond
    exact absurd hsecond (by decide)

end HiveBear.Inference.Cloud.CloudProtocol
