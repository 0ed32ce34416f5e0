/-
# What of an answer is read

An answer is a list of parts, texts and calls of tools, laid out in the way of its provider,
with any other fields around them. Anthropic's answers are read part by part. Of the others
only the first part is looked at, and only for its text: they are read as they are just if
nothing but empty texts follows it.
-/

import HiveBear.Inference.Cloud.Anthropic
import HiveBear.Inference.Cloud.Cohere
import HiveBear.Inference.Cloud.Gemini

namespace HiveBear.Inference.Cloud

open JsonText

/-- A family of providers whose answers come in parts. -/
inductive PartsProtocol
  | anthropic
  | gemini
  | cohere

/-! ## Parts of an answer -/

/-- The texts among the parts. -/
def textsOf (parts : List ContentBlock) : List String := parts.filterMap ContentBlock.text?

/-- The calls of tools among the parts. -/
def callsOf (parts : List ContentBlock) : List ToolCallResponse :=
  parts.filterMap ContentBlock.toolCall?

/-- A response has all of its parts: the whole text if there are no calls of tools, and
otherwise each text and each call in their order. -/
def KeepsParts (parts : List ContentBlock) (response : GenerateResponse) : Prop :=
  if callsOf parts = [] then response = .text (String.join (textsOf parts))
  else textsOf response.blocks = textsOf parts ∧ callsOf response.blocks = callsOf parts

/-- An answer is read completely. -/
def ReadCompletely (parts : List ContentBlock)
    (answer : Except InferenceError GenerateResponse) : Prop :=
  ∃ response, answer = .ok response ∧ KeepsParts parts response

/-- A text is followed by nothing but empty texts. -/
def OnlyFirstText (parts : List ContentBlock) : Prop :=
  ∃ text rest, parts = .text text :: rest ∧ ∀ part ∈ rest, part = .text ""

/-! ## How providers lay them out -/

namespace Anthropic

/-- A block of the content shows a part. -/
def Shows : ContentBlock → Value → Prop
  | .text text, block => getStr block "type" = some "text" ∧ getStr block "text" = some text
  | .toolCall call, block =>
      getStr block "type" = some "tool_use" ∧ getStr block "name" = some call.toolName ∧
        getKey block "input" = some call.arguments ∧ getStr block "id" = some call.callId

/-- A body answers with these parts. -/
def Answers (parts : List ContentBlock) (body : Value) : Prop :=
  ∃ blocks, getKey body "content" = some (.arr blocks) ∧ List.Forall₂ Shows parts blocks

end Anthropic

namespace Gemini

/-- A part of the content shows a part. A call has no number of its own. -/
def Shows : ContentBlock → Value → Prop
  | .text text, part => getStr part "text" = some text
  | .toolCall call, part =>
      getKey part "text" = none ∧
        ∃ function, getKey part "functionCall" = some function ∧
          getStr function "name" = some call.toolName ∧
          getKey function "args" = some call.arguments

/-- A body answers with these parts. -/
def Answers (parts : List ContentBlock) (body : Value) : Prop :=
  ∃ items, firstParts body = some (.arr items) ∧ List.Forall₂ Shows parts items

end Gemini

namespace Cohere

/-- An item of the content shows a text. -/
def ShowsText (text : String) (item : Value) : Prop :=
  getStr item "type" = some "text" ∧ getStr item "text" = some text

/-- An item of the list of calls shows a call. -/
def ShowsCall (call : ToolCallResponse) (item : Value) : Prop :=
  getStr item "id" = some call.callId ∧
    ∃ function, getKey item "function" = some function ∧
      getStr function "name" = some call.toolName ∧
      getStr function "arguments" = some (String.ofList (write call.arguments))

/-- The items of an array under a key, if there is one. -/
def itemsOf (value : Value) (key : String) : List Value :=
  ((getKey value key).bind asArray).getD []

/-- A body answers with these parts: the message has the texts in its content and the calls in
a list of their own, and there is no text next to it. -/
def Answers (parts : List ContentBlock) (body : Value) : Prop :=
  getKey body "text" = none ∧
    ∃ message, getKey body "message" = some message ∧
      List.Forall₂ ShowsText (textsOf parts) (itemsOf message "content") ∧
      List.Forall₂ ShowsCall (callsOf parts) (itemsOf message "tool_calls")

end Cohere

namespace PartsProtocol

def Answers : PartsProtocol → List ContentBlock → Value → Prop
  | .anthropic => Anthropic.Answers
  | .gemini => Gemini.Answers
  | .cohere => Cohere.Answers

def parseResponse : PartsProtocol → Value → Except InferenceError GenerateResponse
  | .anthropic => Anthropic.parseResponse
  | .gemini => Gemini.parseResponse
  | .cohere => Cohere.parseResponse

end PartsProtocol

/-! ## Responses that keep their parts -/

/-- A response put together from all blocks keeps them. -/
theorem keepsParts_responseOf (parts : List ContentBlock) :
    KeepsParts parts (Anthropic.responseOf parts) := by
  have hmixed (hcalls : callsOf parts ≠ []) : KeepsParts parts (.mixed parts) := by
    rw [KeepsParts, if_neg hcalls]
    exact ⟨rfl, rfl⟩
  rw [Anthropic.responseOf]
  split
  · rename_i hnone
    rw [KeepsParts, if_pos (show callsOf parts = [] from hnone)]
    rfl
  · rename_i call hone
    have hcalls : callsOf parts = [call] := hone
    split
    · rename_i htexts
      rw [KeepsParts, if_neg (by rw [hcalls]; exact List.cons_ne_nil _ _), hcalls]
      exact ⟨(List.isEmpty_iff.mp htexts).symm, rfl⟩
    · exact hmixed (by rw [hcalls]; exact List.cons_ne_nil _ _)
  · rename_i hsome _
    exact hmixed hsome

/-- A text alone keeps the parts just if it is all of them. -/
theorem keepsParts_text_iff {parts : List ContentBlock} {text : String} :
    KeepsParts parts (.text text) ↔ callsOf parts = [] ∧ text = String.join (textsOf parts) := by
  rw [KeepsParts]
  by_cases hcalls : callsOf parts = []
  · rw [if_pos hcalls, and_iff_right hcalls, GenerateResponse.text.injEq]
  · rw [if_neg hcalls]
    refine iff_of_false ?_ fun h => hcalls h.1
    intro hkept
    exact hcalls hkept.2.symm

/-- Parts without calls and without text are empty texts. -/
theorem all_empty_iff (parts : List ContentBlock) :
    callsOf parts = [] ∧ String.join (textsOf parts) = "" ↔ ∀ part ∈ parts, part = .text "" := by
  induction parts with
  | nil => simp [callsOf, textsOf, String.join]
  | cons part parts ih =>
      rw [List.forall_mem_cons, ← ih]
      cases part with
      | toolCall call => simp [callsOf, ContentBlock.toolCall?]
      | text text =>
          have hjoin : String.join (textsOf (.text text :: parts)) =
              text ++ String.join (textsOf parts) := String.join_cons
          rw [hjoin, String.append_eq_empty_iff, ContentBlock.text.injEq]
          change callsOf parts = [] ∧ _ ↔ _
          tauto

/-- The first text alone keeps the parts just if nothing but empty texts follows it. -/
theorem keepsParts_first_iff {parts : List ContentBlock} {text : String} {texts : List String}
    (htexts : textsOf parts = text :: texts) :
    KeepsParts parts (.text text) ↔ OnlyFirstText parts := by
  rw [keepsParts_text_iff]
  cases parts with
  | nil => cases htexts
  | cons part rest =>
      cases part with
      | toolCall call =>
          refine iff_of_false ?_ ?_
          · rintro ⟨hcalls, -⟩
            cases hcalls
          · rintro ⟨_, _, hparts, -⟩
            cases hparts
      | text first =>
          obtain ⟨rfl, -⟩ := List.cons.inj htexts
          have hjoin : String.join (textsOf (.text first :: rest)) =
              first ++ String.join (textsOf rest) := String.join_cons
          have hnothing : first = first ++ String.join (textsOf rest) ↔
              String.join (textsOf rest) = "" := by
            rw [← String.toList_inj, String.toList_append, List.self_eq_append_right,
              String.toList_eq_nil_iff]
          change callsOf rest = [] ∧ _ ↔ _
          rw [hjoin, hnothing, all_empty_iff]
          constructor
          · intro hempty
            exact ⟨first, rest, rfl, hempty⟩
          · rintro ⟨_, _, hparts, hempty⟩
            obtain ⟨-, rfl⟩ := List.cons.inj hparts
            exact hempty

/-! ## Anthropic -/

namespace Anthropic

theorem readBlock_of_shows {part : ContentBlock} {block : Value} (h : Shows part block) :
    readBlock block = some part := by
  cases part with
  | text text =>
      obtain ⟨htype, htext⟩ := h
      rw [readBlock, htype, htext]
      rfl
  | toolCall call =>
      obtain ⟨htype, hname, hinput, hid⟩ := h
      rw [readBlock, htype, hname, hinput, hid]
      rfl

/-- All the blocks of an answer are read. -/
theorem filterMap_readBlock {parts : List ContentBlock} {blocks : List Value}
    (h : List.Forall₂ Shows parts blocks) : blocks.filterMap readBlock = parts := by
  induction h with
  | nil => rfl
  | cons hpart _ ih => rw [List.filterMap_cons_some (readBlock_of_shows hpart), ih]

/-- Every part of an answer is read, unless there is none. -/
theorem readCompletely_parseResponse_iff {parts : List ContentBlock} {body : Value}
    (h : Answers parts body) :
    ReadCompletely parts (parseResponse body) ↔ parts ≠ [] := by
  obtain ⟨blocks, hcontent, hshows⟩ := h
  have hread := filterMap_readBlock hshows
  rw [parseResponse, hcontent, Option.bind_some, asArray]
  cases hshows with
  | nil =>
      refine iff_of_false ?_ (not_not_intro rfl)
      rintro ⟨response, hresponse, -⟩
      cases hresponse
  | cons hpart hrest =>
      refine iff_of_true ⟨_, rfl, ?_⟩ (List.cons_ne_nil _ _)
      rw [hread]
      exact keepsParts_responseOf _

end Anthropic

/-! ## Gemini and Cohere -/

theorem ReadCompletely.ok_iff {parts : List ContentBlock} {response : GenerateResponse} :
    ReadCompletely parts (.ok response) ↔ KeepsParts parts response := by
  constructor
  · rintro ⟨_, hresponse, hkept⟩
    rwa [Except.ok.inj hresponse]
  · intro hkept
    exact ⟨response, rfl, hkept⟩

theorem not_readCompletely_error {parts : List ContentBlock} (e : InferenceError) :
    ¬ ReadCompletely parts (.error e) := by
  rintro ⟨_, hresponse, -⟩
  cases hresponse

/-- Of a Gemini answer the first part is read if it is a text. -/
theorem Gemini.readCompletely_parseResponse_iff {parts : List ContentBlock} {body : Value}
    (h : Answers parts body) : ReadCompletely parts (parseResponse body) ↔ OnlyFirstText parts := by
  obtain ⟨items, hparts, hshows⟩ := h
  rw [parseResponse, hparts]
  cases hshows with
  | nil =>
      refine iff_of_false (not_readCompletely_error _) ?_
      rintro ⟨_, _, hnone, -⟩
      cases hnone
  | @cons part item rest items hpart hrest =>
      have hfirst : getItem (.arr (item :: items)) 0 = some item := rfl
      rw [Option.bind_some, hfirst, Option.bind_some]
      cases part with
      | text text =>
          have htext : getStr item "text" = some text := hpart
          rw [htext, ReadCompletely.ok_iff]
          exact @keepsParts_first_iff (.text text :: rest) text (textsOf rest) rfl
      | toolCall call =>
          have hnone : getStr item "text" = none := by rw [getStr, hpart.1, Option.bind_none]
          rw [hnone]
          refine iff_of_false (not_readCompletely_error _) ?_
          rintro ⟨_, _, hcall, -⟩
          cases hcall

theorem Cohere.getItem_content (message : Value) :
    ((getKey message "content").bind fun content => getItem content 0) =
      (itemsOf message "content")[0]? := by
  rw [itemsOf]
  cases getKey message "content" with
  | none => rfl
  | some content => cases content <;> rfl

/-- Of a Cohere answer the first text is read. -/
theorem Cohere.readCompletely_parseResponse_iff {parts : List ContentBlock} {body : Value}
    (h : Answers parts body) : ReadCompletely parts (parseResponse body) ↔ OnlyFirstText parts := by
  obtain ⟨hnoText, message, hmessage, hcontent, -⟩ := h
  have hbodyText : getStr body "text" = none := by rw [getStr, hnoText, Option.bind_none]
  rw [parseResponse, hmessage, Option.bind_some, Cohere.getItem_content]
  generalize htexts : textsOf parts = texts at hcontent
  generalize itemsOf message "content" = items at hcontent
  cases hcontent with
  | nil =>
      rw [List.getElem?_nil, Option.bind_none, hbodyText]
      refine iff_of_false (not_readCompletely_error _) ?_
      rintro ⟨_, _, rfl, -⟩
      cases htexts
  | cons hfirst hrest =>
      rw [List.getElem?_cons_zero, Option.bind_some, hfirst.2, ReadCompletely.ok_iff]
      exact keepsParts_first_iff htexts

/-! ## All of them -/

namespace PartsProtocol

/-- The parts for which an answer is read completely. -/
def ReadsAll : PartsProtocol → List ContentBlock → Prop
  | .anthropic, parts => parts ≠ []
  | .gemini, parts | .cohere, parts => OnlyFirstText parts

/-- **When answers are read completely.** An answer of Anthropic is unless it has no parts, an
answer of Gemini or Cohere just if it is a text with nothing but empty texts behind it. -/
theorem readCompletely_iff (protocol : PartsProtocol) (parts : List ContentBlock) (body : Value)
    (h : protocol.Answers parts body) :
    ReadCompletely parts (protocol.parseResponse body) ↔ protocol.ReadsAll parts := by
  cases protocol with
  | anthropic => exact Anthropic.readCompletely_parseResponse_iff h
  | gemini => exact Gemini.readCompletely_parseResponse_iff h
  | cohere => exact Cohere.readCompletely_parseResponse_iff h

/-- A Gemini body with these texts. -/
def geminiBody (texts : List String) : Value :=
  jsonObject [("candidates", .arr [jsonObject [("content",
    jsonObject [("role", jsonString "model"), ("parts", .arr (texts.map Gemini.textPart))])]])]

/-- A Cohere message with these texts. -/
def cohereMessage (texts : List String) : Value :=
  jsonObject [("role", jsonString "assistant"),
    ("content", .arr (texts.map Anthropic.textBlock))]

def cohereBody (texts : List String) : Value :=
  jsonObject [("id", jsonString "1"), ("message", cohereMessage texts)]

theorem answers_geminiBody (texts : List String) :
    PartsProtocol.Answers .gemini (texts.map .text) (geminiBody texts) := by
  refine ⟨texts.map Gemini.textPart, ?_, ?_⟩
  · simp [Gemini.firstParts, geminiBody, getKey_jsonObject, getItem]
  · rw [List.forall₂_map_left_iff, List.forall₂_map_right_iff]
    refine List.forall₂_same.mpr fun text _ => ?_
    simp [Gemini.Shows, Gemini.textPart, getStr_jsonObject]

theorem answers_cohereBody (texts : List String) :
    PartsProtocol.Answers .cohere (texts.map .text) (cohereBody texts) := by
  have htexts : textsOf (texts.map .text) = texts := by
    rw [textsOf, List.filterMap_map]
    exact List.filterMap_some
  have hcalls : callsOf (texts.map .text) = [] := by
    rw [callsOf, List.filterMap_map]
    exact List.filterMap_eq_nil_iff.mpr fun _ _ => rfl
  refine ⟨by simp [cohereBody, getKey_jsonObject, List.lookup_cons], cohereMessage texts,
    by simp [cohereBody, getKey_jsonObject], ?_, ?_⟩
  · rw [htexts]
    have hitems : Cohere.itemsOf (cohereMessage texts) "content" =
        texts.map Anthropic.textBlock := by
      simp [Cohere.itemsOf, cohereMessage, getKey_jsonObject, asArray]
    rw [hitems, List.forall₂_map_right_iff]
    refine List.forall₂_same.mpr fun text _ => ?_
    simp [Cohere.ShowsText, Anthropic.textBlock, getStr_jsonObject, List.lookup_cons]
  · rw [hcalls]
    simp [Cohere.itemsOf, cohereMessage, getKey_jsonObject, List.lookup_cons]

theorem readCompletely_gemini_hello :
    ReadCompletely [.text "Hello", .text ""] (parseResponse .gemini (geminiBody ["Hello", ""])) :=
  (readCompletely_iff .gemini [.text "Hello", .text ""] _ (answers_geminiBody ["Hello", ""])).mpr
    ⟨"Hello", [.text ""], rfl, List.forall_mem_singleton.mpr rfl⟩

theorem not_onlyFirstText_pair : ¬ OnlyFirstText [.text "Hel", .text "lo"] := by
  rintro ⟨text, rest, hparts, hempty⟩
  obtain ⟨-, rfl⟩ := List.cons.inj hparts
  have hlast := ContentBlock.text.inj (hempty _ List.mem_cons_self)
  exact absurd hlast (by decide)

/-- The second of two texts is lost in a Gemini and in a Cohere answer. -/
theorem second_text_lost :
    ¬ ReadCompletely [.text "Hel", .text "lo"] (parseResponse .gemini (geminiBody ["Hel", "lo"])) ∧
      ¬ ReadCompletely [.text "Hel", .text "lo"]
        (parseResponse .cohere (cohereBody ["Hel", "lo"])) := by
  constructor
  · intro hread
    exact not_onlyFirstText_pair
      ((Gemini.readCompletely_parseResponse_iff (answers_geminiBody ["Hel", "lo"])).mp hread)
  · intro hread
    exact not_onlyFirstText_pair
      ((Cohere.readCompletely_parseResponse_iff (answers_cohereBody ["Hel", "lo"])).mp hread)

end PartsProtocol

end HiveBear.Inference.Cloud
