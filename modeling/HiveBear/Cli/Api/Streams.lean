/-
# Streams of the API

What an engine streams is passed on token by token, in the form of OpenAI or of Ollama. Each
form has a record that says that the answer is finished. It is sent for an error, and it is
sent at the end. An error does not end the stream, so after one the client gets a second such
record, and the tokens in between.
-/

import HiveBear.Inference.MessageWire

namespace HiveBear.Cli.Api

open HiveBear.Inference JsonText

/-! ## Streams that end once -/

section

variable {E R : Type*}

/-- The texts of the tokens before the first error. -/
def tokensBeforeError : List (Except E String) → List String
  | .ok text :: results => text :: tokensBeforeError results
  | .error _ :: _ | [] => []

/-- No result is an error. -/
def NoError (results : List (Except E String)) : Prop := ∀ result ∈ results, result.isOk = true

variable (token : R → Option String) (terminal : R → Bool)

/-- The records are the tokens before the first error, in their order, and then one record that
says that the answer is finished. -/
def EndsOnce (results : List (Except E String)) (records : List R) : Prop :=
  ∃ front last, records = front ++ [last] ∧ terminal last = true ∧
    (∀ record ∈ front, terminal record = false) ∧
    front.map token = (tokensBeforeError results).map some

/-- A record is for a result: it has its token, or says that the answer is finished. -/
def IsFor : Except E String → R → Prop
  | .ok text, record => token record = some text ∧ terminal record = false
  | .error _, record => terminal record = true

variable {token terminal}

/-- No record says that the answer is finished just if no result is an error. -/
theorem forall_terminal_iff {results : List (Except E String)} {records : List R}
    (h : List.Forall₂ (IsFor token terminal) results records) :
    (∀ record ∈ records, terminal record = false) ↔ NoError results := by
  induction h with
  | nil => exact iff_of_true (List.forall_mem_nil _) (List.forall_mem_nil _)
  | @cons result record results records hfirst _ ih =>
      rw [NoError, List.forall_mem_cons, List.forall_mem_cons, ih]
      cases result with
      | ok text => exact and_congr_left fun _ => iff_of_true hfirst.2 rfl
      | error e =>
          have hterminal : terminal record = true := hfirst
          refine iff_of_false (fun hnot => ?_) fun hok => by cases hok.1
          rw [hterminal] at hnot
          cases hnot.1

/-- Without errors the records have the tokens. -/
theorem map_token_of_isFor {results : List (Except E String)} {records : List R}
    (h : List.Forall₂ (IsFor token terminal) results records) (hok : NoError results) :
    records.map token = (tokensBeforeError results).map some := by
  induction h with
  | nil => rfl
  | @cons result record results records hfirst _ ih =>
      obtain ⟨hresult, hresults⟩ := List.forall_mem_cons.mp hok
      cases result with
      | error e => cases hresult
      | ok text =>
          rw [List.map_cons, hfirst.1, ih hresults]
          rfl

/-- A stream with a record for each result and one at its end ends once just if no result is
an error. -/
theorem endsOnce_iff {results : List (Except E String)} {records : List R} {last : R}
    (h : List.Forall₂ (IsFor token terminal) results records) (hlast : terminal last = true) :
    EndsOnce token terminal results (records ++ [last]) ↔ NoError results := by
  rw [← forall_terminal_iff h]
  constructor
  · rintro ⟨front, final, hrecords, -, hterminal, -⟩
    obtain ⟨rfl, -⟩ := List.append_inj' hrecords rfl
    exact hterminal
  · intro hterminal
    have htokens := map_token_of_isFor h ((forall_terminal_iff h).mp hterminal)
    exact ⟨records, last, rfl, hlast, hterminal, htokens⟩

end

/-! ## OpenAI -/

structure Usage where
  promptTokens : UInt32
  completionTokens : UInt32
  totalTokens : UInt32

structure Delta where
  role : Option String
  content : Option String

structure StreamChoice where
  index : UInt32
  delta : Delta
  finishReason : Option String

structure StreamChunk where
  id : String
  object : String
  model : String
  choices : List StreamChoice
  usage : Option Usage

inductive SseEvent
  | chunk (chunk : StreamChunk)
  | done

section

variable {E : Type*} (chatId modelName : String)

def tokenChunk (first : Bool) (text : String) : StreamChunk where
  id := chatId
  object := "chat.completion.chunk"
  model := modelName
  choices := [⟨0, ⟨if first then some "assistant" else none, some text⟩, none⟩]
  usage := none

def finishChunk (usage : Option Usage) : StreamChunk where
  id := chatId
  object := "chat.completion.chunk"
  model := modelName
  choices := [⟨0, ⟨none, none⟩, some "stop"⟩]
  usage := usage

/-- The chunks of the results, where `first` says that none has a role yet. -/
def chunksFrom (first : Bool) (tokenCount : UInt32) :
    List (Except E String) → List StreamChunk
  | [] => []
  | .ok text :: results =>
      tokenChunk chatId modelName first text :: chunksFrom false (tokenCount + 1) results
  | .error _ :: results =>
      finishChunk chatId modelName (some ⟨0, tokenCount, tokenCount⟩) ::
        chunksFrom first tokenCount results

def streamResponse (results : List (Except E String)) : List SseEvent :=
  (chunksFrom chatId modelName true 0 results ++ [finishChunk chatId modelName none]).map .chunk ++
    [.done]

end

namespace StreamChunk

variable (chunk : StreamChunk)

/-- The text of the token in a chunk. -/
def token : Option String := chunk.choices.head?.bind fun choice => choice.delta.content

/-- The chunk says why the answer is finished. -/
def finished : Bool := chunk.choices.any fun choice => choice.finishReason.isSome

end StreamChunk

/-- A stream in the form of OpenAI ends once, and then with the sentinel. -/
def EndsWithDone {E : Type*} (results : List (Except E String)) (events : List SseEvent) : Prop :=
  ∃ chunks : List StreamChunk, events = chunks.map .chunk ++ [.done] ∧
    EndsOnce StreamChunk.token StreamChunk.finished results chunks

theorem chunksFrom_isFor {E : Type*} (chatId modelName : String) (first : Bool)
    (tokenCount : UInt32) (results : List (Except E String)) :
    List.Forall₂ (IsFor StreamChunk.token StreamChunk.finished) results
      (chunksFrom chatId modelName first tokenCount results) := by
  induction results generalizing first tokenCount with
  | nil => exact .nil
  | cons result results ih =>
      cases result with
      | ok text => exact .cons ⟨rfl, rfl⟩ (ih false (tokenCount + 1))
      | error e => exact .cons rfl (ih first tokenCount)

theorem endsWithDone_iff {E : Type*} (chatId modelName : String)
    (results : List (Except E String)) :
    EndsWithDone results (streamResponse chatId modelName results) ↔ NoError results := by
  have hlast : StreamChunk.finished (finishChunk chatId modelName none) = true := rfl
  rw [← endsOnce_iff (chunksFrom_isFor chatId modelName true 0 results) hlast]
  constructor
  · rintro ⟨chunks, hevents, hends⟩
    have hchunks := List.append_cancel_right hevents
    rwa [List.map_injective_iff.mpr (fun _ _ => SseEvent.chunk.inj) hchunks]
  · intro hends
    exact ⟨_, rfl, hends⟩

/-! ### On the wire -/

def jsonUInt32 (n : UInt32) : Value := .num (toString n.toNat).toList

/-- A field that is left out if there is nothing to write. -/
def optionalField (key : String) (value : Option Value) : List (String × Value) :=
  value.elim [] fun value => [(key, value)]

def Usage.toJson (usage : Usage) : Value :=
  jsonObject [("prompt_tokens", jsonUInt32 usage.promptTokens),
    ("completion_tokens", jsonUInt32 usage.completionTokens),
    ("total_tokens", jsonUInt32 usage.totalTokens)]

def Delta.toJson (delta : Delta) : Value :=
  jsonObject (optionalField "role" (delta.role.map jsonString) ++
    optionalField "content" (delta.content.map jsonString))

def StreamChoice.toJson (choice : StreamChoice) : Value :=
  jsonObject [("index", jsonUInt32 choice.index), ("delta", choice.delta.toJson),
    ("finish_reason", choice.finishReason.elim .null jsonString)]

def StreamChunk.toJson (chunk : StreamChunk) : Value :=
  jsonObject ([("id", jsonString chunk.id), ("object", jsonString chunk.object),
    ("model", jsonString chunk.model), ("choices", .arr (chunk.choices.map StreamChoice.toJson))] ++
    optionalField "usage" (chunk.usage.map Usage.toJson))

/-- The data of an event. -/
def SseEvent.data : SseEvent → List Char
  | .chunk record => write record.toJson
  | .done => "[DONE]".toList

/-- The sentinel is no chunk: a client sees it exactly where it is sent. -/
theorem SseEvent.data_eq_done_iff (event : SseEvent) :
    event.data = "[DONE]".toList ↔ event = .done := by
  cases event with
  | done => exact iff_of_true rfl rfl
  | chunk record =>
      refine iff_of_false ?_ fun h => by cases h
      intro hdata
      -- a chunk begins with a brace
      have hchunk : (chunk record).data = write record.toJson := rfl
      have hhead := congrArg List.head? (hchunk.symm.trans hdata)
      rw [StreamChunk.toJson, jsonObject, write] at hhead
      cases hhead

/-! ## Ollama -/

structure OllamaResponseMessage where
  role : String
  content : String

structure OllamaChatResponse where
  model : String
  message : OllamaResponseMessage
  done : Bool
  totalDuration : Option UInt64
  evalCount : Option UInt32

structure OllamaGenerateResponse where
  model : String
  response : String
  done : Bool
  totalDuration : Option UInt64
  evalCount : Option UInt32

section

variable {E : Type*} (model : String) (results : List (Except E String))

/-- A line of a chat, with the content of an assistant. -/
def chatLine (content : String) (done : Bool) : OllamaChatResponse :=
  ⟨model, ⟨"assistant", content⟩, done, none, none⟩

def chatRecord : Except E String → OllamaChatResponse
  | .ok text => chatLine model text false
  | .error _ => chatLine model "" true

/-- The lines of a chat that is streamed. -/
def ollamaChat : List OllamaChatResponse :=
  results.map (chatRecord model) ++ [chatLine model "" true]

def generateLine (response : String) (done : Bool) : OllamaGenerateResponse :=
  ⟨model, response, done, none, none⟩

def generateRecord : Except E String → OllamaGenerateResponse
  | .ok text => generateLine model text false
  | .error _ => generateLine model "" true

/-- The lines of a text that is streamed. -/
def ollamaGenerate : List OllamaGenerateResponse :=
  results.map (generateRecord model) ++ [generateLine model "" true]

end

theorem ollamaChat_endsOnce_iff {E : Type*} (model : String) (results : List (Except E String)) :
    EndsOnce (fun line : OllamaChatResponse => some line.message.content) OllamaChatResponse.done
      results (ollamaChat model results) ↔ NoError results := by
  refine endsOnce_iff ?_ rfl
  rw [List.forall₂_map_right_iff, List.forall₂_same]
  intro result _
  cases result with
  | ok text => exact ⟨rfl, rfl⟩
  | error e => exact rfl

theorem ollamaGenerate_endsOnce_iff {E : Type*} (model : String)
    (results : List (Except E String)) :
    EndsOnce (fun line : OllamaGenerateResponse => some line.response) OllamaGenerateResponse.done
      results (ollamaGenerate model results) ↔ NoError results := by
  refine endsOnce_iff ?_ rfl
  rw [List.forall₂_map_right_iff, List.forall₂_same]
  intro result _
  cases result with
  | ok text => exact ⟨rfl, rfl⟩
  | error e => exact rfl

/-! ## All of them -/

/-- **When the streams end once.** Each of the three emits the tokens before the first error, then
one record that says that the answer is finished, and for OpenAI the sentinel, and nothing
more, just if no result is an error. -/
theorem streams_end_once_iff {E : Type*} (chatId modelName : String)
    (results : List (Except E String)) :
    (EndsWithDone results (streamResponse chatId modelName results) ↔ NoError results) ∧
      (EndsOnce (fun line : OllamaChatResponse => some line.message.content)
        OllamaChatResponse.done results (ollamaChat modelName results) ↔ NoError results) ∧
      (EndsOnce (fun line : OllamaGenerateResponse => some line.response)
        OllamaGenerateResponse.done results (ollamaGenerate modelName results) ↔
          NoError results) :=
  ⟨endsWithDone_iff chatId modelName results, ollamaChat_endsOnce_iff modelName results,
    ollamaGenerate_endsOnce_iff modelName results⟩

/-- After an error every stream ends twice. -/
theorem streams_end_twice :
    let results : List (Except Unit String) := [.ok "Hel", .error ()]
    ¬ EndsWithDone results (streamResponse "chatcmpl-1" "model" results) ∧
      ¬ EndsOnce (fun line : OllamaChatResponse => some line.message.content)
        OllamaChatResponse.done results (ollamaChat "model" results) ∧
      ¬ EndsOnce (fun line : OllamaGenerateResponse => some line.response)
        OllamaGenerateResponse.done results (ollamaGenerate "model" results) := by
  intro results
  have herror : ¬ NoError results := by
    intro hok
    have hsecond := hok (.error ()) (by simp [results])
    cases hsecond
  exact ⟨fun hends => herror ((endsWithDone_iff _ _ _).mp hends),
    fun hends => herror ((ollamaChat_endsOnce_iff _ _).mp hends),
    fun hends => herror ((ollamaGenerate_endsOnce_iff _ _).mp hends)⟩

end HiveBear.Cli.Api
