/-
# Answers that are streamed

An answer can be asked for as a stream. A provider then sends events, each with a document on a
line of its own, and from each document the protocol reads the text that it adds to the answer.

However the events arrive in chunks, if no character is cut, the tokens are those of the
documents, in their order, and their texts come to the text that the complete answer would have.
A stream that breaks off gives the first tokens of the whole one and an error.

Only data lines are read. A provider that answers with documents alone gives no tokens, and no
error either.
-/

import HiveBear.Inference.Cloud.CompleteResponses
import HiveBear.Inference.Cloud.SystemMessages
import HiveBear.Inference.Sse

namespace HiveBear.Inference.Cloud

open JsonText Texts Utf8

/-! ## Documents of a stream -/

/-- How `serde_json` reads numbers, and what it says of a text that it does not read. -/
structure JsonReader where
  readNumber : List Char → Option (List Char)
  complaint : List Char → String

def JsonReader.fromStr (reader : JsonReader) (text : List Char) : Except String Value :=
  match fromStrWithin reader.readNumber recursionLimit text with
  | some value => .ok value
  | none => .error (reader.complaint text)

/-- A token of a stream. -/
structure Token where
  text : String
  id : UInt32
  logprob : Option ℚ
  isSpecial : Bool

/-- Providers tell no more of a token than its text. -/
def Token.ofText (text : String) : Token := ⟨text, 0, none, false⟩

/-- Text that is not empty is a token. -/
def tokenOf (text : String) : Option Token := if text = "" then none else some (.ofText text)

/-- Read the document of an event. -/
def readChunk (reader : JsonReader) (failure : String)
    (read : Value → Except InferenceError (Option Token)) (data : List Char) :
    Except InferenceError (Option Token) :=
  match reader.fromStr data with
  | .ok parsed => read parsed
  | .error e => .error (.generationError s!"{failure}: {e}")

namespace OpenAiCompat

/-- What a document changes in the first choice. -/
def firstDelta (parsed : Value) : Option Value :=
  ((getKey parsed "choices").bind fun choices => getItem choices 0).bind fun choice =>
    getKey choice "delta"

def chunkToken (parsed : Value) : Option Token :=
  match firstDelta parsed with
  | none => none
  | some delta =>
      match getKey delta "content" with
      | none => none
      | some content => tokenOf ((asStr content).getD "")

def parseStreamChunk (reader : JsonReader) : List Char → Except InferenceError (Option Token) :=
  readChunk reader "Failed to parse SSE chunk" fun parsed => .ok (chunkToken parsed)

def doneSentinel : Option (List Char) := some "[DONE]".toList

end OpenAiCompat

namespace Anthropic

def chunkToken (parsed : Value) : Except InferenceError (Option Token) :=
  if (getStr parsed "type").getD "" = "content_block_delta" then
    match getKey parsed "delta" with
    | none => .error (.generationError "content_block_delta missing 'delta' field")
    | some delta =>
        if (getStr delta "type").getD "" = "text_delta" then
          .ok (some (.ofText ((getStr delta "text").getD "")))
        else .ok none
  else .ok none

def parseStreamChunk (reader : JsonReader) : List Char → Except InferenceError (Option Token) :=
  readChunk reader "Failed to parse Anthropic stream chunk" chunkToken

def doneSentinel : Option (List Char) := none

end Anthropic

namespace Gemini

def chunkToken (json : Value) : Option Token :=
  match ((firstParts json).bind fun parts => getItem parts 0).bind fun part =>
    getStr part "text" with
  | some text => tokenOf text
  | none => none

def parseStreamChunk (reader : JsonReader) : List Char → Except InferenceError (Option Token) :=
  readChunk reader "Gemini stream JSON parse error" fun json => .ok (chunkToken json)

def doneSentinel : Option (List Char) := none

end Gemini

namespace Cohere

def chunkToken (json : Value) : Option Token :=
  match getStr json "event_type" with
  | some eventType =>
      if eventType = "text-generation" then tokenOf ((getStr json "text").getD "") else none
  | none => none

def parseStreamChunk (reader : JsonReader) : List Char → Except InferenceError (Option Token) :=
  readChunk reader "Cohere stream JSON parse error" fun json => .ok (chunkToken json)

def doneSentinel : Option (List Char) := none

end Cohere

namespace CloudProtocol

def parseStreamChunk (protocol : CloudProtocol) (reader : JsonReader) :
    List Char → Except InferenceError (Option Token) :=
  match protocol with
  | .openAiCompat => OpenAiCompat.parseStreamChunk reader
  | .anthropic => Anthropic.parseStreamChunk reader
  | .gemini => Gemini.parseStreamChunk reader
  | .cohere => Cohere.parseStreamChunk reader

def doneSentinel : CloudProtocol → Option (List Char)
  | .openAiCompat => OpenAiCompat.doneSentinel
  | .anthropic => Anthropic.doneSentinel
  | .gemini => Gemini.doneSentinel
  | .cohere => Cohere.doneSentinel

/-- Read the body of a complete answer. -/
def parseResponse (protocol : CloudProtocol) (reader : JsonReader) (body : Value) :
    Except InferenceError GenerateResponse :=
  match protocol with
  | .openAiCompat => OpenAiCompat.parseResponse reader.readNumber body
  | .anthropic => Anthropic.parseResponse body
  | .gemini => Gemini.parseResponse body
  | .cohere => Cohere.parseResponse body

/-- The token of a document, if it has one. -/
def chunkToken (protocol : CloudProtocol) (doc : Value) : Option Token :=
  match protocol with
  | .openAiCompat => OpenAiCompat.chunkToken doc
  | .anthropic => (Anthropic.chunkToken doc).toOption.join
  | .gemini => Gemini.chunkToken doc
  | .cohere => Cohere.chunkToken doc

/-- The tokens of a stream that is read with a protocol. -/
def streamTokens (protocol : CloudProtocol) (reader : JsonReader)
    (response : List (Except String (List UInt8))) : List (Except InferenceError Token) :=
  streamSseWithParser protocol.doneSentinel response (protocol.parseStreamChunk reader)

end CloudProtocol

/-! ### Documents as they are read -/

section

variable {readNumber : List Char → Option (List Char)} {value held : Value}

theorem rel_getKey (h : Held readNumber value held) (key : String) :
    Option.Rel (Held readNumber) (getKey value key) (getKey held key) := by
  cases value with
  | null | bool | str =>
      obtain rfl := Option.some.inj h
      exact .none
  | num | arr =>
      obtain ⟨_, -, rfl⟩ := Option.map_eq_some_iff.mp h
      exact .none
  | obj fields =>
      obtain ⟨kept, hkept, rfl⟩ := Option.map_eq_some_iff.mp h
      exact rel_lookup_renumberFields hkept key.toList

theorem rel_getItem (h : Held readNumber value held) (i : ℕ) :
    Option.Rel (Held readNumber) (getItem value i) (getItem held i) := by
  cases value with
  | null | bool | str =>
      obtain rfl := Option.some.inj h
      exact .none
  | num | obj =>
      obtain ⟨_, -, rfl⟩ := Option.map_eq_some_iff.mp h
      exact .none
  | arr items =>
      obtain ⟨kept, hkept, rfl⟩ := Option.map_eq_some_iff.mp h
      exact rel_getElem?_renumberItems hkept i

theorem rel_bind {a b : Option Value} {f : Value → Option Value}
    (hab : Option.Rel (Held readNumber) a b)
    (hf : ∀ {x y}, Held readNumber x y → Option.Rel (Held readNumber) (f x) (f y)) :
    Option.Rel (Held readNumber) (a.bind f) (b.bind f) := by
  cases hab with
  | none => exact .none
  | some hxy => exact hf hxy

/-- The texts of a value are held as they are. -/
theorem asStr_held (h : Held readNumber value held) : asStr held = asStr value := by
  cases value with
  | null | bool | str =>
      obtain rfl := Option.some.inj h
      rfl
  | num | arr | obj =>
      obtain ⟨_, -, rfl⟩ := Option.map_eq_some_iff.mp h
      rfl

theorem getStr_held (h : Held readNumber value held) (key : String) :
    getStr held key = getStr value key := by
  have hrel := rel_getKey h key
  rw [getStr, getStr]
  generalize getKey value key = a at hrel
  generalize getKey held key = b at hrel
  cases hrel with
  | none => rfl
  | some hxy => exact asStr_held hxy

/-- The texts that are found along a path are held as they are. -/
theorem bind_getStr_held {a b : Option Value} (h : Option.Rel (Held readNumber) a b)
    (key : String) : (b.bind fun x => getStr x key) = a.bind fun x => getStr x key := by
  cases h with
  | none => rfl
  | some hxy => exact getStr_held hxy key

theorem OpenAiCompat.chunkToken_held (h : Held readNumber value held) :
    OpenAiCompat.chunkToken held = OpenAiCompat.chunkToken value := by
  have hdelta : Option.Rel (Held readNumber) (firstDelta value) (firstDelta held) :=
    rel_bind (rel_bind (rel_getKey h "choices") fun hxy => rel_getItem hxy 0) fun hxy =>
      rel_getKey hxy "delta"
  rw [OpenAiCompat.chunkToken, OpenAiCompat.chunkToken]
  generalize firstDelta value = a at hdelta
  generalize firstDelta held = b at hdelta
  cases hdelta with
  | none => rfl
  | @some x y hxy =>
      have hcontent := rel_getKey hxy "content"
      dsimp only
      generalize getKey x "content" = content at hcontent
      generalize getKey y "content" = kept at hcontent
      cases hcontent with
      | none => rfl
      | some hsame =>
          dsimp only
          rw [asStr_held hsame]

theorem Anthropic.chunkToken_held (h : Held readNumber value held) :
    Anthropic.chunkToken held = Anthropic.chunkToken value := by
  have hdelta := rel_getKey h "delta"
  rw [Anthropic.chunkToken, Anthropic.chunkToken, getStr_held h]
  generalize getKey value "delta" = a at hdelta
  generalize getKey held "delta" = b at hdelta
  cases hdelta with
  | none => rfl
  | some hxy =>
      dsimp only
      rw [getStr_held hxy, getStr_held hxy]

theorem Gemini.chunkToken_held (h : Held readNumber value held) :
    Gemini.chunkToken held = Gemini.chunkToken value := by
  have hparts : Option.Rel (Held readNumber) (firstParts value) (firstParts held) :=
    rel_bind (rel_bind (rel_bind (rel_getKey h "candidates") fun hxy => rel_getItem hxy 0)
      fun hxy => rel_getKey hxy "content") fun hxy => rel_getKey hxy "parts"
  rw [Gemini.chunkToken, Gemini.chunkToken,
    bind_getStr_held (rel_bind hparts fun hxy => rel_getItem hxy 0)]

theorem Cohere.chunkToken_held (h : Held readNumber value held) :
    Cohere.chunkToken held = Cohere.chunkToken value := by
  rw [Cohere.chunkToken, Cohere.chunkToken, getStr_held h, getStr_held h]

end

/-- The reader takes a document: it is not nested too deep, and its numbers are taken. -/
def JsonReader.Takes (reader : JsonReader) (doc : Value) : Prop :=
  doc.Sound ∧ doc.depth ≤ recursionLimit ∧ (doc.renumber reader.readNumber).isSome

/-- The token that is read of a chunk. An error is none. -/
def CloudProtocol.readToken (protocol : CloudProtocol) (reader : JsonReader) (data : List Char) :
    Option Token :=
  match protocol.parseStreamChunk reader data with
  | .ok token => token
  | .error _ => none

theorem JsonReader.Takes.fromStr_write {reader : JsonReader} {doc : Value} (h : reader.Takes doc) :
    ∃ held, reader.fromStr (write doc) = .ok held ∧ Held reader.readNumber doc held := by
  obtain ⟨hsound, hdepth, htaken⟩ := h
  obtain ⟨held, hheld⟩ := Option.isSome_iff_exists.mp htaken
  refine ⟨held, ?_, hheld⟩
  rw [JsonReader.fromStr, fromStrWithin_write _ _ hsound, if_pos hdepth, hheld]

/-- What is read of a document is its token. -/
theorem CloudProtocol.readToken_write (protocol : CloudProtocol) {reader : JsonReader}
    {doc : Value} (h : reader.Takes doc) :
    protocol.readToken reader (write doc) = protocol.chunkToken doc := by
  obtain ⟨held, hread, hheld⟩ := h.fromStr_write
  have hchunk (failure : String) (read : Value → Except InferenceError (Option Token)) :
      readChunk reader failure read (write doc) = read held := by
    rw [readChunk, hread]
  rw [CloudProtocol.readToken]
  cases protocol with
  | openAiCompat =>
      rw [CloudProtocol.parseStreamChunk, OpenAiCompat.parseStreamChunk, hchunk]
      exact OpenAiCompat.chunkToken_held hheld
  | anthropic =>
      rw [CloudProtocol.parseStreamChunk, Anthropic.parseStreamChunk, hchunk,
        Anthropic.chunkToken_held hheld, CloudProtocol.chunkToken]
      cases Anthropic.chunkToken doc <;> rfl
  | gemini =>
      rw [CloudProtocol.parseStreamChunk, Gemini.parseStreamChunk, hchunk]
      exact Gemini.chunkToken_held hheld
  | cohere =>
      rw [CloudProtocol.parseStreamChunk, Cohere.parseStreamChunk, hchunk]
      exact Cohere.chunkToken_held hheld

/-! ## Events -/

/-- A line of a stream of events: it has a document, or it is an empty line, a comment, the name of
an event, or anything else that is no data. -/
inductive SseLine
  | data (fields : List (List Char × Value))
  | other (line : List Char) (single : '\n' ∉ line) (noData : ¬ "data:".toList <+: line)

namespace SseLine

/-- The document of a line. -/
def doc? : SseLine → Option Value
  | data fields => some (.obj fields)
  | other _ _ _ => none

def text : SseLine → List Char
  | data fields => "data: ".toList ++ write (.obj fields)
  | other line _ _ => line

end SseLine

/-- What stands in front of a line feed. -/
def lineReturn (crlf : Bool) : List Char := if crlf then ['\r'] else []

/-- The text of a stream of events. -/
def sseText (crlf : Bool) (lines : List SseLine) : List Char :=
  lines.flatMap fun line => line.text ++ lineReturn crlf ++ ['\n']

/-- The documents of a stream of events. -/
def docsOf (lines : List SseLine) : List Value := lines.filterMap SseLine.doc?

/-- Behind its last line a stream is over, or it says so, and then anything may follow. -/
def CloudProtocol.Ends (protocol : CloudProtocol) (crlf : Bool) (tail : List Char) : Prop :=
  tail = [] ∨ ∃ sentinel rest, protocol.doneSentinel = some sentinel ∧
    tail = "data: ".toList ++ sentinel ++ lineReturn crlf ++ '\n' :: rest

section

variable {sentinel : Option (List Char)} {crlf : Bool}

theorem trimEnd_append_lineReturn {line : List Char} {c : Char} (hc : c ≠ '\r') :
    trimEnd (line ++ [c] ++ lineReturn crlf) = line ++ [c] := by
  rw [trimEnd, rdropWhile_append (by simpa using hc)]
  cases crlf <;> simp [lineReturn, List.rdropWhile]

/-- The text of an object has nothing to trim. -/
theorem trim_write_obj (fields : List (List Char × Value)) :
    trim (write (.obj fields)) = write (.obj fields) := by
  have hopen : (write (.obj fields)).dropWhile isRustSpace = write (.obj fields) := by
    rw [write, List.append_assoc, List.singleton_append]
    exact List.dropWhile_cons_of_neg (by decide)
  rw [trim, hopen, write]
  exact List.rdropWhile_concat_neg _ _ _ (by decide)

theorem readLine_doc (h : ∀ text ∈ sentinel, '\x7b' ∉ text) (fields : List (List Char × Value)) :
    readLine sentinel (trimEnd ("data: ".toList ++ write (.obj fields) ++ lineReturn crlf)) =
      .data (write (.obj fields)) := by
  have hline : "data: ".toList ++ write (.obj fields) =
      ("data: ".toList ++ (['\x7b'] ++ writeFields fields)) ++ ['\x7d'] := by
    rw [write, List.append_assoc "data: ".toList]
  have hbrace : '\x7b' ∈ write (.obj fields) := by
    rw [write]
    simp
  have hpayload : dataPayload ("data: ".toList ++ write (.obj fields)) =
      some (write (.obj fields)) := by
    simp [dataPayload, stripStart]
  rw [hline, trimEnd_append_lineReturn (by decide), ← hline, readLine_eq, hpayload]
  dsimp only
  rw [checkData, trim_write_obj, if_neg, if_neg]
  · exact List.ne_nil_of_mem hbrace
  · intro hdone
    exact h _ hdone hbrace

theorem readLine_other {line : List Char} (h : ¬ "data:".toList <+: line) :
    readLine sentinel (trimEnd (line ++ lineReturn crlf)) = .skip := by
  have hnone : dataPayload (trimEnd (line ++ lineReturn crlf)) = none := by
    by_contra hsome
    obtain ⟨data, hdata⟩ := Option.ne_none_iff_exists'.mp hsome
    have hstarts := (starts_of_dataPayload hdata).trans (List.rdropWhile_prefix _ _)
    cases crlf with
    | false =>
        rw [lineReturn, if_neg Bool.false_ne_true, List.append_nil] at hstarts
        exact h hstarts
    | true =>
        rcases List.prefix_concat_iff.mp hstarts with hwhole | hstarts
        · have hlast := congrArg List.getLast? hwhole
          rw [List.getLast?_concat] at hlast
          exact absurd hlast (by decide)
        · exact h hstarts
  rw [readLine_eq, hnone]

/-- **Line by line** the documents are handed on. -/
theorem partPayloads_sseText (h : ∀ text ∈ sentinel, '\x7b' ∉ text) (lines : List SseLine)
    (hsound : ∀ doc ∈ docsOf lines, doc.Sound) (tail : List Char) :
    partPayloads sentinel ((sseText crlf lines ++ tail).splitOn '\n') =
      (docsOf lines).map write ++ partPayloads sentinel (tail.splitOn '\n') := by
  induction lines with
  | nil => rfl
  | cons line lines ih =>
      have hreturn : '\n' ∉ lineReturn crlf := by
        cases crlf <;> decide
      have hsplit (hline : '\n' ∉ line.text) : (sseText crlf (line :: lines) ++ tail).splitOn '\n' =
          (line.text ++ lineReturn crlf) :: (sseText crlf lines ++ tail).splitOn '\n' := by
        have hnone : '\n' ∉ line.text ++ lineReturn crlf := by
          rw [List.mem_append, not_or]
          exact ⟨hline, hreturn⟩
        rw [sseText, List.flatMap_cons, List.append_assoc, List.append_assoc, List.singleton_append]
        exact List.splitOn_append_cons_self_of_not_mem hnone _
      cases line with
      | data fields =>
          obtain ⟨hfirst, hlater⟩ := List.forall_mem_cons.mp hsound
          have hline : '\n' ∉ "data: ".toList ++ write (.obj fields) := by
            rw [List.mem_append, not_or]
            exact ⟨by decide, lineFeed_notMem_write _ hfirst⟩
          rw [hsplit hline, partPayloads_cons _ (List.splitOn_ne_nil _ _), SseLine.text,
            readLine_doc h]
          exact congrArg (write (.obj fields) :: ·) (ih hlater)
      | other line single noData =>
          rw [hsplit single, partPayloads_cons _ (List.splitOn_ne_nil _ _), SseLine.text,
            readLine_other noData]
          exact ih hsound

/-- Nothing is read behind the end of a stream. -/
theorem partPayloads_of_ends {protocol : CloudProtocol} {tail : List Char}
    (h : protocol.Ends crlf tail) :
    partPayloads protocol.doneSentinel (tail.splitOn '\n') = [] := by
  rcases h with rfl | ⟨sentinel, rest, hsentinel, rfl⟩
  · rfl
  · cases protocol with
    | anthropic | gemini | cohere => cases hsentinel
    | openAiCompat =>
        obtain rfl := Option.some.inj hsentinel
        have hreturn : '\n' ∉ "data: ".toList ++ "[DONE]".toList ++ lineReturn crlf := by
          cases crlf <;> decide
        rw [List.splitOn_append_cons_self_of_not_mem hreturn,
          partPayloads_cons _ (List.splitOn_ne_nil _ _)]
        cases crlf <;> rfl

end

theorem brace_notMem_doneSentinel (protocol : CloudProtocol) :
    ∀ text ∈ protocol.doneSentinel, '\x7b' ∉ text := by
  cases protocol with
  | openAiCompat =>
      rintro text ⟨⟩
      decide
  | anthropic | gemini | cohere => exact fun _ h => by cases h

/-- Chunks that cut no character come to their text. -/
theorem flatMap_lossy_encode (chunks : List (List Char)) :
    (chunks.map encode).flatMap lossy = chunks.flatten := by
  rw [List.flatMap_map, List.flatten_eq_flatMap]
  exact List.flatMap_congr fun chunk _ => lossy_encode chunk

/-- A stream that does not break off gives no error. -/
theorem error_readStream (sentinel : Option (List Char)) (buffer : List Char)
    (chunks : List (List UInt8)) : (readStream sentinel buffer (chunks.map .ok)).error = none := by
  induction chunks generalizing buffer with
  | nil => rfl
  | cons chunk chunks ih =>
      rw [List.map_cons, readStream]
      dsimp only
      cases drain sentinel ((buffer ++ lossy chunk).count '\n') (buffer ++ lossy chunk) with
      | mk handed rest =>
          cases rest with
          | none => rfl
          | some rest => exact ih rest

/-- The tokens of what is handed on. -/
theorem CloudProtocol.streamTokens_eq (protocol : CloudProtocol) (reader : JsonReader)
    (response : List (Except String (List UInt8))) :
    protocol.streamTokens reader response =
      ((readStream protocol.doneSentinel [] response).handed.filterMap
        (protocol.readToken reader)).map .ok ++
      (readStream protocol.doneSentinel [] response).error.toList.map .error := by
  rw [CloudProtocol.streamTokens, streamSseWithParser]
  congr 2
  refine List.filterMap_congr fun data _ => ?_
  rw [CloudProtocol.readToken]
  cases protocol.parseStreamChunk reader data <;> rfl

/-- A document that adds a text to the first choice. -/
def deltaFields (text : String) : List (List Char × Value) :=
  jsonFields [("choices", .arr [jsonObject [("delta", jsonObject [("content", jsonString text)])]])]

/-- A stream with a comment, two documents and an empty line between them. -/
def helloLines : List SseLine :=
  [.other ": ok".toList (by decide) (by decide), .data (deltaFields "Hel"),
    .other [] List.not_mem_nil (by decide), .data (deltaFields "lo")]

/-- It says that it is over. -/
def helloTail : List Char := "data: [DONE]".toList ++ '\n' :: "\n".toList

/-- It arrives in two chunks, of which the second one begins inside of a document. -/
def helloChunks : List (List Char) :=
  [(sseText false helloLines ++ helloTail).take 30, (sseText false helloLines ++ helloTail).drop 30]

/-- A reader that keeps every number. -/
def plainReader : JsonReader := ⟨some, fun _ => "expected value at line 1 column 1"⟩

theorem takes_deltaFields (text : String) : plainReader.Takes (.obj (deltaFields text)) := by
  refine ⟨⟨⟨⟨⟨trivial, trivial⟩, trivial⟩, trivial⟩, trivial⟩, ?_, rfl⟩
  change 4 ≤ recursionLimit
  decide

theorem takes_helloLines : ∀ doc ∈ docsOf helloLines, plainReader.Takes doc := by
  have hdocs : docsOf helloLines = [.obj (deltaFields "Hel"), .obj (deltaFields "lo")] := rfl
  rw [hdocs]
  exact List.forall_mem_cons.mpr
    ⟨takes_deltaFields "Hel", List.forall_mem_singleton.mpr (takes_deltaFields "lo")⟩

theorem ends_helloTail : CloudProtocol.Ends .openAiCompat false helloTail :=
  Or.inr ⟨_, _, rfl, rfl⟩

theorem flatten_helloChunks : helloChunks.flatten = sseText false helloLines ++ helloTail := by
  rw [helloChunks, List.flatten_cons, List.flatten_singleton, List.take_append_drop]

/-- What a document of a stream says: a text that it adds to the answer, or nothing. -/
def CloudProtocol.Says : CloudProtocol → Option String → Value → Prop
  | .openAiCompat, some text, doc =>
      ∃ delta, OpenAiCompat.firstDelta doc = some delta ∧ getStr delta "content" = some text
  | .openAiCompat, none, doc =>
      ∀ delta ∈ OpenAiCompat.firstDelta doc, getStr delta "content" = none
  | .anthropic, some text, doc =>
      getStr doc "type" = some "content_block_delta" ∧ ∃ delta, getKey doc "delta" = some delta ∧
        getStr delta "type" = some "text_delta" ∧ getStr delta "text" = some text
  | .anthropic, none, doc =>
      getStr doc "type" = some "content_block_delta" →
        ∀ delta ∈ getKey doc "delta", getStr delta "type" ≠ some "text_delta"
  | .gemini, some text, doc => Gemini.Answers [.text text] doc
  | .gemini, none, doc => Gemini.firstParts doc = none
  | .cohere, some text, doc =>
      getStr doc "event_type" = some "text-generation" ∧ getStr doc "text" = some text
  | .cohere, none, doc => getStr doc "event_type" ≠ some "text-generation"

/-- A complete answer has this text. -/
def CloudProtocol.AnswersText : CloudProtocol → String → Value → Prop
  | .openAiCompat, text, body =>
      ∃ message, OpenAiCompat.firstMessage body = some message ∧
        getStr message "content" = some text
  | .anthropic, text, body => Anthropic.Answers [.text text] body
  | .gemini, text, body => Gemini.Answers [.text text] body
  | .cohere, text, body => Cohere.Answers [.text text] body

theorem getKey_of_getStr {value : Value} {key text : String} (h : getStr value key = some text) :
    ∃ content, getKey value key = some content ∧ asStr content = some text :=
  Option.bind_eq_some_iff.mp h

/-- The token of a document has the text that the document says. -/
theorem CloudProtocol.text_chunkToken {protocol : CloudProtocol} {said : Option String}
    {doc : Value} (h : protocol.Says said doc) :
    ((protocol.chunkToken doc).map Token.text).getD "" = said.getD "" := by
  have htoken (text : String) : ((tokenOf text).map Token.text).getD "" = text := by
    rw [tokenOf]
    split_ifs with hempty
    · exact hempty.symm
    · rfl
  cases protocol with
  | openAiCompat =>
      rw [CloudProtocol.chunkToken, OpenAiCompat.chunkToken]
      cases said with
      | some text =>
          obtain ⟨delta, hdelta, htext⟩ := h
          obtain ⟨content, hcontent, hstr⟩ := getKey_of_getStr htext
          rw [hdelta]
          dsimp only
          rw [hcontent]
          dsimp only
          rw [hstr]
          exact htoken text
      | none =>
          cases hdelta : OpenAiCompat.firstDelta doc with
          | none => rfl
          | some delta =>
              have hnone := h delta hdelta
              dsimp only
              cases hcontent : getKey delta "content" with
              | none => rfl
              | some content =>
                  rw [getStr, hcontent, Option.bind_some] at hnone
                  dsimp only
                  rw [hnone]
                  rfl
  | anthropic =>
      rw [CloudProtocol.chunkToken, Anthropic.chunkToken]
      cases said with
      | some text =>
          obtain ⟨htype, delta, hdelta, hkind, htext⟩ := h
          rw [htype, Option.getD_some, if_pos rfl, hdelta]
          dsimp only
          rw [hkind, Option.getD_some, if_pos rfl, htext]
          rfl
      | none =>
          split_ifs with htype
          · have hdoc : getStr doc "type" = some "content_block_delta" := by
              cases hfound : getStr doc "type" with
              | none =>
                  rw [hfound] at htype
                  exact absurd htype (by decide)
              | some found => rw [← htype, hfound, Option.getD_some]
            have hkind := h hdoc
            cases hdelta : getKey doc "delta" with
            | none => rfl
            | some delta =>
                dsimp only
                rw [if_neg]
                · rfl
                · intro htext
                  refine hkind delta hdelta ?_
                  cases hfound : getStr delta "type" with
                  | none =>
                      rw [hfound] at htext
                      exact absurd htext (by decide)
                  | some found => rw [← htext, hfound, Option.getD_some]
          · rfl
  | gemini =>
      rw [CloudProtocol.chunkToken, Gemini.chunkToken]
      cases said with
      | some text =>
          obtain ⟨items, hparts, hshows⟩ := h
          obtain ⟨item, rest, hitem, -, rfl⟩ := List.forall₂_cons_left_iff.mp hshows
          have htext : getStr item "text" = some text := hitem
          have hfirst : getItem (.arr (item :: rest)) 0 = some item := rfl
          rw [hparts, Option.bind_some, hfirst, Option.bind_some, htext]
          exact htoken text
      | none =>
          have hnone : Gemini.firstParts doc = none := h
          rw [hnone]
          rfl
  | cohere =>
      rw [CloudProtocol.chunkToken, Cohere.chunkToken]
      cases said with
      | some text =>
          obtain ⟨htype, htext⟩ := h
          rw [htype, htext]
          exact htoken text
      | none =>
          have hother : getStr doc "event_type" ≠ some "text-generation" := h
          cases htype : getStr doc "event_type" with
          | none => rfl
          | some eventType =>
              dsimp only
              rw [if_neg]
              · rfl
              · rintro rfl
                exact hother htype

/-- A complete answer is read as the text that it has. -/
theorem CloudProtocol.allText_parseResponse {protocol : CloudProtocol} {reader : JsonReader}
    {text : String} {body : Value} (h : protocol.AnswersText text body) :
    ∃ response, protocol.parseResponse reader body = .ok response ∧ response.allText = text := by
  have hparts {answer : Except InferenceError GenerateResponse}
      (hread : ReadCompletely [.text text] answer) :
      ∃ response, answer = .ok response ∧ response.allText = text := by
    obtain ⟨response, hanswer, hkept⟩ := hread
    rw [KeepsParts, if_pos (show callsOf [.text text] = [] from rfl)] at hkept
    refine ⟨response, hanswer, ?_⟩
    rw [hkept]
    simp [GenerateResponse.allText, GenerateResponse.blocks, ContentBlock.text?, textsOf,
      String.join]
  have honly : OnlyFirstText [.text text] := ⟨text, [], rfl, List.forall_mem_nil _⟩
  cases protocol with
  | openAiCompat =>
      obtain ⟨message, hmessage, htext⟩ := h
      refine ⟨_, OpenAiCompat.parseResponse_of_firstMessage hmessage, ?_⟩
      rw [OpenAiCompat.allText_parseMessage, htext, Option.getD_some]
  | anthropic =>
      exact hparts ((Anthropic.readCompletely_parseResponse_iff h).mpr (List.cons_ne_nil _ _))
  | gemini => exact hparts ((Gemini.readCompletely_parseResponse_iff h).mpr honly)
  | cohere => exact hparts ((Cohere.readCompletely_parseResponse_iff h).mpr honly)

/-- The texts of the tokens of documents come to what the documents say. -/
theorem join_chunkTokens {protocol : CloudProtocol} {said : List (Option String)}
    {docs : List Value} (h : List.Forall₂ protocol.Says said docs) :
    String.join ((docs.filterMap protocol.chunkToken).map Token.text) =
      String.join (said.filterMap id) := by
  induction h with
  | nil => rfl
  | @cons text doc said docs hdoc _ ih =>
      have hfirst := CloudProtocol.text_chunkToken hdoc
      have hleft : String.join (((doc :: docs).filterMap protocol.chunkToken).map Token.text) =
          ((protocol.chunkToken doc).map Token.text).getD "" ++
            String.join ((docs.filterMap protocol.chunkToken).map Token.text) := by
        rw [List.filterMap_cons]
        cases protocol.chunkToken doc with
        | none => exact (String.empty_append).symm
        | some token => exact String.join_cons
      have hright : String.join ((text :: said).filterMap id) =
          text.getD "" ++ String.join (said.filterMap id) := by
        cases text with
        | none => exact (String.empty_append).symm
        | some text => exact String.join_cons
      rw [hleft, hright, hfirst, ih]

/-- Documents with white space between them, as one document laid out on lines or as one document
on each line. -/
def docsText (docs : List (Space × Tree)) (last : Space) : List Char :=
  docs.flatMap (fun doc => doc.1.text ++ doc.2.text) ++ last.text

theorem quoted_docsText {c : Char} (hc : c ∉ bareChars) {docs : List (Space × Tree)}
    (hdocs : ∀ doc ∈ docs, doc.2.Strict) (last : Space) : Quoted c (docsText docs last) := by
  refine Quoted.append ?_ (quoted_space hc last)
  induction docs with
  | nil => exact quoted_of_notMem List.not_mem_nil
  | cons doc docs ih =>
      obtain ⟨hdoc, hlater⟩ := List.forall_mem_cons.mp hdocs
      rw [List.flatMap_cons]
      exact ((quoted_space hc doc.1).append (doc.2.quoted hc hdoc)).append (ih hlater)

section

variable {sentinel : Option (List Char)}

/-- Lines without data hand nothing on. -/
theorem partPayloads_eq_nil {parts : List (List Char)} {last : List Char}
    (hparts : ∀ line ∈ parts, readLine sentinel (trimEnd line) = .skip)
    (hlast : readBuffer sentinel last = []) : partPayloads sentinel (parts ++ [last]) = [] := by
  induction parts with
  | nil => exact hlast
  | cons line parts ih =>
      obtain ⟨hline, hlater⟩ := List.forall_mem_cons.mp hparts
      rw [List.cons_append, partPayloads_cons _ (by simp), hline]
      exact ih hlater

/-- What is left of a line whose letters d are quoted is no data. -/
theorem markedPayload_of_quoted {marks : List (Char × ℕ)}
    (h : ∀ front back, plain marks = front ++ 'd' :: back → '"' ∈ front) :
    markedPayload (trimSpaces marks) = none := by
  have hnone (start : List Char) (hd : 'd' :: start <+: plain (trimSpaces marks)) : False := by
    obtain ⟨back, hback⟩ := hd
    have hfront := @List.takeWhile_append_dropWhile _ isSpaceMark marks
    have hend := @List.rdropWhile_append_rtakeWhile _ isSpaceMark (marks.dropWhile isSpaceMark)
    have hsplit : plain marks = plain (marks.takeWhile isSpaceMark) ++
        'd' :: (start ++ back ++ plain ((marks.dropWhile isSpaceMark).rtakeWhile isSpaceMark)) := by
      have hwhole : plain marks = plain (marks.takeWhile isSpaceMark) ++ (plain (trimSpaces marks) ++
          plain ((marks.dropWhile isSpaceMark).rtakeWhile isSpaceMark)) := by
        rw [plain, plain, plain, plain, ← List.map_append, ← List.map_append, trimSpaces, hend,
          hfront]
      rw [hwhole, ← hback]
      rfl
    obtain ⟨x, hx, hquote⟩ := List.mem_map.mp (h _ _ hsplit)
    have hspace := List.mem_takeWhile_imp hx
    rw [isSpaceMark, hquote] at hspace
    exact absurd (Bool.and_eq_true_iff.mp hspace).2 (by decide)
  have hspace : ¬ "data: ".toList <+: plain (trimSpaces marks) := hnone "ata: ".toList
  have hstart : ¬ "data:".toList <+: plain (trimSpaces marks) := hnone "ata:".toList
  rw [markedPayload, if_neg hspace, if_neg hstart]

/-- Nothing is handed on of a text whose letters d are all quoted. -/
theorem handed_of_quoted {chunks : List (List UInt8)} {text : List Char}
    (hbytes : chunks.flatten = encode text) (h : Quoted 'd' text) :
    (readStream sentinel [] (chunks.map .ok)).handed = [] := by
  obtain ⟨parts, last, -, hparts, hlast, hnewline, hspoil, hplain⟩ := exists_lines hbytes
  have hquoted (marks : List (Char × ℕ)) (hmarks : marks ∈ parts ++ [last]) :
      ∀ front back, plain marks = front ++ 'd' :: back → '"' ∈ front := by
    intro front back hsplit
    refine mem_quote_of_mem_splitOn h ?_ hsplit
    rw [hplain]
    exact List.mem_map_of_mem hmarks
  rw [handed_readStream List.not_mem_nil, List.nil_append, hspoil, List.map_append,
    List.map_singleton]
  refine partPayloads_eq_nil ?_ ?_
  · intro line hline
    obtain ⟨marks, hmarks, rfl⟩ := List.mem_map.mp hline
    have hnone : dataPayload (trimEnd (plain marks)) = none := by
      by_contra hsome
      obtain ⟨data, hdata⟩ := Option.ne_none_iff_exists'.mp hsome
      obtain ⟨rest, hrest⟩ := (starts_of_dataPayload hdata).trans (List.rdropWhile_prefix _ _)
      exact absurd (hquoted marks (List.mem_append_left _ hmarks) [] _ hrest.symm) List.not_mem_nil
    have hwhole : (dataPayload (trimEnd (plain marks))).isSome → Whole marks := by
      rw [hnone]
      exact fun hsome => by cases hsome
    rw [readLine_spoil (hparts marks hmarks) hwhole, readLine_eq, hnone]
  · have hleft := markedPayload_of_quoted (hquoted last (by simp))
    rw [readBuffer_eq hnewline, readLeft_spoil hlast, hleft]
    rfl

end

/-- **Documents alone are not read.** A provider that answers with JSON documents and no events,
one on each line or laid out in any other way, gives no tokens and no error, however its answer
arrives. -/
theorem streamTokens_of_documents (protocol : CloudProtocol) (reader : JsonReader)
    {docs : List (Space × Tree)} (hdocs : ∀ doc ∈ docs, doc.2.Strict) {last : Space}
    {chunks : List (List UInt8)} (hchunks : chunks.flatten = encode (docsText docs last)) :
    protocol.streamTokens reader (chunks.map .ok) = [] := by
  have hquoted := quoted_docsText (by decide : 'd' ∉ bareChars) hdocs last
  rw [CloudProtocol.streamTokens_eq, handed_of_quoted hchunks hquoted, error_readStream]
  rfl

/-- A document as Cohere streams them. -/
def cohereDoc (text : String) (h : Plain text.toList) : Tree :=
  .obj .none (.cons .none (plainLetters "event_type".toList (by decide)) .none .none
    (.str (plainLetters "text-generation".toList (by decide))) .none
    (.cons .none (plainLetters "text".toList (by decide)) .none .none
      (.str (plainLetters text.toList h)) .none .nil))

/-- Two of them, each on a line. -/
def cohereDocs : List (Space × Tree) :=
  [(.none, cohereDoc "Hel" (by decide)),
    (⟨['\n'], List.forall_mem_singleton.mpr rfl⟩, cohereDoc "lo" (by decide))]

theorem strict_cohereDocs : ∀ doc ∈ cohereDocs, doc.2.Strict := by
  have hstrict (text : String) (h : Plain text.toList) (hletters : Printed text.toList) :
      (cohereDoc text h).Strict := by
    refine ⟨rfl, rfl, rfl, ?_, trivial⟩
    change (unescape (plainLetters text.toList h)).isSome
    rw [unescape_plainLetters, if_pos hletters]
    rfl
  exact List.forall_mem_cons.mpr ⟨hstrict "Hel" (by decide) (by decide),
    List.forall_mem_singleton.mpr (hstrict "lo" (by decide) (by decide))⟩

theorem streamTokens_of_documents_cohere :
    CloudProtocol.streamTokens .cohere plainReader
      ([encode (docsText cohereDocs ⟨['\n'], List.forall_mem_singleton.mpr rfl⟩)].map .ok) = [] :=
  streamTokens_of_documents .cohere plainReader strict_cohereDocs (List.append_nil _)

/-! ## Streams that break off -/

/-- What has been read of some chunks does not depend on what follows. -/
theorem readStream_append (sentinel : Option (List Char)) (buffer : List Char)
    (chunks : List (List UInt8)) :
    (∃ handed, ∀ later, readStream sentinel buffer (chunks.map .ok ++ later) = ⟨handed, none⟩) ∨
      ∃ handed rest, ∀ later, readStream sentinel buffer (chunks.map .ok ++ later) =
        ⟨handed ++ (readStream sentinel rest later).handed,
          (readStream sentinel rest later).error⟩ := by
  induction chunks generalizing buffer with
  | nil => exact Or.inr ⟨[], buffer, fun later => rfl⟩
  | cons chunk chunks ih =>
      have hstep (later : List (Except String (List UInt8))) :
          readStream sentinel buffer ((chunk :: chunks).map .ok ++ later) =
            readStream sentinel buffer (.ok chunk :: (chunks.map .ok ++ later)) := rfl
      simp only [hstep, readStream]
      cases drain sentinel ((buffer ++ lossy chunk).count '\n') (buffer ++ lossy chunk) with
      | mk handed rest =>
          cases rest with
          | none => exact Or.inl ⟨handed, fun later => rfl⟩
          | some rest =>
              dsimp only
              rcases ih rest with ⟨more, hmore⟩ | ⟨more, left, hmore⟩
              · refine Or.inl ⟨handed ++ more, fun later => ?_⟩
                rw [hmore]
              · refine Or.inr ⟨handed ++ more, left, fun later => ?_⟩
                rw [hmore, List.append_assoc]

/-- **A stream that breaks off gives the first tokens of the whole one**, and then the error, unless
the stream was over already. -/
theorem streamTokens_of_break (protocol : CloudProtocol) (reader : JsonReader)
    (chunks more : List (List UInt8)) (e : String) (rest : List (Except String (List UInt8))) :
    ∃ tokens later : List Token,
      protocol.streamTokens reader ((chunks ++ more).map .ok) = (tokens ++ later).map .ok ∧
      (protocol.streamTokens reader (chunks.map .ok ++ .error e :: rest) =
          tokens.map .ok ++ [.error (.generationError s!"Stream read error: {e}")] ∨
        later = [] ∧
          protocol.streamTokens reader (chunks.map .ok ++ .error e :: rest) = tokens.map .ok) := by
  rw [List.map_append]
  simp only [CloudProtocol.streamTokens_eq]
  rcases readStream_append protocol.doneSentinel [] chunks with ⟨handed, hover⟩ |
    ⟨handed, buffer, hgoes⟩
  · refine ⟨handed.filterMap (protocol.readToken reader), [], ?_, Or.inr ⟨rfl, ?_⟩⟩
    · simp [hover]
    · simp [hover]
  · refine ⟨handed.filterMap (protocol.readToken reader),
      (readStream protocol.doneSentinel buffer (more.map .ok)).handed.filterMap
        (protocol.readToken reader), ?_, Or.inl ?_⟩
    · rw [hgoes, error_readStream, List.filterMap_append]
      exact List.append_nil _
    · rw [hgoes, readStream, List.append_nil]
      rfl

end HiveBear.Inference.Cloud
