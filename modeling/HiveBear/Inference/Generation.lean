/-
# Generating text, at once and as a stream

Both engines generate text in two ways. `generate_blocking` returns it when it is complete;
`stream_blocking` sends each token as soon as it is there. Both loops sample the same tokens,
stop at the same step, and differ in what they do with a stop sequence: the first removes it
from the end of its text, the second holds back the token that completes it. So they agree
exactly if the stop sequence that is found is the text of that token.

What the engines get from their model is a parameter: the sampled tokens, their texts, and
whether the forward passes succeed. The receiver of a stream stays until its end.
-/

import HiveBear.Mesh.Transport.Protocol

namespace HiveBear.Inference

/-- What the loops read of a request. -/
structure GenerateRequest where
  maxTokens : ℕ
  stopSequences : List String

/-! ## The loops -/

/-- A text ends with another one. -/
def endsWith (text stop : String) : Bool := decide (stop.toList <:+ text.toList)

/-- The first listed stop sequence that the text ends with. -/
def firstStop (stopSequences : List String) (text : String) : Option String :=
  stopSequences.find? (endsWith text)

/-- Cut a stop sequence off the end. -/
def truncateStop (text stop : String) : String :=
  String.ofList (text.toList.take (text.length - stop.length))

/-- What a loop is given: the token sampled for each step, whether generation ends before its
text is added, its text and number, and whether the model can go on behind it. -/
structure Decoding (T : Type*) where
  token : ℕ → T
  ends : ℕ → T → Bool
  piece : T → String
  id : T → ℕ
  advance : ℕ → Except String Unit

namespace Decoding

variable {T : Type*} (d : Decoding T) (stopSequences : List String)

/-- The loop of `generate_blocking` from a step on, with a number of steps left. -/
def generateLoop (i : ℕ) (output : String) : ℕ → Except String String
  | 0 => .ok output
  | left + 1 =>
      if d.ends i (d.token i) then .ok output
      else
        let output := output ++ d.piece (d.token i)
        match firstStop stopSequences output with
        | some stop => .ok (truncateStop output stop)
        | none =>
            match d.advance i with
            | .error e => .error e
            | .ok _ => generateLoop (i + 1) output left

/-- The loop of `stream_blocking`: the tokens that are sent, and how it ends. -/
def streamLoop (i : ℕ) (accumulated : String) : ℕ → List Mesh.Token × Except String Unit
  | 0 => ([], .ok ())
  | left + 1 =>
      if d.ends i (d.token i) then ([], .ok ())
      else
        let piece := d.piece (d.token i)
        let accumulated := accumulated ++ piece
        if stopSequences.any (endsWith accumulated) then ([], .ok ())
        else
          let tok : Mesh.Token := ⟨piece, d.id (d.token i), none, false⟩
          match d.advance i with
          | .error e => ([tok], .error e)
          | .ok _ =>
              let later := streamLoop (i + 1) accumulated left
              (tok :: later.1, later.2)

/-- The text of the first tokens. -/
def produced : ℕ → String
  | 0 => ""
  | i + 1 => produced i ++ d.piece (d.token i)

/-- In the steps left from step `i` on, generation stops in step `k`, where `stop` is the
first listed stop sequence that the text ends with. -/
inductive StopsIn : ℕ → ℕ → ℕ → String → Prop
  | now {i left : ℕ} {stop : String} (goes : d.ends i (d.token i) = false)
      (hit : firstStop stopSequences (d.produced (i + 1)) = some stop) :
      StopsIn i (left + 1) i stop
  | later {i left k : ℕ} {stop : String} (goes : d.ends i (d.token i) = false)
      (quiet : firstStop stopSequences (d.produced (i + 1)) = none)
      (advances : d.advance i = .ok ()) (rest : StopsIn (i + 1) left k stop) :
      StopsIn i (left + 1) k stop

end Decoding

/-- The texts of tokens, joined. -/
def joined : List Mesh.Token → String
  | [] => ""
  | token :: tokens => token.text ++ joined tokens

/-- The stream delivers the text that is returned. -/
def Agree (generated : Except String String) (streamed : List Mesh.Token × Except String Unit) :
    Prop :=
  ∀ output, generated = .ok output → joined streamed.1 = output

/-! ## The engines -/

/-- What Candle gets from a model and its tokenizer for a request. -/
structure CandleRun where
  /-- Tokenizing the prompt, the forward pass on it, and sampling the first token. -/
  prepared : Except String Unit
  sampled : ℕ → ℕ
  decode : ℕ → Except String String
  eosTokens : List ℕ
  /-- The forward pass behind a step, and sampling the next token. -/
  forward : ℕ → Except String Unit

namespace CandleRun

variable (run : CandleRun) (req : GenerateRequest)

/-- A token that cannot be decoded adds nothing. -/
def decoding : Decoding ℕ where
  token := run.sampled
  ends _ token := run.eosTokens.contains token
  piece token :=
    match run.decode token with
    | .ok text => text
    | .error _ => ""
  id := id
  advance := run.forward

/-- Candle's `generate_blocking`. -/
def generateBlocking : Except String String :=
  match run.prepared with
  | .error e => .error e
  | .ok _ => run.decoding.generateLoop req.stopSequences 0 "" req.maxTokens

/-- Candle's `stream_blocking`. -/
def streamBlocking : List Mesh.Token × Except String Unit :=
  match run.prepared with
  | .error e => ([], .error e)
  | .ok _ => run.decoding.streamLoop req.stopSequences 0 "" req.maxTokens

end CandleRun

/-- A machine integer of 32 bits, read as signed. -/
def asI32 (n : ℕ) : ℤ := (n : ℤ).bmod 4294967296

/-- What llama.cpp gets from a model for a request. -/
structure LlamaRun where
  promptTokens : Except String (List ℤ)
  contextLength : ℕ
  /-- Making a context and decoding the prompt. -/
  prepared : Except String Unit
  sampled : ℕ → ℤ
  tokenToPiece : ℤ → Except String String
  eos : ℤ
  isEogToken : ℤ → Bool
  /-- Decoding the token of a step. -/
  decode : ℕ → Except String Unit

namespace LlamaRun

variable (run : LlamaRun) (req : GenerateRequest)

/-- The checks and steps before the loop; the length of the prompt. -/
def prompt : Except String ℕ :=
  match run.promptTokens with
  | .error e => .error e
  | .ok tokens =>
      if tokens.isEmpty then .error "Prompt tokenization produced empty tokens"
      else if run.contextLength < tokens.length then
        .error s!"Prompt length ({tokens.length} tokens) exceeds context length ({run.contextLength} tokens)"
      else
        match run.prepared with
        | .error e => .error e
        | .ok _ => .ok tokens.length

/-- Generation also ends where the context is full. -/
def decoding (promptLength : ℕ) : Decoding ℤ where
  token := run.sampled
  ends i token :=
    decide (asI32 run.contextLength ≤ asI32 promptLength + i) || decide (token = run.eos) ||
      run.isEogToken token
  piece token :=
    match run.tokenToPiece token with
    | .ok text => text
    | .error _ => ""
  id token := (token % 4294967296).toNat
  advance := run.decode

/-- llama.cpp's `generate_blocking`. -/
def generateBlocking : Except String String :=
  match run.prompt with
  | .error e => .error e
  | .ok promptLength =>
      (run.decoding promptLength).generateLoop req.stopSequences 0 "" req.maxTokens

/-- llama.cpp's `stream_blocking`. -/
def streamBlocking : List Mesh.Token × Except String Unit :=
  match run.prompt with
  | .error e => ([], .error e)
  | .ok promptLength =>
      (run.decoding promptLength).streamLoop req.stopSequences 0 "" req.maxTokens

end LlamaRun

/-! ## Agreement -/

/-- Cutting a stop sequence off leaves what was there before a piece if it is the piece. -/
theorem truncateStop_append_eq_iff {text piece stop : String}
    (h : endsWith (text ++ piece) stop = true) :
    truncateStop (text ++ piece) stop = text ↔ stop = piece := by
  obtain ⟨start, hstart⟩ := of_decide_eq_true h
  have hlength : (text ++ piece).length = start.length + stop.length := by
    rw [← String.length_toList, ← hstart, List.length_append, String.length_toList]
  have htaken : (text ++ piece).toList.take ((text ++ piece).length - stop.length) = start := by
    rw [hlength, Nat.add_sub_cancel, ← hstart, List.take_left']
    rfl
  rw [truncateStop, htaken]
  rw [String.toList_append] at hstart
  constructor
  · intro hsame
    have hstart' : start = text.toList := by rw [← hsame, String.toList_ofList]
    rw [hstart'] at hstart
    exact String.toList_inj.mp (List.append_cancel_left hstart)
  · rintro rfl
    rw [List.append_cancel_right hstart, String.ofList_toList]

/-- What is found is a stop sequence that the text ends with. -/
theorem endsWith_of_firstStop {stopSequences : List String} {text stop : String}
    (h : firstStop stopSequences text = some stop) : endsWith text stop = true :=
  List.find?_some h

/-- Both loops look for a stop sequence at the same steps. -/
theorem any_endsWith (stopSequences : List String) (text : String) :
    stopSequences.any (endsWith text) = (firstStop stopSequences text).isSome :=
  List.isSome_find?.symm

namespace Decoding

variable {T : Type*} {d : Decoding T} {stopSequences : List String} {i left k : ℕ} {stop : String}

theorem stopsIn_zero : ¬ d.StopsIn stopSequences i 0 k stop := by
  intro h
  cases h

theorem stopsIn_of_ends (h : d.ends i (d.token i) = true) :
    ¬ d.StopsIn stopSequences i (left + 1) k stop := by
  rintro (⟨goes, -⟩ | ⟨goes, -, -, -⟩)
  · rw [h] at goes
    cases goes
  · rw [h] at goes
    cases goes

theorem stopsIn_of_hit {found : String} (goes : d.ends i (d.token i) = false)
    (hit : firstStop stopSequences (d.produced (i + 1)) = some found) :
    d.StopsIn stopSequences i (left + 1) k stop ↔ k = i ∧ stop = found := by
  constructor
  · rintro (⟨-, hit'⟩ | ⟨-, quiet, -, -⟩)
    · rw [hit] at hit'
      exact ⟨rfl, (Option.some.inj hit').symm⟩
    · rw [hit] at quiet
      cases quiet
  · rintro ⟨rfl, rfl⟩
    exact .now goes hit

theorem stopsIn_of_quiet (goes : d.ends i (d.token i) = false)
    (quiet : firstStop stopSequences (d.produced (i + 1)) = none) :
    d.StopsIn stopSequences i (left + 1) k stop ↔
      d.advance i = .ok () ∧ d.StopsIn stopSequences (i + 1) left k stop := by
  constructor
  · rintro (⟨-, hit⟩ | ⟨-, -, advances, rest⟩)
    · rw [quiet] at hit
      cases hit
    · exact ⟨advances, rest⟩
  · rintro ⟨advances, rest⟩
    exact .later goes quiet advances rest

/-- From any step on, with the text that both loops have by then, the stream adds the text
that is returned exactly if the stop sequence that is found is the text of its step. -/
theorem loops_agree_iff (i left : ℕ) :
    (∀ output, d.generateLoop stopSequences i (d.produced i) left = .ok output →
        d.produced i ++ joined (d.streamLoop stopSequences i (d.produced i) left).1 = output) ↔
      ∀ k stop, d.StopsIn stopSequences i left k stop → stop = d.piece (d.token k) := by
  induction left generalizing i with
  | zero =>
      refine iff_of_true ?_ fun k stop h => absurd h stopsIn_zero
      intro output houtput
      exact (String.append_empty).trans (Except.ok.inj houtput)
  | succ left ih =>
      cases hends : d.ends i (d.token i) with
      | true =>
          refine iff_of_true ?_ fun k stop h => absurd h (stopsIn_of_ends hends)
          intro output houtput
          rw [generateLoop, if_pos hends] at houtput
          rw [streamLoop, if_pos hends]
          exact (String.append_empty).trans (Except.ok.inj houtput)
      | false =>
          have hgoes : ¬ d.ends i (d.token i) = true := by rw [hends]; exact Bool.false_ne_true
          rw [generateLoop, streamLoop, if_neg hgoes, if_neg hgoes]
          have hproduced : d.produced i ++ d.piece (d.token i) = d.produced (i + 1) := rfl
          simp only [hproduced, any_endsWith]
          cases hfound : firstStop stopSequences (d.produced (i + 1)) with
          | some found =>
              have hcut : truncateStop (d.produced (i + 1)) found = d.produced i ↔
                  found = d.piece (d.token i) :=
                truncateStop_append_eq_iff (endsWith_of_firstStop hfound)
              simp only [stopsIn_of_hit hends hfound, Option.isSome_some, if_true, joined,
                String.append_empty, Except.ok.injEq, forall_eq', and_imp]
              rw [eq_comm, hcut]
              constructor
              · rintro hpiece k stop rfl rfl
                exact hpiece
              · intro hall
                exact hall i found rfl rfl
          | none =>
              simp only [stopsIn_of_quiet hends hfound, Option.isSome_none, Bool.false_eq_true,
                if_false]
              cases hadvance : d.advance i with
              | error e => simp
              | ok done =>
                  have hlater := ih (i + 1)
                  simp only [joined, true_and]
                  rw [← hlater]
                  simp only [← String.append_assoc, hproduced]

/-- The whole loops. -/
theorem agree_iff (left : ℕ) :
    Agree (d.generateLoop stopSequences 0 "" left) (d.streamLoop stopSequences 0 "" left) ↔
      ∀ k stop, d.StopsIn stopSequences 0 left k stop → stop = d.piece (d.token k) := by
  have hloops := @loops_agree_iff T d stopSequences 0 left
  simpa only [Agree, produced, String.empty_append] using hloops

end Decoding

/-- **Streaming and returning agree if and only if the stop sequence that is found is the text
of the last token**, in both engines. -/
theorem stream_agrees_iff (candle : CandleRun) (llama : LlamaRun) (req : GenerateRequest) :
    (Agree (candle.generateBlocking req) (candle.streamBlocking req) ↔
      (candle.prepared = .ok () → ∀ k stop,
        candle.decoding.StopsIn req.stopSequences 0 req.maxTokens k stop →
          stop = candle.decoding.piece (candle.sampled k))) ∧
    (Agree (llama.generateBlocking req) (llama.streamBlocking req) ↔
      ∀ promptLength, llama.prompt = .ok promptLength → ∀ k stop,
        (llama.decoding promptLength).StopsIn req.stopSequences 0 req.maxTokens k stop →
          stop = (llama.decoding promptLength).piece (llama.sampled k)) := by
  constructor
  · rw [CandleRun.generateBlocking, CandleRun.streamBlocking]
    cases candle.prepared with
    | error e => exact iff_of_true nofun nofun
    | ok done =>
        rw [Decoding.agree_iff]
        exact ⟨fun h _ => h, fun h => h rfl⟩
  · rw [LlamaRun.generateBlocking, LlamaRun.streamBlocking]
    cases llama.prompt with
    | error e => exact iff_of_true nofun nofun
    | ok promptLength =>
        simp only [Decoding.agree_iff, Except.ok.injEq, forall_eq']
        rfl

/-- The tokens "a" and "b" in turn. -/
def lettersCandle : CandleRun where
  prepared := .ok ()
  sampled i := i
  decode token := .ok (if token = 0 then "a" else "b")
  eosTokens := []
  forward _ := .ok ()

/-- The same tokens from llama.cpp. -/
def lettersLlama : LlamaRun where
  promptTokens := .ok [7]
  contextLength := 4096
  prepared := .ok ()
  sampled i := i
  tokenToPiece token := .ok (if token = 0 then "a" else "b")
  eos := 2
  isEogToken _ := false
  decode _ := .ok ()

/-- With the stop sequence "ab", nothing is returned, but "a" has been sent. -/
theorem stop_of_two_tokens_disagrees :
    ¬ Agree (lettersCandle.generateBlocking ⟨8, ["ab"]⟩)
        (lettersCandle.streamBlocking ⟨8, ["ab"]⟩) ∧
      ¬ Agree (lettersLlama.generateBlocking ⟨8, ["ab"]⟩)
        (lettersLlama.streamBlocking ⟨8, ["ab"]⟩) := by
  constructor
  · intro h
    exact absurd (h "" rfl) (by decide)
  · intro h
    exact absurd (h "" rfl) (by decide)

end HiveBear.Inference
