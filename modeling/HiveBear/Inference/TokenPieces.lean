/-
# Characters that are split over tokens

A token of llama.cpp stands for bytes, and a character can be split over several tokens.
`token_to_piece` reads the bytes of a token with the decoder it is given, and such a decoder keeps
the bytes of a character that is not complete yet. But `token_to_string` makes a new decoder for
every token. What the old one has kept is lost, the bytes that follow begin no character, and a
byte order mark is dropped in front of every token, not only in front of the text.

How the decoder reads is a parameter: all that is used is what a new one makes of the bytes of one
token.
-/

import HiveBear.Inference.StopSequences
import HiveBear.Library.Utf8

namespace HiveBear.Inference

/-! ## Decoders -/

/-- A decoder: what it gives for bytes, and what it keeps of them. -/
structure PieceDecoder where
  State : Type
  newDecoder : State
  decode : State → List UInt8 → String × State

namespace PieceDecoder

variable (decoder : PieceDecoder) (tokenBytes : ℤ → Except String (List UInt8))

/-- What is relied on: a new decoder looks for a byte order mark, and reads UTF-8 behind it. It gives
nothing for a character that is not complete yet. -/
def ReadsUtf8 : Prop :=
  ∀ bytes : List UInt8, (∀ byte ∈ bytes, byte.toNat < 0xFE) →
    (decoder.decode decoder.newDecoder bytes).1.toList = Utf8.streamed (Utf8.unmarked bytes)

/-- The text of a token, read by the decoder that is given. -/
def tokenToPiece (state : decoder.State) (token : ℤ) : Except String (String × decoder.State) :=
  match tokenBytes token with
  | .error e => .error e
  | .ok bytes => .ok (decoder.decode state bytes)

/-- `token_to_string` makes a new decoder for each token. -/
def tokenToString (token : ℤ) : Except String String :=
  match decoder.tokenToPiece tokenBytes decoder.newDecoder token with
  | .error e => .error e
  | .ok (piece, _) => .ok piece

end PieceDecoder

namespace LlamaRun

variable (run : LlamaRun) (decoder : PieceDecoder) (tokenBytes : ℤ → Except String (List UInt8))
  (req : GenerateRequest)

/-- A run whose tokens are read by `token_to_string`. -/
def withDecoder : LlamaRun := { run with tokenToPiece := decoder.tokenToString tokenBytes }

/-- The bytes of the tokens that are sampled before generation ends. -/
def sampledBytes (promptLength : ℕ) : List (List UInt8) :=
  let decoding := (run.withDecoder decoder tokenBytes).decoding promptLength
  (List.range (decoding.generated req.stopSequences 0 req.maxTokens)).map fun i =>
    match tokenBytes (run.sampled i) with
    | .error _ => []
    | .ok bytes => bytes

end LlamaRun

/-- The text comes out as it is, at once and as a stream. -/
def ComesOutWhole (text : String) (generated : Except String String)
    (streamed : List Mesh.Token × Except String Unit) : Prop :=
  (∀ output, generated = .ok output → output = text) ∧ joined streamed.1 = text

/-! ## The loops without a stop sequence -/

namespace Decoding

variable {T : Type*} {d : Decoding T} {stopSequences : List String}

/-- From any step on, the stream adds the pieces that are generated. -/
theorem joined_streamLoop (i left : ℕ)
    (hquiet : ∀ k stop, ¬ d.StopsIn stopSequences i left k stop) :
    d.produced i ++ joined (d.streamLoop stopSequences i (d.produced i) left).1 =
      d.produced (d.generated stopSequences i left) := by
  induction left generalizing i with
  | zero => exact String.append_empty
  | succ left ih =>
      rw [streamLoop, generated]
      cases hends : d.ends i (d.token i) with
      | true => exact String.append_empty
      | false =>
          have hproduced : d.produced i ++ d.piece (d.token i) = d.produced (i + 1) := rfl
          simp only [hproduced, any_endsWith, Bool.false_eq_true, if_false]
          cases hfound : firstStop stopSequences (d.produced (i + 1)) with
          | some found => exact absurd (.now hends hfound) (hquiet i found)
          | none =>
              cases hadvance : d.advance i with
              | error e =>
                  simp only [Option.isSome_none, Bool.false_eq_true, if_false, joined]
                  rw [String.append_empty, hproduced]
              | ok done =>
                  have hlater := ih (i + 1) fun k stop h =>
                    hquiet k stop (.later hends hfound hadvance h)
                  simp only [Option.isSome_none, Bool.false_eq_true, if_false, joined]
                  rw [← String.append_assoc, hproduced, hlater]

/-- Both loops give the pieces that are generated. -/
theorem whole_loops_iff (left : ℕ) (hquiet : ∀ k stop, ¬ d.StopsIn stopSequences 0 left k stop)
    (text : String) :
    ComesOutWhole text (d.generateLoop stopSequences 0 "" left) (d.streamLoop stopSequences 0 "" left) ↔
      d.produced (d.generated stopSequences 0 left) = text := by
  have hagree := (agree_iff left).mpr fun k stop h => absurd h (hquiet k stop)
  have hstream := joined_streamLoop 0 left hquiet
  rw [produced, String.empty_append] at hstream
  rw [ComesOutWhole, hstream]
  constructor
  · exact fun h => h.2
  · intro hsame
    refine ⟨?_, hsame⟩
    intro output houtput
    rw [← hagree output houtput, hstream, hsame]

/-- What is produced is the text of the pieces. -/
theorem toList_produced (n : ℕ) :
    (d.produced n).toList = (List.range n).flatMap fun i => (d.piece (d.token i)).toList := by
  induction n with
  | zero => rfl
  | succ n ih =>
      rw [produced, String.toList_append, ih, List.range_succ, List.flatMap_append,
        List.flatMap_singleton]

end Decoding

/-! ## The text of the tokens -/

/-- What is produced is what a new decoder reads for each token. -/
theorem toList_produced_withDecoder {run : LlamaRun} {decoder : PieceDecoder}
    {tokenBytes : ℤ → Except String (List UInt8)} {req : GenerateRequest} {promptLength : ℕ}
    (hdecoder : decoder.ReadsUtf8)
    (hbytes : ∀ piece ∈ run.sampledBytes decoder tokenBytes req promptLength,
      ∀ byte ∈ piece, byte.toNat < 0xFE) :
    (((run.withDecoder decoder tokenBytes).decoding promptLength).produced
        (((run.withDecoder decoder tokenBytes).decoding promptLength).generated req.stopSequences 0
          req.maxTokens)).toList =
      (run.sampledBytes decoder tokenBytes req promptLength).flatMap fun piece =>
        Utf8.streamed (Utf8.unmarked piece) := by
  rw [Decoding.toList_produced, LlamaRun.sampledBytes, List.flatMap_map]
  refine List.flatMap_congr fun i hi => ?_
  have hpiece := hbytes _ (List.mem_map_of_mem hi)
  simp only [LlamaRun.decoding, LlamaRun.withDecoder, PieceDecoder.tokenToString,
    PieceDecoder.tokenToPiece]
  cases htoken : tokenBytes (run.sampled i) with
  | error e => rfl
  | ok bytes =>
      rw [htoken] at hpiece
      exact hdecoder bytes hpiece

/-- **A text comes out whole just if no token begins with a byte order mark and no character is
split over tokens**, but for a replacement character with only its last byte apart. -/
theorem text_whole_iff {run : LlamaRun} {decoder : PieceDecoder}
    {tokenBytes : ℤ → Except String (List UInt8)} {req : GenerateRequest} {promptLength : ℕ}
    {text : String} (hdecoder : decoder.ReadsUtf8) (hprompt : run.prompt = .ok promptLength)
    (hquiet : ∀ k stop, ¬ ((run.withDecoder decoder tokenBytes).decoding promptLength).StopsIn
      req.stopSequences 0 req.maxTokens k stop)
    (htext : (run.sampledBytes decoder tokenBytes req promptLength).flatten =
      Utf8.encode text.toList) :
    ComesOutWhole text ((run.withDecoder decoder tokenBytes).generateBlocking req)
        ((run.withDecoder decoder tokenBytes).streamBlocking req) ↔
      (∀ piece ∈ run.sampledBytes decoder tokenBytes req promptLength,
        ¬ String.utf8EncodeChar Utf8.byteOrderMark <+: piece) ∧
      ∀ x ∈ Utf8.mark (run.sampledBytes decoder tokenBytes req promptLength) text.toList,
        Utf8.Unharmed x := by
  have hprompt' : (run.withDecoder decoder tokenBytes).prompt = .ok promptLength := hprompt
  have hbytes : ∀ piece ∈ run.sampledBytes decoder tokenBytes req promptLength,
      ∀ byte ∈ piece, byte.toNat < 0xFE := by
    intro piece hpiece byte hbyte
    refine @Utf8.lt_of_mem_encode text.toList byte ?_
    rw [← htext]
    exact List.mem_flatten_of_mem hpiece hbyte
  rw [LlamaRun.generateBlocking, LlamaRun.streamBlocking, hprompt']
  refine (Decoding.whole_loops_iff req.maxTokens hquiet text).trans ?_
  rw [← String.toList_inj, toList_produced_withDecoder hdecoder hbytes,
    Utf8.flatMap_streamed_unmarked_iff htext]

/-- A decoder that keeps the bytes it was given, and gives what the next ones add. -/
def utf8Decoder : PieceDecoder where
  State := List UInt8
  newDecoder := []
  decode before bytes :=
    let read := Utf8.streamed (Utf8.unmarked (before ++ bytes))
    (String.ofList (read.drop (Utf8.streamed (Utf8.unmarked before)).length), before ++ bytes)

theorem utf8Decoder_readsUtf8 : utf8Decoder.ReadsUtf8 :=
  fun _ _ => String.toList_ofList

/-- Two tokens, and then the end of the text. -/
def twoTokens : LlamaRun where
  promptTokens := .ok [7]
  contextLength := 4096
  prepared := .ok ()
  sampled i := i
  tokenToPiece _ := .ok ""
  eos := 2
  isEogToken _ := false
  decode _ := .ok ()

theorem not_stopsIn_nil {T : Type*} {d : Decoding T} {i left k : ℕ} {stop : String} :
    ¬ d.StopsIn [] i left k stop := by
  intro h
  induction h with
  | now _ hit => cases hit
  | later _ _ _ _ ih => exact ih

theorem text_whole_letters :
    ComesOutWhole "né"
      ((twoTokens.withDecoder utf8Decoder
        fun token => .ok (if token = 0 then [0x6E] else [0xC3, 0xA9])).generateBlocking ⟨8, []⟩)
      ((twoTokens.withDecoder utf8Decoder
        fun token => .ok (if token = 0 then [0x6E] else [0xC3, 0xA9])).streamBlocking ⟨8, []⟩) :=
  (text_whole_iff utf8Decoder_readsUtf8 rfl (fun _ _ => not_stopsIn_nil) rfl).mpr
    ⟨by decide, by decide⟩

/-- A character of two tokens is lost. -/
theorem split_character_is_lost :
    ¬ ∀ (run : LlamaRun) (decoder : PieceDecoder) (tokenBytes : ℤ → Except String (List UInt8))
      (req : GenerateRequest) (promptLength : ℕ) (text : String), decoder.ReadsUtf8 →
      run.prompt = .ok promptLength →
      (∀ k stop, ¬ ((run.withDecoder decoder tokenBytes).decoding promptLength).StopsIn
        req.stopSequences 0 req.maxTokens k stop) →
      (run.sampledBytes decoder tokenBytes req promptLength).flatten = Utf8.encode text.toList →
      ComesOutWhole text ((run.withDecoder decoder tokenBytes).generateBlocking req)
        ((run.withDecoder decoder tokenBytes).streamBlocking req) := by
  intro hall
  have hwhole := hall twoTokens utf8Decoder (fun token => .ok (if token = 0 then [0xC3] else [0xA9]))
    ⟨8, []⟩ 1 "é" utf8Decoder_readsUtf8 rfl (fun _ _ => not_stopsIn_nil) rfl
  exact absurd hwhole.2 (by decide)

end HiveBear.Inference
