/-
# Stop sequences

The loops that return their text look for a stop sequence after each piece, and only at the end of
the text: the first listed one that the text ends with is cut off. A stop sequence that ends in the
middle of a piece is passed over, and of several that end together the first listed one is cut off,
not the longest.

The text that is returned should be the pieces up to the earliest place at which any stop sequence
begins. It is just if the one that is found begins there, and none occurs if none is found.
-/

import HiveBear.Inference.Generation
import HiveBear.Library.Occurrences

namespace HiveBear.Inference

/-! ## What is claimed -/

/-- A text up to the earliest place at which one of these sequences begins, or the whole text if
none occurs. -/
def UpToEarliest (stopSequences : List String) (text output : String) : Prop :=
  (∃ stop ∈ stopSequences, ∃ after, text.toList = output.toList ++ stop.toList ++ after ∧
    ∀ other ∈ stopSequences, ∀ before rest, text.toList = before ++ other.toList ++ rest →
      output.toList.length ≤ before.length) ∨
  output = text ∧ ∀ stop ∈ stopSequences, ¬ stop.Occurs text

namespace Decoding

variable {T : Type*} (d : Decoding T) (stopSequences : List String)

/-- How many pieces there are when generation ends that goes on at this step. -/
def generated (i : ℕ) : ℕ → ℕ
  | 0 => i
  | left + 1 =>
      if d.ends i (d.token i) then i
      else
        match firstStop stopSequences (d.produced (i + 1)) with
        | some _ => i + 1
        | none =>
            match d.advance i with
            | .error _ => i + 1
            | .ok _ => generated (i + 1) left

/-- In the steps left from step `i` on, generation ends with `n` pieces and without a stop
sequence. -/
inductive Finishes : ℕ → ℕ → ℕ → Prop
  | outOfSteps {i : ℕ} : Finishes i 0 i
  | now {i left : ℕ} (ends : d.ends i (d.token i) = true) : Finishes i (left + 1) i
  | later {i left n : ℕ} (goes : d.ends i (d.token i) = false)
      (quiet : firstStop stopSequences (d.produced (i + 1)) = none)
      (advances : d.advance i = .ok ()) (rest : Finishes (i + 1) left n) : Finishes i (left + 1) n

/-- **The condition.** The stop sequence that is found begins no later than any other, and no stop
sequence occurs where none is found. -/
structure Tidy (left : ℕ) : Prop where
  stopped : ∀ k stop, d.StopsIn stopSequences 0 left k stop → ∀ other ∈ stopSequences,
    ∀ before rest, (d.produced (k + 1)).toList = before ++ other.toList ++ rest →
      (d.produced (k + 1)).toList.length ≤ before.length + stop.toList.length
  finished : ∀ n, d.Finishes stopSequences 0 left n → ∀ stop ∈ stopSequences,
    ¬ stop.Occurs (d.produced n)

end Decoding

/-- **Stop sequences are honoured**: no stop sequence occurs in the text that is returned, and it is
the text of the pieces up to the earliest one. -/
def Honoured (stopSequences : List String) (text : String) (returned : Except String String) : Prop :=
  ∀ output, returned = .ok output →
    (∀ stop ∈ stopSequences, ¬ stop.Occurs output) ∧ UpToEarliest stopSequences text output

/-! ## A text up to its earliest stop sequence -/

/-- In front of the earliest stop sequence none occurs. -/
theorem not_occurs_of_upToEarliest {stopSequences : List String} {text output : String}
    (hne : ∀ stop ∈ stopSequences, stop ≠ "") (h : UpToEarliest stopSequences text output) :
    ∀ stop ∈ stopSequences, ¬ stop.Occurs output := by
  rcases h with ⟨found, -, after, htext, hearliest⟩ | ⟨rfl, hnone⟩
  · rintro stop hstop ⟨before, rest, houtput⟩
    have hlength := hearliest stop hstop before (rest ++ found.toList ++ after) (by
      rw [htext, ← houtput]
      simp only [List.append_assoc])
    rw [← houtput, List.length_append, List.length_append] at hlength
    have hempty : stop.toList = [] := List.length_eq_zero_iff.mp (by omega)
    exact hne stop hstop (String.toList_eq_nil_iff.mp hempty)
  · exact hnone

theorem honoured_iff {stopSequences : List String} {text : String} {returned : Except String String}
    (hne : ∀ stop ∈ stopSequences, stop ≠ "") :
    Honoured stopSequences text returned ↔
      ∀ output, returned = .ok output → UpToEarliest stopSequences text output :=
  forall₂_congr fun _ _ =>
    ⟨fun h => h.2, fun h => ⟨not_occurs_of_upToEarliest hne h, h⟩⟩

/-- What is left when a stop sequence is cut off the end. -/
theorem toList_truncateStop {text stop : String} {start : List Char}
    (h : start ++ stop.toList = text.toList) : (truncateStop text stop).toList = start := by
  have hlength : text.length = start.length + stop.length := by
    rw [← String.length_toList, ← h, List.length_append, String.length_toList]
  rw [truncateStop, String.toList_ofList, hlength, Nat.add_sub_cancel, ← h, List.take_left]

/-- Cutting a stop sequence off the end of a text is right just if none begins earlier. -/
theorem upToEarliest_truncate_iff {stopSequences : List String} {text stop : String}
    (hne : ∀ stop ∈ stopSequences, stop ≠ "") (hstop : stop ∈ stopSequences)
    (hends : endsWith text stop = true) :
    UpToEarliest stopSequences text (truncateStop text stop) ↔
      ∀ other ∈ stopSequences, ∀ before rest, text.toList = before ++ other.toList ++ rest →
        text.toList.length ≤ before.length + stop.toList.length := by
  obtain ⟨start, hstart⟩ := of_decide_eq_true hends
  have hcut := toList_truncateStop hstart
  have hlength : text.toList.length = start.length + stop.toList.length := by
    rw [← hstart, List.length_append]
  constructor
  · rintro (⟨-, -, -, -, hearliest⟩ | ⟨hwhole, -⟩)
    · intro other hother before rest htext
      have hbefore := hearliest other hother before rest htext
      rw [hcut] at hbefore
      omega
    · -- a nonempty stop sequence cannot be cut off and leave everything
      rw [← hwhole, hcut] at hlength
      have hempty : stop.toList = [] := List.length_eq_zero_iff.mp (by omega)
      exact absurd (String.toList_eq_nil_iff.mp hempty) (hne stop hstop)
  · intro hearliest
    refine Or.inl ⟨stop, hstop, [], ?_, ?_⟩
    · rw [hcut, List.append_nil, hstart]
    · intro other hother before rest htext
      have hbefore := hearliest other hother before rest htext
      rw [hcut]
      omega

namespace Decoding

variable {T : Type*} {d : Decoding T} {stopSequences : List String}

theorem mem_of_firstStop {text stop : String} (h : firstStop stopSequences text = some stop) :
    stop ∈ stopSequences :=
  List.mem_of_find?_eq_some h

/-- Generation that ends before a step has the pieces before it. -/
theorem finishes_of_ends {i left n : ℕ} (h : d.ends i (d.token i) = true) :
    d.Finishes stopSequences i (left + 1) n ↔ n = i := by
  constructor
  · rintro (_ | _ | ⟨goes, -, -, -⟩)
    · rfl
    · rw [h] at goes
      cases goes
  · rintro rfl
    exact .now h

/-- Where a stop sequence is found, generation does not end without one. -/
theorem not_finishes_of_hit {i left n : ℕ} {found : String} (goes : d.ends i (d.token i) = false)
    (hit : firstStop stopSequences (d.produced (i + 1)) = some found) :
    ¬ d.Finishes stopSequences i (left + 1) n := by
  rintro (_ | ends | ⟨-, quiet, -, -⟩)
  · rw [goes] at ends
    cases ends
  · rw [hit] at quiet
    cases quiet

theorem finishes_of_quiet {i left n : ℕ} (goes : d.ends i (d.token i) = false)
    (quiet : firstStop stopSequences (d.produced (i + 1)) = none) :
    d.Finishes stopSequences i (left + 1) n ↔
      d.advance i = .ok () ∧ d.Finishes stopSequences (i + 1) left n := by
  constructor
  · rintro (_ | ends | ⟨-, -, advances, rest⟩)
    · rw [goes] at ends
      cases ends
    · exact ⟨advances, rest⟩
  · rintro ⟨advances, rest⟩
    exact .later goes quiet advances rest

/-- From any step on: the loop returns its text up to the earliest stop sequence just if the stop
sequence that is found begins there, and none occurs if none is found. -/
theorem generateLoop_iff (hne : ∀ stop ∈ stopSequences, stop ≠ "") (i left : ℕ) :
    (∀ output, d.generateLoop stopSequences i (d.produced i) left = .ok output →
        UpToEarliest stopSequences (d.produced (d.generated stopSequences i left)) output) ↔
      (∀ k stop, d.StopsIn stopSequences i left k stop → ∀ other ∈ stopSequences,
        ∀ before rest, (d.produced (k + 1)).toList = before ++ other.toList ++ rest →
          (d.produced (k + 1)).toList.length ≤ before.length + stop.toList.length) ∧
      ∀ n, d.Finishes stopSequences i left n → ∀ stop ∈ stopSequences,
        ¬ stop.Occurs (d.produced n) := by
  have hwhole : ∀ text : String, UpToEarliest stopSequences text text ↔
      ∀ stop ∈ stopSequences, ¬ stop.Occurs text := by
    intro text
    constructor
    · exact fun h => not_occurs_of_upToEarliest hne h
    · exact fun h => Or.inr ⟨rfl, h⟩
  induction left generalizing i with
  | zero =>
      simp only [generateLoop, generated, Except.ok.injEq, forall_eq', hwhole]
      constructor
      · intro hnone
        refine ⟨fun k stop h => absurd h stopsIn_zero, ?_⟩
        rintro n ⟨⟩
        exact hnone
      · exact fun h => h.2 i .outOfSteps
  | succ left ih =>
      cases hends : d.ends i (d.token i) with
      | true =>
          simp only [generateLoop, generated, hends, if_true, Except.ok.injEq, forall_eq', hwhole,
            finishes_of_ends hends, forall_eq]
          exact ⟨fun hnone => ⟨fun k stop h => absurd h (stopsIn_of_ends hends), hnone⟩, And.right⟩
      | false =>
          have hproduced : d.produced i ++ d.piece (d.token i) = d.produced (i + 1) := rfl
          rw [generateLoop, generated, if_neg (by simp [hends]), if_neg (by simp [hends])]
          simp only [hproduced]
          cases hfound : firstStop stopSequences (d.produced (i + 1)) with
          | some found =>
              have hcut := upToEarliest_truncate_iff hne (mem_of_firstStop hfound)
                (endsWith_of_firstStop hfound)
              simp only [Except.ok.injEq, forall_eq', hcut, stopsIn_of_hit hends hfound, and_imp]
              constructor
              · intro hearliest
                refine ⟨?_, fun n h => absurd h (not_finishes_of_hit hends hfound)⟩
                rintro k stop rfl rfl
                exact hearliest
              · exact fun h => h.1 i found rfl rfl
          | none =>
              simp only [stopsIn_of_quiet hends hfound, finishes_of_quiet hends hfound]
              cases hadvance : d.advance i with
              | error e =>
                  refine iff_of_true (fun _ h => by cases h) ⟨?_, ?_⟩
                  · exact fun k stop h => by cases h.1
                  · exact fun n h => by cases h.1
              | ok done =>
                  simp only [true_and]
                  exact ih (i + 1)

/-- The whole loop. -/
theorem honoured_generateLoop_iff (hne : ∀ stop ∈ stopSequences, stop ≠ "") (left : ℕ) :
    Honoured stopSequences (d.produced (d.generated stopSequences 0 left))
        (d.generateLoop stopSequences 0 "" left) ↔
      d.Tidy stopSequences left := by
  rw [honoured_iff hne]
  refine (generateLoop_iff hne 0 left).trans ⟨?_, ?_⟩
  · rintro ⟨hstopped, hfinished⟩
    exact ⟨hstopped, hfinished⟩
  · rintro ⟨hstopped, hfinished⟩
    exact ⟨hstopped, hfinished⟩

end Decoding

/-! ## The engines -/

/-- What Candle generates, with the stop sequences still in it. -/
def CandleRun.text (run : CandleRun) (req : GenerateRequest) : String :=
  run.decoding.produced (run.decoding.generated req.stopSequences 0 req.maxTokens)

/-- What llama.cpp generates, with the stop sequences still in it. -/
def LlamaRun.text (run : LlamaRun) (req : GenerateRequest) : String :=
  match run.prompt with
  | .error _ => ""
  | .ok promptLength =>
      (run.decoding promptLength).produced
        ((run.decoding promptLength).generated req.stopSequences 0 req.maxTokens)

/-- One piece, and then the end of the text. -/
def pairCandle : CandleRun where
  prepared := .ok ()
  sampled i := i
  decode _ := .ok "ab"
  eosTokens := [1]
  forward _ := .ok ()

/-- The same piece from llama.cpp. -/
def pairLlama : LlamaRun where
  promptTokens := .ok [7]
  contextLength := 4096
  prepared := .ok ()
  sampled i := i
  tokenToPiece _ := .ok "ab"
  eos := 1
  isEogToken _ := false
  decode _ := .ok ()

end HiveBear.Inference
