/-
# Server-sent events

The answer of a cloud provider arrives in chunks of bytes. Each chunk is read as text by itself,
and the lines that are complete are taken from a buffer; what is left at the end is read in
another way. So a character that is cut by the end of a chunk is lost, and white space at the ends
of an unfinished last line is too.

Nothing else goes wrong: what is handed to the parser of the chunks is what the whole stream holds,
line by line, just if no character of a data line is cut and the last line, if it is unfinished,
has no white space that makes a difference.
-/

import HiveBear.Inference.Orchestrator
import HiveBear.Library.Utf8
import Mathlib.Data.List.Basic

namespace HiveBear.Inference

open Texts Utf8

/-! ## Lines -/

/-- What a line is good for. -/
inductive LineData
  | skip
  | done
  | data (payload : List Char)
  deriving DecidableEq

def dataPayload (line : List Char) : Option (List Char) :=
  (stripStart "data: ".toList line).or (stripStart "data:".toList line)

/-- What a payload is good for. -/
def checkData (sentinel : Option (List Char)) (data : List Char) : LineData :=
  if sentinel = some (trim data) then .done
  else if trim data = [] then .skip
  else .data data

/-- Read a complete line, without the characters that end it. -/
def readLine (sentinel : Option (List Char)) (line : List Char) : LineData :=
  if line = [] then .skip
  else if ":".toList <+: line then .skip
  else if "event:".toList <+: line then .skip
  else
    match dataPayload line with
    | none => .skip
    | some data => checkData sentinel data

/-- Read a line of what is left in the buffer. -/
def readLeft (sentinel : Option (List Char)) (line : List Char) : LineData :=
  match dataPayload (trim line) with
  | none => .skip
  | some data => checkData sentinel data

/-- Cut off what may stand in front of a line feed. -/
def trimEnd (line : List Char) : List Char := line.rdropWhile (· = '\r')

/-- The payloads of lines, up to the sentinel. -/
def payloads (read : List Char → LineData) : List (List Char) → List (List Char)
  | [] => []
  | line :: lines =>
      match read line with
      | .done => []
      | .skip => payloads read lines
      | .data data => data :: payloads read lines

/-! ## The stream -/

/-- What is handed to the parser of the chunks, and the error that ends the stream. -/
structure SseOutcome where
  handed : List (List Char)
  error : Option InferenceError

section

variable (sentinel : Option (List Char))

/-- Take the complete lines from the buffer, and hand their payloads on. Nothing is left of the
buffer if the sentinel has been found. -/
def drain : ℕ → List Char → List (List Char) × Option (List Char)
  | 0, buffer => ([], some buffer)
  | left + 1, buffer =>
      match splitOnce ['\n'] buffer with
      | none => ([], some buffer)
      | some (line, rest) =>
          match readLine sentinel (trimEnd line) with
          | .done => ([], none)
          | .skip => drain left rest
          | .data data =>
              let later := drain left rest
              (data :: later.1, later.2)

/-- Read what is left in the buffer at the end. -/
def readBuffer (buffer : List Char) : List (List Char) :=
  if trim buffer = [] then [] else payloads (readLeft sentinel) (lines buffer)

/-- Read the chunks of a stream, with a buffer. -/
def readStream : List Char → List (Except String (List UInt8)) → SseOutcome
  | buffer, [] => ⟨readBuffer sentinel buffer, none⟩
  | _, .error e :: _ => ⟨[], some (.generationError s!"Stream read error: {e}")⟩
  | buffer, .ok chunk :: chunks =>
      let buffer := buffer ++ lossy chunk
      match drain sentinel (buffer.count '\n') buffer with
      | (handed, none) => ⟨handed, none⟩
      | (handed, some rest) =>
          let later := readStream rest chunks
          ⟨handed ++ later.handed, later.error⟩

/-- The stream of tokens. An error of the parser of a chunk is only logged. -/
def streamSseWithParser {Token : Type} (response : List (Except String (List UInt8)))
    (parseChunk : List Char → Except InferenceError (Option Token)) :
    List (Except InferenceError Token) :=
  let outcome := readStream sentinel [] response
  let tokens := outcome.handed.filterMap fun data =>
    match parseChunk data with
    | .ok token => token
    | .error _ => none
  tokens.map .ok ++ outcome.error.toList.map .error

/-- The payloads of a whole stream, read line by line. -/
def streamPayloads (text : List Char) : List (List Char) :=
  payloads (fun line => readLine sentinel (trimEnd line)) (text.splitOn '\n')

end

/-! ## What the chunks come to -/

section

variable {sentinel : Option (List Char)}

/-- The payloads of the parts of a text, of which the last one is no complete line. -/
def partPayloads (sentinel : Option (List Char)) : List (List Char) → List (List Char)
  | [] => []
  | [left] => readBuffer sentinel left
  | line :: next :: parts =>
      match readLine sentinel (trimEnd line) with
      | .done => []
      | .skip => partPayloads sentinel (next :: parts)
      | .data data => data :: partPayloads sentinel (next :: parts)

theorem partPayloads_cons (line : List Char) {parts : List (List Char)} (hne : parts ≠ []) :
    partPayloads sentinel (line :: parts) =
      match readLine sentinel (trimEnd line) with
      | .done => []
      | .skip => partPayloads sentinel parts
      | .data data => data :: partPayloads sentinel parts := by
  obtain ⟨next, parts, rfl⟩ := List.exists_cons_of_ne_nil hne
  rfl

/-- What is taken from the buffer, with what follows. -/
theorem partPayloads_drain (buffer more : List Char) :
    partPayloads sentinel ((buffer ++ more).splitOn '\n') =
      match drain sentinel (buffer.count '\n') buffer with
      | (handed, none) => handed
      | (handed, some rest) => handed ++ partPayloads sentinel ((rest ++ more).splitOn '\n') := by
  generalize hcount : buffer.count '\n' = left
  induction left generalizing buffer with
  | zero => rfl
  | succ left ih =>
      rw [drain]
      rcases splitOnce_singleton '\n' buffer with ⟨hnone, -⟩ | ⟨line, rest, hsome, rfl, hline⟩
      · rw [hnone]
        rfl
      · have hrest : rest.count '\n' = left := by
          rw [List.count_append, List.count_eq_zero_of_not_mem hline, List.count_cons_self] at hcount
          omega
        rw [hsome, List.append_assoc, List.cons_append,
          List.splitOn_append_cons_self_of_not_mem hline, partPayloads_cons line (List.splitOn_ne_nil _ _), ih rest hrest]
        dsimp only
        cases readLine sentinel (trimEnd line) with
        | done => rfl
        | skip => rfl
        | data data =>
            dsimp only
            cases drain sentinel left rest with
            | mk handed left => cases left <;> rfl

/-- What is left of the buffer has no complete line. -/
theorem notMem_of_drain {buffer rest : List Char} {handed : List (List Char)}
    (h : drain sentinel (buffer.count '\n') buffer = (handed, some rest)) : '\n' ∉ rest := by
  generalize hcount : buffer.count '\n' = left at h
  induction left generalizing buffer handed with
  | zero =>
      cases h
      exact List.count_eq_zero.mp hcount
  | succ left ih =>
      rw [drain] at h
      rcases splitOnce_singleton '\n' buffer with ⟨hnone, hmem⟩ | ⟨line, back, hsome, rfl, hline⟩
      · rw [hnone] at h
        cases h
        exact hmem
      · have hback : back.count '\n' = left := by
          rw [List.count_append, List.count_eq_zero_of_not_mem hline, List.count_cons_self] at hcount
          omega
        rw [hsome] at h
        dsimp only at h
        split at h
        · cases h
        · exact ih hback h
        · obtain ⟨-, hrest⟩ := Prod.mk.inj h
          exact ih hback (Prod.ext rfl hrest)

/-- **The chunks come to one text**, which is read part by part. -/
theorem handed_readStream {buffer : List Char} (hbuffer : '\n' ∉ buffer)
    (chunks : List (List UInt8)) :
    (readStream sentinel buffer (chunks.map .ok)).handed =
      partPayloads sentinel ((buffer ++ chunks.flatMap lossy).splitOn '\n') := by
  induction chunks generalizing buffer with
  | nil =>
      have hparts : buffer.splitOn '\n' = [buffer] := List.splitOn_eq_singleton hbuffer
      rw [List.flatMap_nil, List.append_nil, hparts]
      rfl
  | cons chunk chunks ih =>
      rw [List.flatMap_cons, ← List.append_assoc, partPayloads_drain, List.map_cons, readStream]
      dsimp only
      cases hdrain : drain sentinel ((buffer ++ lossy chunk).count '\n') (buffer ++ lossy chunk) with
      | mk handed rest =>
          cases rest with
          | none => rfl
          | some rest =>
              dsimp only
              rw [ih (notMem_of_drain hdrain)]

/-! ## Data lines -/

/-- A line is read for its payload, if it has one. -/
theorem readLine_eq (line : List Char) :
    readLine sentinel line =
      match dataPayload line with
      | none => .skip
      | some data => checkData sentinel data := by
  have hother (c : Char) (rest : List Char) (hc : c ≠ 'd') (hline : c :: rest <+: line) :
      dataPayload line = none := by
    have hnone (start : List Char) : stripStart ('d' :: start) line = none := by
      obtain ⟨back, rfl⟩ := hline
      rw [stripStart, if_neg]
      rw [List.cons_append, List.cons_prefix_cons]
      exact fun h => hc h.1.symm
    have hspace : stripStart "data: ".toList line = none := hnone "ata: ".toList
    have hplain : stripStart "data:".toList line = none := hnone "ata:".toList
    rw [dataPayload, hspace, hplain]
    rfl
  rw [readLine]
  split_ifs with hempty hcomment hevent
  · rw [hempty]
    rfl
  · rw [hother _ _ (by decide) hcomment]
  · rw [hother _ _ (by decide) hevent]
  · rfl

theorem trim_eq_nil_iff {text : List Char} : trim text = [] ↔ ∀ c ∈ text, isRustSpace c = true := by
  rw [trim, List.rdropWhile_eq_nil_iff]
  constructor
  · intro h
    have hsplit := List.takeWhile_append_dropWhile (p := isRustSpace) (l := text)
    rw [← hsplit]
    exact List.forall_mem_append.mpr ⟨fun c hc => List.mem_takeWhile_imp hc, h⟩
  · exact fun h c hc => h c (List.dropWhile_sublist _ |>.subset hc)

/-- What begins like a data line has a payload, which is blank just if the line is blank behind its
beginning. -/
theorem exists_dataPayload {line : List Char} (h : "data:".toList <+: line) :
    ∃ data, dataPayload line = some data ∧
      (trim data = [] ↔ ∀ c ∈ line.drop 5, isRustSpace c = true) := by
  obtain ⟨rest, rfl⟩ := h
  cases rest with
  | nil => exact ⟨[], rfl, iff_of_true rfl (List.forall_mem_nil _)⟩
  | cons c rest =>
      by_cases hspace : c = ' '
      · subst hspace
        refine ⟨rest, by simp [dataPayload, stripStart], ?_⟩
        rw [trim_eq_nil_iff]
        exact (List.forall_mem_cons.trans (and_iff_right (by decide))).symm
      · refine ⟨c :: rest, by simp [dataPayload, stripStart, Ne.symm hspace], ?_⟩
        rw [trim_eq_nil_iff]
        rfl

theorem starts_of_dataPayload {line data : List Char} (h : dataPayload line = some data) :
    "data:".toList <+: line := by
  rw [dataPayload, Option.or_eq_some_iff] at h
  rcases h with hspace | ⟨-, hnone⟩
  · rw [stripStart] at hspace
    split_ifs at hspace with hstarts
    exact (by decide : "data:".toList <+: "data: ".toList).trans hstarts
  · rw [stripStart] at hnone
    split_ifs at hnone with hstarts
    exact hstarts

end

/-! ## Marked lines -/

section

variable {sentinel : Option (List Char)} {marks : List (Char × ℕ)}

/-- The payload of a marked line, with its marks. -/
def markedPayload (marks : List (Char × ℕ)) : Option (List (Char × ℕ)) :=
  if "data: ".toList <+: plain marks then some (marks.drop 6)
  else if "data:".toList <+: plain marks then some (marks.drop 5)
  else none

theorem dataPayload_marked (h : WellMarked marks) :
    dataPayload (spoil marks) = (markedPayload marks).map spoil ∧
      dataPayload (plain marks) = (markedPayload marks).map plain := by
  obtain ⟨hspace, hdropSpace⟩ := @prefix_spoil_iff marks "data: ".toList (forall_mem_of_all (by decide)) h
  obtain ⟨hstart, hdrop⟩ := @prefix_spoil_iff marks "data:".toList (forall_mem_of_all (by decide)) h
  have hplain (n : ℕ) : (plain marks).drop n = plain (marks.drop n) := List.map_drop.symm
  rw [dataPayload, dataPayload, stripStart, stripStart, stripStart, stripStart, markedPayload]
  simp only [hspace, hstart, hplain]
  by_cases hdata : "data: ".toList <+: plain marks
  · rw [if_pos hdata, if_pos hdata, if_pos hdata, (hdropSpace hdata).2]
    exact ⟨rfl, rfl⟩
  · by_cases hdata' : "data:".toList <+: plain marks
    · rw [if_neg hdata, if_neg hdata, if_neg hdata, if_pos hdata', if_pos hdata', if_pos hdata',
        (hdrop hdata').2]
      exact ⟨rfl, rfl⟩
    · rw [if_neg hdata, if_neg hdata, if_neg hdata, if_neg hdata', if_neg hdata', if_neg hdata']
      exact ⟨rfl, rfl⟩

theorem exists_start {payload : List (Char × ℕ)} (h : markedPayload marks = some payload) :
    ∃ start, marks = start ++ payload := by
  rw [markedPayload] at h
  split_ifs at h <;> cases h
  · exact ⟨_, (List.take_append_drop 6 marks).symm⟩
  · exact ⟨_, (List.take_append_drop 5 marks).symm⟩

theorem wellMarked_markedPayload (h : WellMarked marks) {payload : List (Char × ℕ)}
    (hpayload : markedPayload marks = some payload) : WellMarked payload := by
  obtain ⟨start, rfl⟩ := exists_start hpayload
  exact (wellMarked_append.mp h).2

/-- Where the payload is whole the line is. -/
theorem whole_of_markedPayload (h : WellMarked marks) {payload : List (Char × ℕ)}
    (hpayload : markedPayload marks = some payload) (hwhole : Whole payload) : Whole marks := by
  have hparts {start : List Char} (hascii : ∀ c ∈ start, c.toNat < 0x80)
      (hstart : start <+: plain marks) (hrest : Whole (marks.drop start.length)) : Whole marks := by
    rw [← List.take_append_drop start.length marks]
    exact List.forall_mem_append.mpr ⟨((prefix_spoil_iff hascii h).2 hstart).1, hrest⟩
  rw [markedPayload] at hpayload
  split_ifs at hpayload with hdata hdata' <;> cases hpayload
  · exact hparts (forall_mem_of_all (by decide)) hdata hwhole
  · exact hparts (forall_mem_of_all (by decide)) hdata' hwhole

/-- A text with a cut character is not blank. -/
theorem trim_spoil_ne_nil (h : WellMarked marks) (hcut : ¬ Whole marks) : trim (spoil marks) ≠ [] := by
  intro hblank
  have hspace := trim_eq_nil_iff.mp hblank _ (replacement_mem_spoil h hcut)
  exact absurd hspace (by decide)

/-- A marked line without the characters that end it. -/
def trimMarks (marks : List (Char × ℕ)) : List (Char × ℕ) :=
  marks.rdropWhile fun x => x.2 = 0 && decide (x.1 = '\r')

theorem trimEnd_marked (h : WellMarked marks) :
    trimEnd (spoil marks) = spoil (trimMarks marks) ∧
      trimEnd (plain marks) = plain (trimMarks marks) ∧ WellMarked (trimMarks marks) := by
  refine ⟨rdropWhile_spoil (by decide) h, rdropWhile_plain ?_ h, ?_⟩
  · intro c hc
    rw [of_decide_eq_true hc]
    decide
  · exact fun x hx => h x ((List.rdropWhile_prefix _ _).subset hx)

/-- What is read of a complete line is what it is, if no character of a data line is cut. -/
theorem readLine_spoil (h : WellMarked marks)
    (hwhole : (dataPayload (trimEnd (plain marks))).isSome → Whole marks) :
    readLine sentinel (trimEnd (spoil marks)) = readLine sentinel (trimEnd (plain marks)) := by
  by_cases hcut : Whole marks
  · rw [spoil_of_whole hcut]
  · obtain ⟨hspoil, hplain, hmarks⟩ := trimEnd_marked h
    rw [hplain, (dataPayload_marked hmarks).2, Option.isSome_map] at hwhole
    have hnone : markedPayload (trimMarks marks) = none :=
      Option.not_isSome_iff_eq_none.mp fun hdata => hcut (hwhole hdata)
    rw [hspoil, hplain, readLine_eq, readLine_eq, (dataPayload_marked hmarks).1,
      (dataPayload_marked hmarks).2, hnone]
    rfl

/-- What a line hands on. -/
def LineData.handed : LineData → List (List Char)
  | .data payload => [payload]
  | .skip | .done => []

theorem payloads_singleton (read : List Char → LineData) (line : List Char) :
    payloads read [line] = (read line).handed := by
  rw [payloads]
  cases read line <;> rfl

/-- Only a payload that is not blank is handed on. -/
theorem handed_checkData (data : List Char) :
    (checkData sentinel data).handed = [] ∨
      (checkData sentinel data).handed = [data] ∧ trim data ≠ [] := by
  rw [checkData]
  split_ifs with hdone hblank
  · exact Or.inl rfl
  · exact Or.inl rfl
  · exact Or.inr ⟨rfl, hblank⟩

theorem handed_checkData_none {data : List Char} (h : trim data ≠ []) :
    (checkData none data).handed = [data] := by
  rw [checkData, if_neg (by simp), if_neg h]
  rfl

theorem handed_readLine {line data : List Char}
    (h : (readLine sentinel line).handed = [data]) :
    dataPayload line = some data ∧ trim data ≠ [] := by
  rw [readLine_eq] at h
  cases hpayload : dataPayload line with
  | none =>
      rw [hpayload] at h
      cases h
  | some payload =>
      rw [hpayload] at h
      dsimp only at h
      rcases @handed_checkData sentinel payload with hnone | ⟨hsome, hblank⟩
      · rw [hnone] at h
        cases h
      · rw [hsome] at h
        cases h
        exact ⟨rfl, hblank⟩

theorem handed_readLine_eq (line : List Char) :
    (readLine sentinel line).handed = [] ∨ ∃ data, (readLine sentinel line).handed = [data] := by
  cases readLine sentinel line with
  | data data => exact Or.inr ⟨data, rfl⟩
  | skip | done => exact Or.inl rfl

theorem trim_spoil_of_plain (h : WellMarked marks) (hplain : trim (plain marks) ≠ []) :
    trim (spoil marks) ≠ [] := by
  by_cases hcut : Whole marks
  · rwa [spoil_of_whole hcut]
  · exact trim_spoil_ne_nil h hcut

theorem whole_trimMarks (h : Whole (trimMarks marks)) : Whole marks := by
  have hparts := @List.rdropWhile_append_rtakeWhile _
    (fun x : Char × ℕ => x.2 = 0 && decide (x.1 = '\r')) marks
  rw [← hparts]
  refine List.forall_mem_append.mpr ⟨h, ?_⟩
  intro x hx
  have hdropped := List.mem_rtakeWhile_imp hx
  simp only [Bool.and_eq_true, decide_eq_true_eq] at hdropped
  exact hdropped.1

/-- Without a sentinel, a complete line hands on at least what it should, and the same just if no
character of a data line is cut. -/
theorem whole_of_handed (h : WellMarked marks) :
    (readLine none (trimEnd (plain marks))).handed.length ≤
        (readLine none (trimEnd (spoil marks))).handed.length ∧
      ((readLine none (trimEnd (plain marks))).handed =
          (readLine none (trimEnd (spoil marks))).handed →
        (dataPayload (trimEnd (plain marks))).isSome → Whole marks) := by
  obtain ⟨hspoil, hplain, hmarks⟩ := trimEnd_marked h
  obtain ⟨hspoiled, htrue⟩ := dataPayload_marked hmarks
  rw [readLine_eq, readLine_eq, hspoil, hplain, hspoiled, htrue]
  cases hpayload : markedPayload (trimMarks marks) with
  | none => exact ⟨Nat.le_refl _, fun _ hsome => absurd hsome (by simp)⟩
  | some payload =>
      have hwell := wellMarked_markedPayload hmarks hpayload
      simp only [Option.map_some]
      constructor
      · rcases @handed_checkData none (plain payload) with hnone | ⟨hsome, hblank⟩
        · rw [hnone]
          exact Nat.zero_le _
        · rw [hsome, handed_checkData_none (trim_spoil_of_plain hwell hblank)]
          exact Nat.le_refl _
      · intro hsame _
        by_contra hcut
        have hcutPayload : ¬ Whole payload := fun hwhole =>
          hcut (whole_trimMarks (whole_of_markedPayload hmarks hpayload hwhole))
        rw [handed_checkData_none (trim_spoil_ne_nil hwell hcutPayload)] at hsame
        rcases @handed_checkData none (plain payload) with hnone | ⟨hsome, -⟩
        · rw [hnone] at hsame
          cases hsame
        · rw [hsome] at hsame
          exact spoil_ne_plain hwell hcutPayload (List.cons.inj hsame).1.symm

/-! ## The last line -/

/-- White space that is not cut. -/
def isSpaceMark (x : Char × ℕ) : Bool := x.2 = 0 && isRustSpace x.1

/-- A marked line without the white space at its ends. -/
def trimSpaces (marks : List (Char × ℕ)) : List (Char × ℕ) :=
  (marks.dropWhile isSpaceMark).rdropWhile isSpaceMark

theorem trim_marked (h : WellMarked marks) :
    trim (spoil marks) = spoil (trimSpaces marks) ∧ WellMarked (trimSpaces marks) := by
  have hfront : WellMarked (marks.dropWhile isSpaceMark) :=
    fun x hx => h x ((List.dropWhile_sublist _).subset hx)
  refine ⟨?_, fun x hx => hfront x ((List.rdropWhile_prefix _ _).subset hx)⟩
  rw [trim, dropWhile_spoil (by decide) h]
  exact rdropWhile_spoil (by decide) hfront

/-- An unfinished line, without the white space at its ends, is no data line, or one with an empty
payload, or one that is not cut and would have the same payload if it were complete. -/
def LeftReadable (marks : List (Char × ℕ)) : Prop :=
  ∀ payload, markedPayload (trimSpaces marks) = some payload →
    payload = [] ∨
      Whole payload ∧ dataPayload (trimEnd (plain marks)) = some (plain payload)

/-- The marks of a data line, cut behind `data:`. Trimming leaves what is in front of the cut. -/
structure DataMarks (marks front back : List (Char × ℕ)) : Prop where
  cut : marks = front ++ back
  text : plain front = "data:".toList
  whole : Whole front
  wellMarked : WellMarked back
  trimmed : trimSpaces marks = front ++ back.rdropWhile isSpaceMark
  kept : trimSpaces marks = marks.rdropWhile isSpaceMark

theorem exists_dataMarks (h : WellMarked marks) (hstarts : "data:".toList <+: plain marks) :
    ∃ front back, DataMarks marks front back := by
  obtain ⟨rest, hrest⟩ := hstarts
  obtain ⟨front, back, rfl, hfront, rfl⟩ := List.map_eq_append_iff.mp hrest.symm
  have hparts : front.map Prod.fst = ['d', 'a', 't', 'a'] ++ [':'] := hfront
  obtain ⟨start, colons, rfl, hstart, hcolons⟩ := List.map_eq_append_iff.mp hparts
  obtain ⟨first, start, rfl, hfirst, -⟩ := List.map_eq_cons_iff.mp hstart
  obtain ⟨colon, rfl, hcolon⟩ := List.map_eq_singleton_iff.mp hcolons
  have hlength : (first :: start ++ [colon]).length = "data:".toList.length := by
    rw [← hfront, List.length_map]
  have hwhole : Whole (first :: start ++ [colon]) := by
    have hprefix := (@prefix_spoil_iff _ "data:".toList (forall_mem_of_all (by decide)) h).2
      ⟨_, hrest⟩
    rw [← hlength, List.take_left] at hprefix
    exact hprefix.1
  have hkept : ((first :: start ++ [colon]) ++ back).dropWhile isSpaceMark =
      (first :: start ++ [colon]) ++ back := by
    have hnoSpace : isSpaceMark first = false := by
      rw [isSpaceMark, hfirst]
      exact Bool.and_false _
    rw [List.append_assoc, List.cons_append, List.dropWhile_cons, hnoSpace]
    rfl
  have hdropped : trimSpaces ((first :: start ++ [colon]) ++ back) =
      (first :: start ++ [colon]) ++ back.rdropWhile isSpaceMark := by
    have hnoColon : isSpaceMark colon = false := by
      rw [isSpaceMark, hcolon]
      exact Bool.and_false _
    rw [trimSpaces, hkept, rdropWhile_append hnoColon]
  have hrdrop : trimSpaces ((first :: start ++ [colon]) ++ back) =
      ((first :: start ++ [colon]) ++ back).rdropWhile isSpaceMark := by
    rw [trimSpaces, hkept]
  exact ⟨_, _, rfl, hfront, hwhole, (wellMarked_append.mp h).2, hdropped, hrdrop⟩

/-- What would be a data line if it were complete is one, and not blank if that is not. -/
theorem exists_markedPayload (h : WellMarked marks)
    (hdata : "data:".toList <+: trimEnd (plain marks)) :
    trimSpaces marks = marks.rdropWhile isSpaceMark ∧
      ∃ payload, markedPayload (trimSpaces marks) = some payload ∧
        ((∃ c ∈ (trimEnd (plain marks)).drop 5, isRustSpace c = false) →
          trim (spoil payload) ≠ []) := by
  obtain ⟨front, back, hparts⟩ := exists_dataMarks h (hdata.trans (List.rdropWhile_prefix _ _))
  have hspoil : spoil front = "data:".toList := (spoil_of_whole hparts.whole).trans hparts.text
  have hshown : spoil (trimSpaces marks) =
      "data:".toList ++ (spoil back).rdropWhile isRustSpace := by
    rw [hparts.trimmed, spoil_append, hspoil, rdropWhile_spoil (by decide) hparts.wellMarked]
    rfl
  obtain ⟨data, hpayload, hblank⟩ := exists_dataPayload
    (hshown ▸ List.prefix_append "data:".toList ((spoil back).rdropWhile isRustSpace))
  rw [(dataPayload_marked (trim_marked h).2).1, Option.map_eq_some_iff] at hpayload
  obtain ⟨payload, hmarked, rfl⟩ := hpayload
  refine ⟨hparts.kept, payload, hmarked, ?_⟩
  rintro ⟨c, hc, hchar⟩ hempty
  have hspaces := hblank.mp hempty
  rw [hshown] at hspaces
  change ∀ c ∈ (spoil back).rdropWhile isRustSpace, _ at hspaces
  have hall : ∀ c ∈ spoil back, isRustSpace c = true := by
    rw [← @List.rdropWhile_append_rtakeWhile _ isRustSpace (spoil back)]
    exact List.forall_mem_append.mpr ⟨hspaces, fun c hc => List.mem_rtakeWhile_imp hc⟩
  have hback : Whole back := by
    by_contra hcut
    have hspace := hall _ (replacement_mem_spoil hparts.wellMarked hcut)
    exact absurd hspace (by decide)
  have hplain : plain marks = "data:".toList ++ plain back := by
    rw [hparts.cut, ← hparts.text]
    exact List.map_append
  have hmem : c ∈ plain back := by
    have hsub := ((List.rdropWhile_prefix (fun c => decide (c = '\r')) (plain marks)).drop 5).subset hc
    rw [hplain] at hsub
    exact hsub
  rw [← spoil_of_whole hback] at hmem
  rw [hall c hmem] at hchar
  cases hchar

/-- Where a complete line would hand something on, an unfinished one is a data line that is not
blank. -/
theorem exists_shown (h : WellMarked marks) {data : List Char}
    (hdata : (readLine sentinel (trimEnd (plain marks))).handed = [data]) :
    ∃ payload, markedPayload (trimSpaces marks) = some payload ∧ trim (spoil payload) ≠ [] := by
  obtain ⟨hpayload, hblank⟩ := handed_readLine hdata
  have hstarts := starts_of_dataPayload hpayload
  obtain ⟨-, payload, hmarked, hshown⟩ := exists_markedPayload h hstarts
  refine ⟨payload, hmarked, hshown ?_⟩
  obtain ⟨other, hother, hiff⟩ := exists_dataPayload hstarts
  cases hpayload.symm.trans hother
  by_contra hnone
  push Not at hnone
  exact hblank (hiff.mpr fun c hc => by simpa using hnone c hc)

/-- What is read of a line in the buffer, as far as marks go. -/
theorem readLeft_spoil (h : WellMarked marks) :
    readLeft sentinel (spoil marks) =
      match (markedPayload (trimSpaces marks)).map spoil with
      | none => .skip
      | some data => checkData sentinel data := by
  obtain ⟨htrim, hmarks⟩ := trim_marked h
  rw [readLeft, htrim, (dataPayload_marked hmarks).1]

/-- A readable last line hands on what it should. -/
theorem readLeft_eq (h : WellMarked marks) (hread : LeftReadable marks) :
    (readLeft sentinel (spoil marks)).handed =
      (readLine sentinel (trimEnd (plain marks))).handed := by
  have hnone (hempty : ∀ payload, markedPayload (trimSpaces marks) = some payload →
      trim (spoil payload) = []) :
      (readLine sentinel (trimEnd (plain marks))).handed = [] := by
    rcases @handed_readLine_eq sentinel (trimEnd (plain marks)) with hnothing | ⟨data, hdata⟩
    · exact hnothing
    · obtain ⟨payload, hmarked, hblank⟩ := exists_shown h hdata
      exact absurd (hempty payload hmarked) hblank
  rw [readLeft_spoil h]
  cases hmarked : markedPayload (trimSpaces marks) with
  | none =>
      rw [hnone fun payload hpayload => absurd (hmarked.symm.trans hpayload) nofun]
      rfl
  | some payload =>
      rcases hread payload hmarked with rfl | ⟨hwhole, hdata⟩
      · rw [hnone fun payload hpayload => by cases hmarked.symm.trans hpayload; rfl]
        rcases @handed_checkData sentinel [] with hskip | ⟨-, hblank⟩
        · exact hskip
        · exact absurd rfl hblank
      · rw [Option.map_some, spoil_of_whole hwhole, readLine_eq, hdata]

/-- Where no white space ends a text, what is read does not end with white space. -/
theorem exists_last {payload : List (Char × ℕ)} (h : WellMarked payload)
    (hpayload : markedPayload (trimSpaces marks) = some payload) (hne : payload ≠ []) :
    ∃ text c, spoil payload = text ++ [c] ∧ isRustSpace c = false := by
  obtain ⟨front, x, rfl⟩ := (List.eq_nil_or_concat' payload).resolve_left hne
  obtain ⟨start, hstart⟩ := exists_start hpayload
  rw [← List.append_assoc] at hstart
  have hx : isSpaceMark x = false := by
    by_contra hspace
    have htrimmed : (trimSpaces marks).rdropWhile isSpaceMark = trimSpaces marks :=
      List.rdropWhile_idempotent _ _
    rw [hstart, List.rdropWhile_concat_pos _ _ _ (by simpa using hspace)] at htrimmed
    have hlength := (List.rdropWhile_prefix isSpaceMark (start ++ front)).length_le
    rw [htrimmed, List.length_append, List.length_singleton] at hlength
    omega
  rw [spoil_append]
  rcases spoil_cons (wellMarked_append.mp h).2 with ⟨hwhole, hspoil⟩ | ⟨htwo, -, hspoil⟩
  · refine ⟨spoil front, x.1, by rw [hspoil]; rfl, ?_⟩
    simpa [isSpaceMark, hwhole] using hx
  · obtain ⟨n, hn⟩ : ∃ n, x.2 = n + 1 := ⟨x.2 - 1, by omega⟩
    refine ⟨spoil front ++ List.replicate n replacement, replacement, ?_, by decide⟩
    rw [hspoil, hn, List.replicate_succ', List.append_assoc]
    simp [spoil]

/-- Without a sentinel, the last line hands on at least what it should, and the same just if it is
readable. -/
theorem readable_of_handed (h : WellMarked marks) :
    (readLine none (trimEnd (plain marks))).handed.length ≤
        (readLeft none (spoil marks)).handed.length ∧
      ((readLine none (trimEnd (plain marks))).handed = (readLeft none (spoil marks)).handed →
        LeftReadable marks) := by
  have hwell := (trim_marked h).2
  constructor
  · rcases @handed_readLine_eq none (trimEnd (plain marks)) with hnothing | ⟨data, hdata⟩
    · rw [hnothing]
      exact Nat.zero_le _
    · obtain ⟨payload, hmarked, hblank⟩ := exists_shown h hdata
      rw [hdata, readLeft_spoil h, hmarked, Option.map_some, handed_checkData_none hblank]
      exact Nat.le_refl _
  · intro hsame payload hmarked
    refine or_iff_not_imp_left.mpr fun hne => ?_
    have hwellPayload := wellMarked_markedPayload hwell hmarked
    obtain ⟨text, c, hlast, hchar⟩ := exists_last hwellPayload hmarked hne
    have hblank : trim (spoil payload) ≠ [] := by
      intro hempty
      have hspace := trim_eq_nil_iff.mp hempty c (by rw [hlast]; simp)
      rw [hchar] at hspace
      cases hspace
    rw [readLeft_spoil h, hmarked, Option.map_some, handed_checkData_none hblank] at hsame
    obtain ⟨hpayload, -⟩ := handed_readLine hsame
    obtain ⟨hdropped, -⟩ := exists_markedPayload h (starts_of_dataPayload hpayload)
    obtain ⟨-, hplain, hwellLine⟩ := trimEnd_marked h
    have hline := hpayload
    rw [hplain, (dataPayload_marked hwellLine).2, Option.map_eq_some_iff] at hline
    obtain ⟨other, hother, hsame'⟩ := hline
    have hmarks : trimSpaces marks = trimMarks marks := by
      obtain ⟨start, hstart⟩ := exists_start hother
      obtain ⟨front, last, rfl, -, hchar'⟩ := List.map_eq_append_iff.mp (hsame'.trans hlast)
      obtain ⟨y, rfl, rfl⟩ := List.map_eq_singleton_iff.mp hchar'
      rw [← List.append_assoc] at hstart
      have hy : isSpaceMark y = false := by
        rw [isSpaceMark, hchar]
        exact Bool.and_false _
      have hends := @List.rdropWhile_append_rtakeWhile _
        (fun x : Char × ℕ => x.2 = 0 && decide (x.1 = '\r')) marks
      change trimMarks marks ++ _ = marks at hends
      rw [hdropped, ← hends, hstart, rdropWhile_append hy]
      have hspaces := (@List.rdropWhile_eq_nil_iff _ isSpaceMark
        (marks.rtakeWhile fun x : Char × ℕ => x.2 = 0 && decide (x.1 = '\r'))).mpr ?_
      · rw [hspaces, List.append_nil, ← hstart, hends]
      · intro x hx
        have hreturn := List.mem_rtakeWhile_imp hx
        simp only [Bool.and_eq_true, decide_eq_true_eq] at hreturn
        rw [isSpaceMark, hreturn.1, hreturn.2]
        rfl
    rw [hmarks, hother] at hmarked
    obtain rfl := Option.some.inj hmarked
    have hwhole : Whole other := by
      by_contra hcut
      exact spoil_ne_plain hwellPayload hcut hsame'.symm
    exact ⟨hwhole, by rw [hpayload, hsame']⟩

end

/-! ## The result -/

/-- The lines of a text that arrives in chunks, with the marks of the characters that are cut. -/
def markedLines (chunks : List (List UInt8)) (text : List Char) : List (List (Char × ℕ)) :=
  (mark chunks text).splitOnP (·.1 = '\n')

/-- No character of a data line is cut, and the last line is readable if it is unfinished. -/
structure Readable (chunks : List (List UInt8)) (text : List Char) : Prop where
  complete : ∀ line ∈ (markedLines chunks text).dropLast,
    (dataPayload (trimEnd (plain line))).isSome → Whole line
  left : ∀ line ∈ (markedLines chunks text).getLast?, LeftReadable line

section

variable {sentinel : Option (List Char)}

/-- Lines that are read alike, and a last line that hands on the same, hand on the same. -/
theorem partPayloads_eq {parts : List (List (Char × ℕ))} {last : List (Char × ℕ)}
    (hparts : ∀ line ∈ parts, readLine sentinel (trimEnd (spoil line)) =
      readLine sentinel (trimEnd (plain line)))
    (hlast : readBuffer sentinel (spoil last) =
      (readLine sentinel (trimEnd (plain last))).handed) :
    partPayloads sentinel ((parts ++ [last]).map spoil) =
      payloads (fun line => readLine sentinel (trimEnd line)) ((parts ++ [last]).map plain) := by
  induction parts with
  | nil => exact hlast.trans (payloads_singleton _ _).symm
  | cons line parts ih =>
      obtain ⟨hline, hrest⟩ := List.forall_mem_cons.mp hparts
      have hne : (parts ++ [last]).map spoil ≠ [] := by simp
      rw [List.cons_append, List.map_cons, List.map_cons, partPayloads_cons _ hne, payloads, hline,
        ih hrest]

end

theorem readLine_none_ne_done (line : List Char) : readLine none line ≠ .done := by
  rw [readLine_eq]
  cases dataPayload line with
  | none => exact nofun
  | some data =>
      dsimp only
      rw [checkData, if_neg (by simp)]
      split_ifs <;> exact nofun

/-- Without a sentinel every line hands on what it holds. -/
theorem payloads_none (lines : List (List Char)) :
    payloads (fun line => readLine none (trimEnd line)) lines =
      lines.flatMap fun line => (readLine none (trimEnd line)).handed := by
  induction lines with
  | nil => rfl
  | cons line lines ih =>
      have hdone := readLine_none_ne_done (trimEnd line)
      rw [payloads, List.flatMap_cons, ih]
      cases hread : readLine none (trimEnd line) with
      | done => exact absurd hread hdone
      | skip | data => rfl

theorem partPayloads_none (lines : List (List Char)) (last : List Char) :
    partPayloads none (lines ++ [last]) =
      (lines.flatMap fun line => (readLine none (trimEnd line)).handed) ++
        readBuffer none last := by
  induction lines with
  | nil => rfl
  | cons line lines ih =>
      have hdone := readLine_none_ne_done (trimEnd line)
      have hne : lines ++ [last] ≠ [] := by simp
      rw [List.cons_append, partPayloads_cons _ hne, List.flatMap_cons, ih]
      cases hread : readLine none (trimEnd line) with
      | done => exact absurd hread hdone
      | skip | data => rfl

/-- What is left in the buffer is one line. -/
theorem readBuffer_eq {sentinel : Option (List Char)} {buffer : List Char}
    (h : '\n' ∉ buffer) : readBuffer sentinel buffer = (readLeft sentinel buffer).handed := by
  rw [readBuffer]
  split_ifs with hblank
  · rw [readLeft, hblank]
    rfl
  · have hne : buffer ≠ [] := by
      rintro rfl
      exact hblank rfl
    rw [lines_of_notMem h hne, payloads_singleton]

/-- Where every element gives at least as much in one way as in another one, and together they give
the same, each of them does. -/
theorem eq_of_flatMap_eq {α β : Type*} {list : List α} {f g : α → List β} {rest rest' : List β}
    (hlength : ∀ x ∈ list, (f x).length ≤ (g x).length) (hrest : rest.length ≤ rest'.length)
    (h : list.flatMap f ++ rest = list.flatMap g ++ rest') :
    (∀ x ∈ list, f x = g x) ∧ rest = rest' := by
  have hle (more : List α) (hmore : ∀ x ∈ more, (f x).length ≤ (g x).length) :
      (more.flatMap f).length ≤ (more.flatMap g).length := by
    induction more with
    | nil => exact Nat.le_refl _
    | cons x more ih =>
        obtain ⟨hx, hlater⟩ := List.forall_mem_cons.mp hmore
        rw [List.flatMap_cons, List.flatMap_cons, List.length_append, List.length_append]
        exact Nat.add_le_add hx (ih hlater)
  induction list with
  | nil => exact ⟨List.forall_mem_nil _, h⟩
  | cons x list ih =>
      obtain ⟨hx, hlater⟩ := List.forall_mem_cons.mp hlength
      rw [List.flatMap_cons, List.flatMap_cons, List.append_assoc, List.append_assoc] at h
      have hsum := congrArg List.length h
      simp only [List.length_append] at hsum
      have := hle list hlater
      obtain ⟨hfirst, hback⟩ := List.append_inj h (by omega)
      obtain ⟨hall, hsame⟩ := ih hlater hback
      exact ⟨List.forall_mem_cons.mpr ⟨hfirst, hall⟩, hsame⟩

/-- The lines of a text, as far as the chunks leave it whole and as it is. -/
theorem exists_lines {chunks : List (List UInt8)} {text : List Char}
    (hbytes : chunks.flatten = encode text) :
    ∃ parts last, markedLines chunks text = parts ++ [last] ∧
      (∀ line ∈ parts, WellMarked line) ∧ WellMarked last ∧ '\n' ∉ spoil last ∧
      (chunks.flatMap lossy).splitOn '\n' = (parts ++ [last]).map spoil ∧
      text.splitOn '\n' = (parts ++ [last]).map plain := by
  obtain ⟨hlossy, hwell⟩ := flatMap_lossy hbytes
  obtain ⟨hspoil, hplain⟩ := @splitOn_spoil (mark chunks text) '\n' (by decide) hwell
  have hne : markedLines chunks text ≠ [] := List.splitOnP_ne_nil _ _
  have hlines := List.dropLast_concat_getLast hne
  have hline {line : List (Char × ℕ)} (hmem : line ∈ markedLines chunks text) :
      WellMarked line ∧ '\n' ∉ spoil line := by
    have hmarks := mem_splitOnP hmem
    refine ⟨fun x hx => hwell x (hmarks x hx).1, fun hnewline => ?_⟩
    obtain ⟨x, hx, hread⟩ := List.mem_flatMap.mp hnewline
    split_ifs at hread
    · have hother := (hmarks x hx).2
      rw [← List.mem_singleton.mp hread] at hother
      exact absurd hother (by decide)
    · exact absurd (List.mem_replicate.mp hread).2 (by decide)
  have hlast := hline (List.getLast_mem hne)
  refine ⟨_, _, hlines.symm, fun line hmem => (hline (List.dropLast_subset _ hmem)).1, hlast.1,
    hlast.2, ?_, ?_⟩
  · rw [hlines, hlossy]
    exact hspoil
  · rw [plain_mark] at hplain
    rw [hlines]
    exact hplain

/-- **What is decided by the chunks**: whatever the sentinel is, the payloads that are handed on are
those of the whole stream, read line by line, just if the stream is readable. -/
theorem sse_decoding_iff {chunks : List (List UInt8)} {text : List Char}
    (hbytes : chunks.flatten = encode text) :
    (∀ sentinel, (readStream sentinel [] (chunks.map .ok)).handed = streamPayloads sentinel text) ↔
      Readable chunks text := by
  obtain ⟨parts, last, hlines, hparts, hlast, hnewline, hspoil, hplain⟩ := exists_lines hbytes
  have hcode (sentinel : Option (List Char)) :
      (readStream sentinel [] (chunks.map .ok)).handed =
        partPayloads sentinel ((parts ++ [last]).map spoil) := by
    rw [handed_readStream List.not_mem_nil, List.nil_append, hspoil]
  have hstream (sentinel : Option (List Char)) : streamPayloads sentinel text =
      payloads (fun line => readLine sentinel (trimEnd line)) ((parts ++ [last]).map plain) := by
    rw [streamPayloads, hplain]
  have hinit : (markedLines chunks text).dropLast = parts := by
    rw [hlines, List.dropLast_concat]
  have hend : (markedLines chunks text).getLast? = some last := by
    rw [hlines, List.getLast?_concat]
  constructor
  · intro hsame
    have hnone := (hstream none).symm.trans ((hsame none).symm.trans (hcode none))
    rw [payloads_none, List.map_append, List.map_append, List.map_singleton, List.map_singleton,
      partPayloads_none, readBuffer_eq hnewline, List.flatMap_append, List.flatMap_map,
      List.flatMap_map, List.flatMap_singleton] at hnone
    obtain ⟨hcomplete, hleft⟩ := eq_of_flatMap_eq
      (fun line hline => (whole_of_handed (hparts line hline)).1) (readable_of_handed hlast).1 hnone
    constructor
    · rw [hinit]
      exact fun line hline => (whole_of_handed (hparts line hline)).2 (hcomplete line hline)
    · rw [hend]
      rintro line ⟨⟩
      exact (readable_of_handed hlast).2 hleft
  · intro hread sentinel
    rw [hcode, hstream]
    apply partPayloads_eq
    · intro line hline
      exact readLine_spoil (hparts line hline) (hread.complete line (hinit ▸ hline))
    · rw [readBuffer_eq hnewline]
      exact readLeft_eq hlast (hread.left last hend)

/-- A cut inside a comment, and one between the two characters that end a line, do no harm. -/
theorem sse_decoding_comment :
    (readStream (some "[DONE]".toList) [] ([[0x3A, 0xC3], [0xA9, 0x0D],
      [0x0A, 0x64, 0x61, 0x74, 0x61, 0x3A, 0x78, 0x0A]].map .ok)).handed =
      streamPayloads (some "[DONE]".toList) ":é\r\ndata:x\n".toList := by
  refine (sse_decoding_iff (by decide)).mpr ⟨by decide, ?_⟩ (some "[DONE]".toList)
  intro line hline payload hpayload
  have hlast : (markedLines [[0x3A, 0xC3], [0xA9, 0x0D], [0x0A, 0x64, 0x61, 0x74, 0x61, 0x3A, 0x78,
      0x0A]] ":é\r\ndata:x\n".toList).getLast? = some [] := by decide
  cases hlast.symm.trans hline
  cases hpayload

/-- A character of a payload that is cut is lost, and so is a space at the end of an unfinished
line. -/
theorem sse_decoding_cut :
    (readStream none [] ([[0x64, 0x61, 0x74, 0x61, 0x3A, 0xC3], [0xA9, 0x0A]].map .ok)).handed =
        [[Utf8.replacement, Utf8.replacement]] ∧
      streamPayloads none "data:é\n".toList = [['é']] ∧
      encode "data:é\n".toList = [[0x64, 0x61, 0x74, 0x61, 0x3A, 0xC3], [0xA9, 0x0A]].flatten ∧
      (readStream none [] ([encode "data:x ".toList].map .ok)).handed = [['x']] ∧
      streamPayloads none "data:x ".toList = [['x', ' ']] := by
  decide

end HiveBear.Inference
