/-
# UTF-8, and what is made of what is none

`encode` writes texts as bytes. `lossy` reads bytes that need not be UTF-8, as a standard library
does: it puts one replacement character for a sequence that begins like a character and does not
go on like one, or ends too early, and one for every byte that no character begins with. `streamed`
reads bytes as they come, and gives nothing yet for a sequence that ends too early.

If the bytes of a text are cut into pieces, and each of them is read by itself, then a character
that is cut becomes replacement characters, and nothing else changes: `lossy` gives two or more of
them, `streamed` one or more.
-/

import HiveBear.Library.Texts
import Mathlib.Data.List.DropRight
import Mathlib.Data.List.Infix
import Mathlib.Tactic.SplitIfs

namespace Utf8

/-! ## Reading bytes -/

/-- The bytes of a text. -/
def encode (text : List Char) : List UInt8 := text.flatMap String.utf8EncodeChar

/-- What stands for bytes that are no character. -/
def replacement : Char := Char.ofNat 0xFFFD

/-- The beginning of a character: how many bytes it lacks, between which bounds the next one must
be, and the number of the character so far. -/
structure Unfinished where
  owed : ℕ
  low : ℕ
  high : ℕ
  value : ℕ

/-- Read a byte where a character may begin. -/
def start (byte : ℕ) : List Char × Option Unfinished :=
  if byte ≤ 0x7F then ([Char.ofNat byte], none)
  else if 0xC2 ≤ byte ∧ byte ≤ 0xDF then ([], some ⟨0, 0x80, 0xBF, byte - 0xC0⟩)
  else if 0xE0 ≤ byte ∧ byte ≤ 0xEF then
    ([], some ⟨1, if byte = 0xE0 then 0xA0 else 0x80, if byte = 0xED then 0x9F else 0xBF,
      byte - 0xE0⟩)
  else if 0xF0 ≤ byte ∧ byte ≤ 0xF4 then
    ([], some ⟨2, if byte = 0xF0 then 0x90 else 0x80, if byte = 0xF4 then 0x8F else 0xBF,
      byte - 0xF0⟩)
  else ([replacement], none)

/-- Read a byte. One that does not go on with the character begins the next one. -/
def step (before : Option Unfinished) (byte : ℕ) : List Char × Option Unfinished :=
  match before with
  | none => start byte
  | some unfinished =>
      if unfinished.low ≤ byte ∧ byte ≤ unfinished.high then
        let value := 64 * unfinished.value + (byte - 0x80)
        match unfinished.owed with
        | 0 => ([Char.ofNat value], none)
        | owed + 1 => ([], some ⟨owed, 0x80, 0xBF, value⟩)
      else (replacement :: (start byte).1, (start byte).2)

/-- Read bytes, from the beginning of a character on. -/
def readFrom : Option Unfinished → List UInt8 → List Char
  | none, [] => []
  | some _, [] => [replacement]
  | before, byte :: bytes =>
      (step before byte.toNat).1 ++ readFrom (step before byte.toNat).2 bytes

def lossy (bytes : List UInt8) : List Char := readFrom none bytes

/-- Read bytes as they come: a character that is not complete yet gives nothing. -/
def streamFrom : Option Unfinished → List UInt8 → List Char
  | _, [] => []
  | before, byte :: bytes =>
      (step before byte.toNat).1 ++ streamFrom (step before byte.toNat).2 bytes

def streamed (bytes : List UInt8) : List Char := streamFrom none bytes

example : lossy [0x61, 0xE2, 0x82, 0x62, 0x80, 0xC3, 0xA9] =
    ['a', replacement, 'b', replacement, 'é'] := by decide

example : streamed [0x62, 0x80, 0xC3, 0xA9, 0xE2, 0x82] = ['b', replacement, 'é'] := by decide

/-! ## The bytes of one character -/

/-- The bytes that follow the first one of a character. -/
def IsTail (byte : UInt8) : Prop := 0x80 ≤ byte.toNat ∧ byte.toNat ≤ 0xBF

theorem readFrom_cons (before : Option Unfinished) (byte : UInt8) (bytes : List UInt8) :
    readFrom before (byte :: bytes) =
      (step before byte.toNat).1 ++ readFrom (step before byte.toNat).2 bytes := by
  cases before <;> rfl

/-- A byte that goes on with a character that lacks one byte more. -/
theorem step_last {unfinished : Unfinished} {byte : ℕ} (howed : unfinished.owed = 0)
    (hlow : unfinished.low ≤ byte) (hhigh : byte ≤ unfinished.high) :
    step (some unfinished) byte = ([Char.ofNat (64 * unfinished.value + (byte - 0x80))], none) := by
  simp only [step, hlow, hhigh, and_self, if_true, howed]

/-- A byte that goes on with a character that lacks more. -/
theorem step_next {unfinished : Unfinished} {byte owed : ℕ} (howed : unfinished.owed = owed + 1)
    (hlow : unfinished.low ≤ byte) (hhigh : byte ≤ unfinished.high) :
    step (some unfinished) byte =
      ([], some ⟨owed, 0x80, 0xBF, 64 * unfinished.value + (byte - 0x80)⟩) := by
  simp only [step, hlow, hhigh, and_self, if_true, howed]

/-- The bytes go on with an unfinished character, and end it. -/
inductive Ends : Unfinished → List UInt8 → Char → Prop
  | last {low high value : ℕ} {byte : UInt8} (hlow : low ≤ byte.toNat)
      (hhigh : byte.toNat ≤ high) :
      Ends ⟨0, low, high, value⟩ [byte] (Char.ofNat (64 * value + (byte.toNat - 0x80)))
  | next {owed low high value : ℕ} {byte : UInt8} {bytes : List UInt8} {c : Char}
      (hlow : low ≤ byte.toNat) (hhigh : byte.toNat ≤ high)
      (rest : Ends ⟨owed, 0x80, 0xBF, 64 * value + (byte.toNat - 0x80)⟩ bytes c) :
      Ends ⟨owed + 1, low, high, value⟩ (byte :: bytes) c

/-- Bytes that end a character give it. -/
theorem readFrom_ends {unfinished : Unfinished} {bytes : List UInt8} {c : Char}
    (h : Ends unfinished bytes c) (rest : List UInt8) :
    readFrom (some unfinished) (bytes ++ rest) = c :: readFrom none rest ∧
      streamFrom (some unfinished) (bytes ++ rest) = c :: streamFrom none rest := by
  induction h with
  | last hlow hhigh =>
      rw [List.singleton_append, readFrom_cons, streamFrom, step_last rfl hlow hhigh]
      exact ⟨rfl, rfl⟩
  | next hlow hhigh _ ih =>
      rw [List.cons_append, readFrom_cons, streamFrom, step_next rfl hlow hhigh]
      exact ih

/-- If some of them are missing there is one replacement character, or nothing yet. -/
theorem readFrom_cut {unfinished : Unfinished} {front back : List UInt8} {c : Char}
    (h : Ends unfinished (front ++ back) c) (hback : back ≠ []) :
    readFrom (some unfinished) front = [replacement] ∧ streamFrom (some unfinished) front = [] := by
  induction front generalizing unfinished with
  | nil => exact ⟨rfl, rfl⟩
  | cons byte front ih =>
      rw [List.cons_append] at h
      generalize hbytes : front ++ back = bytes at h
      cases h with
      | last =>
          exact absurd (List.append_eq_nil_iff.mp hbytes).2 hback
      | next hlow hhigh rest =>
          subst hbytes
          rw [readFrom_cons, streamFrom, step_next rfl hlow hhigh]
          exact ih rest

/-- A character is one byte, or a first byte with the bytes that end it. -/
inductive Shape (c : Char) : List UInt8 → Prop
  | ascii {byte : UInt8} (h : start byte.toNat = ([c], none)) : Shape c [byte]
  | long {byte : UInt8} {bytes : List UInt8} {unfinished : Unfinished}
      (h : start byte.toNat = ([], some unfinished)) (ends : Ends unfinished bytes c)
      (tail : ∀ byte ∈ bytes, IsTail byte) (high : 0x80 ≤ c.toNat) : Shape c (byte :: bytes)

theorem toNat_ofNat {value : ℕ} (h : value < 256) : (UInt8.ofNat value).toNat = value :=
  UInt8.toNat_ofNat_of_lt' h

theorem isTail_ofNat {value : ℕ} (h : value < 64) : IsTail (UInt8.ofNat (value + 0x80)) := by
  rw [IsTail, toNat_ofNat (by omega)]
  omega

/-- The last byte of a character gives its number. -/
theorem ends_last {value low high : ℕ} {c : Char} (hlow : low ≤ c.toNat % 64 + 0x80)
    (hhigh : c.toNat % 64 + 0x80 ≤ high) (hvalue : value = c.toNat / 64) :
    Ends ⟨0, low, high, value⟩ [UInt8.ofNat (c.toNat % 64 + 0x80)] c := by
  have hbyte : (UInt8.ofNat (c.toNat % 64 + 0x80)).toNat = c.toNat % 64 + 0x80 :=
    toNat_ofNat (by omega)
  have hlast := @Ends.last low high value (UInt8.ofNat (c.toNat % 64 + 0x80))
    (by rwa [hbyte]) (by rwa [hbyte])
  rw [hbyte, show 64 * value + (c.toNat % 64 + 0x80 - 0x80) = c.toNat by omega,
    Char.ofNat_toNat] at hlast
  exact hlast

theorem ends_next {owed low high value digit : ℕ} {bytes : List UInt8} {c : Char}
    (hdigit : digit < 64) (hlow : low ≤ digit + 0x80) (hhigh : digit + 0x80 ≤ high)
    (rest : Ends ⟨owed, 0x80, 0xBF, 64 * value + digit⟩ bytes c) :
    Ends ⟨owed + 1, low, high, value⟩ (UInt8.ofNat (digit + 0x80) :: bytes) c := by
  have hbyte : (UInt8.ofNat (digit + 0x80)).toNat = digit + 0x80 := toNat_ofNat (by omega)
  refine .next (by rwa [hbyte]) (by rwa [hbyte]) ?_
  rw [hbyte, Nat.add_sub_cancel]
  exact rest

/-- **Every character has the bytes of one.** -/
theorem shape_utf8EncodeChar (c : Char) : Shape c (String.utf8EncodeChar c) := by
  have hvalid : c.toNat < 0xD800 ∨ 0xDFFF < c.toNat ∧ c.toNat < 0x110000 := c.valid
  rw [String.utf8EncodeChar]
  have hval : c.val.toNat = c.toNat := rfl
  simp only [hval]
  split_ifs with h1 h2 h3
  · refine .ascii ?_
    rw [toNat_ofNat (by omega), start, if_pos h1, Char.ofNat_toNat]
  · have hstart : start (UInt8.ofNat (c.toNat / 64 % 32 + 0xC0)).toNat =
        ([], some ⟨0, 0x80, 0xBF, c.toNat / 64⟩) := by
      rw [toNat_ofNat (by omega), start, if_neg (by omega), if_pos (by omega),
        show c.toNat / 64 % 32 + 0xC0 - 0xC0 = c.toNat / 64 by omega]
    exact .long hstart (ends_last (by omega) (by omega) rfl)
      (List.forall_mem_singleton.mpr (isTail_ofNat (by omega))) (by omega)
  · have hstart : start (UInt8.ofNat (c.toNat / 4096 % 16 + 0xE0)).toNat =
        ([], some ⟨1, if c.toNat / 4096 % 16 + 0xE0 = 0xE0 then 0xA0 else 0x80,
          if c.toNat / 4096 % 16 + 0xE0 = 0xED then 0x9F else 0xBF, c.toNat / 4096⟩) := by
      rw [toNat_ofNat (by omega), start, if_neg (by omega), if_neg (by omega), if_pos (by omega),
        show c.toNat / 4096 % 16 + 0xE0 - 0xE0 = c.toNat / 4096 by omega]
    have hlow : (if c.toNat / 4096 % 16 + 0xE0 = 0xE0 then 0xA0 else 0x80) ≤
        c.toNat / 64 % 64 + 0x80 := by split_ifs <;> omega
    have hhigh : c.toNat / 64 % 64 + 0x80 ≤
        if c.toNat / 4096 % 16 + 0xE0 = 0xED then 0x9F else 0xBF := by split_ifs <;> omega
    exact .long hstart (ends_next (by omega) hlow hhigh (ends_last (by omega) (by omega) (by omega)))
      (List.forall_mem_cons.mpr ⟨isTail_ofNat (by omega),
        List.forall_mem_singleton.mpr (isTail_ofNat (by omega))⟩) (by omega)
  · have hstart : start (UInt8.ofNat (c.toNat / 262144 % 8 + 0xF0)).toNat =
        ([], some ⟨2, if c.toNat / 262144 % 8 + 0xF0 = 0xF0 then 0x90 else 0x80,
          if c.toNat / 262144 % 8 + 0xF0 = 0xF4 then 0x8F else 0xBF, c.toNat / 262144⟩) := by
      rw [toNat_ofNat (by omega), start, if_neg (by omega), if_neg (by omega), if_neg (by omega),
        if_pos (by omega), show c.toNat / 262144 % 8 + 0xF0 - 0xF0 = c.toNat / 262144 by omega]
    have hlow : (if c.toNat / 262144 % 8 + 0xF0 = 0xF0 then 0x90 else 0x80) ≤
        c.toNat / 4096 % 64 + 0x80 := by split_ifs <;> omega
    have hhigh : c.toNat / 4096 % 64 + 0x80 ≤
        if c.toNat / 262144 % 8 + 0xF0 = 0xF4 then 0x8F else 0xBF := by split_ifs <;> omega
    have hrest : Ends ⟨1, 0x80, 0xBF, 64 * (c.toNat / 262144) + c.toNat / 4096 % 64⟩ _ c :=
      ends_next (show c.toNat / 64 % 64 < 64 by omega) (by omega) (by omega)
        (ends_last (by omega) (by omega) (by omega))
    exact .long hstart (ends_next (by omega) hlow hhigh hrest)
      (List.forall_mem_cons.mpr ⟨isTail_ofNat (by omega), List.forall_mem_cons.mpr
        ⟨isTail_ofNat (by omega), List.forall_mem_singleton.mpr (isTail_ofNat (by omega))⟩⟩)
      (by omega)

/-- A character that is complete is read. -/
theorem read_encodeChar (c : Char) (rest : List UInt8) :
    lossy (String.utf8EncodeChar c ++ rest) = c :: lossy rest ∧
      streamed (String.utf8EncodeChar c ++ rest) = c :: streamed rest := by
  have hshape := shape_utf8EncodeChar c
  generalize String.utf8EncodeChar c = bytes at hshape
  cases hshape with
  | ascii h =>
      rw [lossy, streamed, List.singleton_append, readFrom_cons, streamFrom, step, h]
      exact ⟨rfl, rfl⟩
  | long h ends _ _ =>
      rw [lossy, streamed, List.cons_append, readFrom_cons, streamFrom, step, h]
      exact readFrom_ends ends rest

/-- A text that arrives in one piece is read as it is. -/
theorem lossy_encode (text : List Char) : lossy (encode text) = text := by
  induction text with
  | nil => rfl
  | cons c text ih => rw [encode, List.flatMap_cons, (read_encodeChar c _).1, ← encode, ih]

/-- Of a character that is cut, only the first byte can begin a character. -/
theorem tails_of_cut {c : Char} {front back : List UInt8}
    (h : String.utf8EncodeChar c = front ++ back) (hfront : front ≠ []) (hback : back ≠ []) :
    (∀ byte ∈ back, IsTail byte) ∧ 0x80 ≤ c.toNat := by
  obtain ⟨first, front, rfl⟩ := List.exists_cons_of_ne_nil hfront
  have hshape := shape_utf8EncodeChar c
  rw [h, List.cons_append] at hshape
  generalize hbytes : front ++ back = bytes at hshape
  cases hshape with
  | ascii => exact absurd (List.append_eq_nil_iff.mp hbytes).2 hback
  | long hstart ends tail high =>
      subst hbytes
      exact ⟨fun byte hbyte => tail byte (List.mem_append_right _ hbyte), high⟩

/-- The beginning of a character is replaced, or waits. -/
theorem read_cut {c : Char} {front back : List UInt8}
    (h : String.utf8EncodeChar c = front ++ back) (hfront : front ≠ []) (hback : back ≠ []) :
    lossy front = [replacement] ∧ streamed front = [] := by
  obtain ⟨first, front, rfl⟩ := List.exists_cons_of_ne_nil hfront
  have hshape := shape_utf8EncodeChar c
  rw [h, List.cons_append] at hshape
  generalize hbytes : front ++ back = bytes at hshape
  cases hshape with
  | ascii => exact absurd (List.append_eq_nil_iff.mp hbytes).2 hback
  | long hstart ends tail high =>
      subst hbytes
      rw [lossy, streamed, readFrom_cons, streamFrom, step, hstart]
      exact readFrom_cut ends hback

theorem step_tail {byte : UInt8} (h : IsTail byte) :
    step none byte.toNat = ([replacement], none) := by
  obtain ⟨hlow, hhigh⟩ := h
  rw [step, start, if_neg (by omega), if_neg (by omega), if_neg (by omega), if_neg (by omega)]

/-- Bytes that no character begins with are replaced one by one. -/
theorem read_tails {tails : List UInt8} (h : ∀ byte ∈ tails, IsTail byte) (rest : List UInt8) :
    lossy (tails ++ rest) = List.replicate tails.length replacement ++ lossy rest ∧
      streamed (tails ++ rest) = List.replicate tails.length replacement ++ streamed rest := by
  induction tails with
  | nil => exact ⟨rfl, rfl⟩
  | cons byte tails ih =>
      obtain ⟨hfirst, hrest⟩ := List.forall_mem_cons.mp h
      obtain ⟨hlossy, hstreamed⟩ := ih hrest
      rw [List.cons_append, lossy, streamed, readFrom_cons, streamFrom, step_tail hfirst]
      exact ⟨congrArg (replacement :: ·) hlossy, congrArg (replacement :: ·) hstreamed⟩

/-- A way to read bytes: what is complete is read, bytes that no character begins with are replaced
one by one, and the beginning of a character gives so many replacement characters. -/
structure Reader (shown : ℕ) where
  read : List UInt8 → List Char
  nil : read [] = []
  char : ∀ c rest, read (String.utf8EncodeChar c ++ rest) = c :: read rest
  cut : ∀ {c front back}, String.utf8EncodeChar c = front ++ back → front ≠ [] → back ≠ [] →
    read front = List.replicate shown replacement
  tails : ∀ {tails}, (∀ byte ∈ tails, IsTail byte) → ∀ rest,
    read (tails ++ rest) = List.replicate tails.length replacement ++ read rest

def lossyReader : Reader 1 where
  read := lossy
  nil := rfl
  char c rest := (read_encodeChar c rest).1
  cut h hfront hback := (read_cut h hfront hback).1
  tails h rest := (read_tails h rest).1

def streamedReader : Reader 0 where
  read := streamed
  nil := rfl
  char c rest := (read_encodeChar c rest).2
  cut h hfront hback := (read_cut h hfront hback).2
  tails h rest := (read_tails h rest).2

/-! ## Pieces -/

/-- Drop bytes from the front of pieces, with the pieces that are used up. -/
def dropBytes : ℕ → List (List UInt8) → List (List UInt8)
  | _, [] => []
  | n, piece :: pieces =>
      if piece.length ≤ n then dropBytes (n - piece.length) pieces else piece.drop n :: pieces

/-- How many replacement characters are read for a character that pieces begin with; none if it is
not cut. -/
def cuts (pieces : List (List UInt8)) (c : Char) : ℕ :=
  match dropBytes 0 pieces with
  | [] => 0
  | piece :: _ => if piece.length < c.utf8Size then 1 + (c.utf8Size - piece.length) else 0

/-- The characters of a text, each with the replacement characters that are read for it. -/
def mark : List (List UInt8) → List Char → List (Char × ℕ)
  | _, [] => []
  | pieces, c :: text => (c, cuts pieces c) :: mark (dropBytes c.utf8Size pieces) text

/-- What is read for a marked text. -/
def spoil (marks : List (Char × ℕ)) : List Char :=
  marks.flatMap fun x => if x.2 = 0 then [x.1] else List.replicate x.2 replacement

theorem spoil_append (marks marks' : List (Char × ℕ)) :
    spoil (marks ++ marks') = spoil marks ++ spoil marks' :=
  List.flatMap_append

/-- What is read for a marked text where the beginning of a character that is cut gives so many
replacement characters. -/
def spoilBy (shown : ℕ) (marks : List (Char × ℕ)) : List Char :=
  marks.flatMap fun x => if x.2 = 0 then [x.1] else List.replicate (x.2 - 1 + shown) replacement

theorem spoilBy_append (shown : ℕ) (marks marks' : List (Char × ℕ)) :
    spoilBy shown (marks ++ marks') = spoilBy shown marks ++ spoilBy shown marks' :=
  List.flatMap_append

theorem spoilBy_one (marks : List (Char × ℕ)) : spoilBy 1 marks = spoil marks := by
  refine List.flatMap_congr fun x _ => ?_
  split_ifs with hwhole
  · rfl
  · rw [Nat.sub_add_cancel (Nat.one_le_iff_ne_zero.mpr hwhole)]

theorem flatten_dropBytes (n : ℕ) (pieces : List (List UInt8)) :
    (dropBytes n pieces).flatten = pieces.flatten.drop n := by
  induction pieces generalizing n with
  | nil => simp [dropBytes]
  | cons piece pieces ih =>
      rw [dropBytes, List.flatten_cons, List.drop_append]
      split_ifs with hlength
      · rw [ih, List.drop_eq_nil_of_le hlength, List.nil_append]
      · rw [List.flatten_cons, Nat.sub_eq_zero_of_le (by omega)]
        rfl

/-- Empty pieces make no difference. -/
theorem dropBytes_dropBytes_zero (n : ℕ) (pieces : List (List UInt8)) :
    dropBytes n (dropBytes 0 pieces) = dropBytes n pieces := by
  induction pieces with
  | nil => rfl
  | cons piece pieces ih =>
      rw [dropBytes]
      split_ifs with hempty
      · have hzero : piece.length = 0 := Nat.le_zero.mp hempty
        rw [hzero, ih, dropBytes, hzero, if_pos (Nat.zero_le n)]
        rfl
      · rfl

/-- The piece that is left in front is not empty. -/
theorem ne_nil_of_dropBytes {n : ℕ} {pieces rest : List (List UInt8)} {piece : List UInt8}
    (h : dropBytes n pieces = piece :: rest) : piece ≠ [] := by
  induction pieces generalizing n with
  | nil => cases h
  | cons first pieces ih =>
      rw [dropBytes] at h
      split_ifs at h with hlength
      · exact ih h
      · obtain ⟨rfl, -⟩ := List.cons.inj h
        exact List.ne_nil_of_length_pos (by rw [List.length_drop]; omega)

section

variable {shown : ℕ} (reader : Reader shown)

theorem flatMap_dropBytes_zero (pieces : List (List UInt8)) :
    (dropBytes 0 pieces).flatMap reader.read = pieces.flatMap reader.read := by
  induction pieces with
  | nil => rfl
  | cons piece pieces ih =>
      rw [dropBytes]
      split_ifs with hempty
      · have hnil : piece = [] := List.length_eq_zero_iff.mp (Nat.le_zero.mp hempty)
        subst hnil
        rw [List.flatMap_cons, reader.nil]
        exact ih
      · rfl

/-- Bytes are dropped from the front of a piece. -/
theorem flatMap_dropBytes_front (front extra : List UInt8) (pieces : List (List UInt8)) :
    (dropBytes front.length ((front ++ extra) :: pieces)).flatMap reader.read =
      reader.read extra ++ pieces.flatMap reader.read := by
  rw [dropBytes, List.length_append]
  split_ifs with hlength
  · have hnil : extra = [] := List.length_eq_zero_iff.mp (by omega)
    rw [hnil, List.length_nil, Nat.add_zero, Nat.sub_self, flatMap_dropBytes_zero reader, reader.nil,
      List.nil_append]
  · rw [List.drop_left, List.flatMap_cons]

/-- Pieces that begin with bytes that no character begins with. -/
theorem flatMap_read_tails {tails more : List UInt8} {pieces : List (List UInt8)}
    (hpieces : pieces.flatten = tails ++ more) (htails : ∀ byte ∈ tails, IsTail byte) :
    pieces.flatMap reader.read = List.replicate tails.length replacement ++
      (dropBytes tails.length pieces).flatMap reader.read := by
  induction pieces generalizing tails with
  | nil =>
      obtain ⟨rfl, -⟩ := List.append_eq_nil_iff.mp hpieces.symm
      rfl
  | cons piece pieces ih =>
      rw [List.flatten_cons] at hpieces
      rw [List.flatMap_cons]
      rcases List.append_eq_append_iff.mp hpieces with ⟨later, rfl, hlater⟩ | ⟨extra, rfl, -⟩
      · obtain ⟨hpiece, hrest⟩ := List.forall_mem_append.mp htails
        have hread := reader.tails hpiece []
        rw [List.append_nil] at hread
        rw [dropBytes, if_pos (by simp), hread, ih hlater hrest, List.length_append,
          Nat.add_sub_cancel_left, List.replicate_add, List.append_assoc, List.append_assoc,
          reader.nil, List.nil_append]
      · rw [reader.tails htails, flatMap_dropBytes_front reader, List.append_assoc]

/-- One character that pieces begin with: it is read, or replaced if it is cut. -/
theorem flatMap_read_cons {c : Char} {more : List UInt8} {pieces : List (List UInt8)}
    (hpieces : pieces.flatten = String.utf8EncodeChar c ++ more) :
    pieces.flatMap reader.read =
      spoilBy shown [(c, cuts pieces c)] ++ (dropBytes c.utf8Size pieces).flatMap reader.read ∧
    (cuts pieces c ≠ 0 → 2 ≤ cuts pieces c ∧ 0x80 ≤ c.toNat) := by
  have hflatten := flatten_dropBytes 0 pieces
  rw [List.drop_zero, hpieces] at hflatten
  have hsize := String.length_utf8EncodeChar c
  rw [← flatMap_dropBytes_zero reader, ← dropBytes_dropBytes_zero c.utf8Size, cuts]
  cases hdrop : dropBytes 0 pieces with
  | nil =>
      rw [hdrop] at hflatten
      have hpos := c.utf8Size_pos
      have hnil := (List.append_eq_nil_iff.mp hflatten.symm).1
      rw [hnil] at hsize
      exact absurd hsize (by simp; omega)
  | cons piece rest =>
      rw [hdrop, List.flatten_cons] at hflatten
      dsimp only
      split_ifs with hcut
      · obtain ⟨back, hchar, hrest⟩ : ∃ back, String.utf8EncodeChar c = piece ++ back ∧
            rest.flatten = back ++ more := by
          rcases List.append_eq_append_iff.mp hflatten with hback | ⟨extra, hpiece, -⟩
          · exact hback
          · rw [hpiece, List.length_append, hsize] at hcut
            omega
        have hlength : c.utf8Size - piece.length = back.length := by
          rw [← hsize, hchar, List.length_append, Nat.add_sub_cancel_left]
        have hback : back ≠ [] := List.ne_nil_of_length_pos (by omega)
        have hpiece : piece ≠ [] := ne_nil_of_dropBytes hdrop
        obtain ⟨htails, hhigh⟩ := tails_of_cut hchar hpiece hback
        refine ⟨?_, fun _ => ⟨by omega, hhigh⟩⟩
        rw [dropBytes, if_pos (by omega), List.flatMap_cons, reader.cut hchar hpiece hback,
          flatMap_read_tails reader hrest htails, hlength, ← List.append_assoc,
          ← List.replicate_add]
        simp [spoilBy, Nat.add_comm]
      · obtain ⟨extra, rfl⟩ : ∃ extra, piece = String.utf8EncodeChar c ++ extra := by
          rcases List.append_eq_append_iff.mp hflatten with ⟨back, hchar, -⟩ | ⟨extra, hpiece, -⟩
          · have hlength := congrArg List.length hchar
            rw [List.length_append, hsize] at hlength
            have hnil : back = [] := List.length_eq_zero_iff.mp (by omega)
            rw [hnil, List.append_nil] at hchar
            exact ⟨[], by rw [List.append_nil, hchar]⟩
          · exact ⟨extra, hpiece⟩
        refine ⟨?_, fun h => absurd rfl h⟩
        rw [← hsize, flatMap_dropBytes_front reader, List.flatMap_cons, reader.char]
        rfl

/-- Only characters that are not ASCII are cut, and each gives two replacement characters or
more. -/
def WellMarked (marks : List (Char × ℕ)) : Prop :=
  ∀ x ∈ marks, x.2 ≠ 0 → 2 ≤ x.2 ∧ 0x80 ≤ x.1.toNat

/-- **What is read in pieces** is the text, with the characters that are cut replaced. -/
theorem flatMap_read {text : List Char} {pieces : List (List UInt8)}
    (hpieces : pieces.flatten = encode text) :
    pieces.flatMap reader.read = spoilBy shown (mark pieces text) ∧ WellMarked (mark pieces text) := by
  induction text generalizing pieces with
  | nil =>
      refine ⟨?_, List.forall_mem_nil _⟩
      rw [List.flatMap_eq_nil_iff.mpr]
      · rfl
      · intro piece hpiece
        rw [List.flatten_eq_nil_iff.mp hpieces piece hpiece, reader.nil]
  | cons c text ih =>
      obtain ⟨hread, hcut⟩ := flatMap_read_cons reader hpieces
      have hdropped : (dropBytes c.utf8Size pieces).flatten = encode text := by
        rw [flatten_dropBytes, hpieces, ← String.length_utf8EncodeChar]
        exact List.drop_left
      obtain ⟨hrest, hcuts⟩ := ih hdropped
      rw [hread, hrest, mark]
      exact ⟨(spoilBy_append shown [_] _).symm, List.forall_mem_cons.mpr ⟨hcut, hcuts⟩⟩

end

theorem flatMap_lossy {text : List Char} {pieces : List (List UInt8)}
    (hpieces : pieces.flatten = encode text) :
    pieces.flatMap lossy = spoil (mark pieces text) ∧ WellMarked (mark pieces text) := by
  rw [← spoilBy_one]
  exact flatMap_read lossyReader hpieces

/-! ## What is left of a text -/

/-- The text itself. -/
def plain (marks : List (Char × ℕ)) : List Char := marks.map Prod.fst

/-- No character is cut. -/
def Whole (marks : List (Char × ℕ)) : Prop := ∀ x ∈ marks, x.2 = 0

instance (marks : List (Char × ℕ)) : Decidable (Whole marks) :=
  inferInstanceAs (Decidable (∀ x ∈ marks, x.2 = 0))

variable {marks front back : List (Char × ℕ)} {x : Char × ℕ}

theorem plain_mark (pieces : List (List UInt8)) (text : List Char) :
    plain (mark pieces text) = text := by
  induction text generalizing pieces with
  | nil => rfl
  | cons c text ih => exact congrArg (c :: ·) (ih _)

theorem wellMarked_append :
    WellMarked (front ++ back) ↔ WellMarked front ∧ WellMarked back :=
  List.forall_mem_append

theorem spoil_of_whole (h : Whole marks) : spoil marks = plain marks := by
  induction marks with
  | nil => rfl
  | cons x marks ih =>
      obtain ⟨hfirst, hrest⟩ := List.forall_mem_cons.mp h
      rw [← List.singleton_append, spoil_append, ih hrest]
      simp [spoil, plain, hfirst]

/-- A mark is a character that is not cut, or replacement characters. -/
theorem spoil_cons (h : WellMarked (x :: marks)) :
    (x.2 = 0 ∧ spoil (x :: marks) = x.1 :: spoil marks) ∨
      (2 ≤ x.2 ∧ 0x80 ≤ x.1.toNat ∧
        spoil (x :: marks) = List.replicate x.2 replacement ++ spoil marks) := by
  by_cases hwhole : x.2 = 0
  · exact Or.inl ⟨hwhole, by simp [spoil, hwhole]⟩
  · obtain ⟨htwo, hhigh⟩ := h x List.mem_cons_self hwhole
    exact Or.inr ⟨htwo, hhigh, by simp [spoil, hwhole]⟩

/-- A cut character makes the text longer. -/
theorem length_spoil (h : WellMarked marks) :
    marks.length ≤ (spoil marks).length ∧ (¬ Whole marks → marks.length < (spoil marks).length) := by
  induction marks with
  | nil => exact ⟨Nat.le_refl _, fun hcut => absurd (List.forall_mem_nil _) hcut⟩
  | cons x marks ih =>
      obtain ⟨hle, hlt⟩ := ih (List.forall_mem_cons.mp h).2
      rcases spoil_cons h with ⟨hwhole, hspoil⟩ | ⟨htwo, -, hspoil⟩
      · rw [hspoil, List.length_cons, List.length_cons]
        refine ⟨by omega, ?_⟩
        intro hcut
        have hrest : ¬ Whole marks := fun hmarks => hcut (List.forall_mem_cons.mpr ⟨hwhole, hmarks⟩)
        have := hlt hrest
        omega
      · rw [hspoil, List.length_cons, List.length_append, List.length_replicate]
        exact ⟨by omega, fun _ => by omega⟩

/-- A text with a cut character does not read as it is. -/
theorem spoil_ne_plain (h : WellMarked marks) (hcut : ¬ Whole marks) : spoil marks ≠ plain marks := by
  intro hsame
  have hlength := congrArg List.length hsame
  rw [plain, List.length_map] at hlength
  have := (length_spoil h).2 hcut
  omega

/-- A text with a cut character shows a replacement character. -/
theorem replacement_mem_spoil (h : WellMarked marks) (hcut : ¬ Whole marks) :
    replacement ∈ spoil marks := by
  induction marks with
  | nil => exact absurd (List.forall_mem_nil _) hcut
  | cons x marks ih =>
      rcases spoil_cons h with ⟨hwhole, hspoil⟩ | ⟨htwo, -, hspoil⟩
      · have hrest : ¬ Whole marks := fun hmarks => hcut (List.forall_mem_cons.mpr ⟨hwhole, hmarks⟩)
        rw [hspoil]
        exact List.mem_cons_of_mem _ (ih (List.forall_mem_cons.mp h).2 hrest)
      · rw [hspoil]
        exact List.mem_append_left _ (List.mem_replicate.mpr ⟨by omega, rfl⟩)

/-! ## Streaming every piece by itself -/

/-- No byte of a text is one of a byte order mark in UTF-16. -/
theorem lt_of_mem_encode {text : List Char} {byte : UInt8} (h : byte ∈ encode text) :
    byte.toNat < 0xFE := by
  obtain ⟨c, -, hbyte⟩ := List.mem_flatMap.mp h
  rw [String.utf8EncodeChar] at hbyte
  have hofNat (value : ℕ) (hvalue : value < 0xFE) : (UInt8.ofNat value).toNat < 0xFE := by
    rwa [toNat_ofNat (by omega)]
  split_ifs at hbyte <;> simp only [List.mem_cons, List.not_mem_nil, or_false] at hbyte
  · rw [hbyte]
    exact hofNat _ (by omega)
  · rcases hbyte with rfl | rfl <;> exact hofNat _ (by omega)
  · rcases hbyte with rfl | rfl | rfl <;> exact hofNat _ (by omega)
  · rcases hbyte with rfl | rfl | rfl | rfl <;> exact hofNat _ (by omega)

/-- A mark is a character that is not cut, or the replacement characters of one that is. -/
theorem spoilBy_cons (shown : ℕ) (h : WellMarked (x :: marks)) :
    (x.2 = 0 ∧ spoilBy shown (x :: marks) = x.1 :: spoilBy shown marks) ∨
      (2 ≤ x.2 ∧ 0x80 ≤ x.1.toNat ∧ spoilBy shown (x :: marks) =
        List.replicate (x.2 - 1 + shown) replacement ++ spoilBy shown marks) := by
  by_cases hwhole : x.2 = 0
  · exact Or.inl ⟨hwhole, by simp [spoilBy, hwhole]⟩
  · obtain ⟨htwo, hhigh⟩ := h x List.mem_cons_self hwhole
    exact Or.inr ⟨htwo, hhigh, by simp [spoilBy, hwhole]⟩

/-- A character that is cut only before its last byte, and is the one that it is replaced by, reads
as itself. -/
def Unharmed (x : Char × ℕ) : Prop := x.2 = 0 ∨ x.2 = 2 ∧ x.1 = replacement

instance (x : Char × ℕ) : Decidable (Unharmed x) :=
  inferInstanceAs (Decidable (x.2 = 0 ∨ x.2 = 2 ∧ x.1 = replacement))

theorem length_spoilBy_zero (h : WellMarked marks) : marks.length ≤ (spoilBy 0 marks).length := by
  induction marks with
  | nil => exact Nat.le_refl _
  | cons x marks ih =>
      have hle := ih (List.forall_mem_cons.mp h).2
      rcases spoilBy_cons 0 h with ⟨-, hspoil⟩ | ⟨htwo, -, hspoil⟩
      · rw [hspoil, List.length_cons, List.length_cons]
        omega
      · rw [hspoil, List.length_cons, List.length_append, List.length_replicate]
        omega

/-- What is streamed is the text just if no character is harmed. -/
theorem spoilBy_zero_eq_plain_iff (h : WellMarked marks) :
    spoilBy 0 marks = plain marks ↔ ∀ x ∈ marks, Unharmed x := by
  induction marks with
  | nil => exact iff_of_true rfl (List.forall_mem_nil _)
  | cons x marks ih =>
      have hmarks := (List.forall_mem_cons.mp h).2
      have hplain : plain (x :: marks) = x.1 :: plain marks := rfl
      rw [List.forall_mem_cons, ← ih hmarks, hplain]
      rcases spoilBy_cons 0 h with ⟨hwhole, hspoil⟩ | ⟨htwo, -, hspoil⟩
      · rw [hspoil, List.cons_inj_right]
        exact ⟨fun hrest => ⟨Or.inl hwhole, hrest⟩, fun hboth => hboth.2⟩
      · rw [hspoil]
        constructor
        · intro hsame
          have hlength := congrArg List.length hsame
          rw [List.length_append, List.length_replicate, List.length_cons, plain,
            List.length_map] at hlength
          have hlong := length_spoilBy_zero hmarks
          have hcut : x.2 = 2 := by omega
          rw [hcut] at hsame
          obtain ⟨hfirst, hrest⟩ := List.cons.inj hsame
          exact ⟨Or.inr ⟨hcut, hfirst.symm⟩, hrest⟩
        · rintro ⟨hwhole | ⟨hcut, hx⟩, hrest⟩
          · omega
          · rw [hcut, hx, hrest]
            rfl

/-- Streaming adds no character but replacement characters. -/
theorem count_spoilBy_le {c : Char} (hc : c ≠ replacement) (shown : ℕ) (marks : List (Char × ℕ)) :
    (spoilBy shown marks).count c ≤ (plain marks).count c := by
  induction marks with
  | nil => exact Nat.le_refl _
  | cons x marks ih =>
      have hplain : plain (x :: marks) = [x.1] ++ plain marks := rfl
      rw [← List.singleton_append, spoilBy_append, List.singleton_append, hplain, List.count_append,
        List.count_append]
      refine Nat.add_le_add ?_ ih
      by_cases hwhole : x.2 = 0
      · simp [spoilBy, hwhole]
      · simp [spoilBy, hwhole, List.count_replicate, Ne.symm hc]

/-- The character that marks the beginning of a text, where it is dropped. -/
def byteOrderMark : Char := Char.ofNat 0xFEFF

/-- The bytes behind a byte order mark in front of them. -/
def unmarked (bytes : List UInt8) : List UInt8 :=
  if String.utf8EncodeChar byteOrderMark <+: bytes then bytes.drop 3 else bytes

/-- A piece that begins with a byte order mark gives one less of them. -/
theorem count_streamed (piece : List UInt8) :
    (streamed (unmarked piece)).count byteOrderMark +
        (if String.utf8EncodeChar byteOrderMark <+: piece then 1 else 0) =
      (streamed piece).count byteOrderMark := by
  rw [unmarked]
  split_ifs with hmark
  · obtain ⟨rest, rfl⟩ := hmark
    have hrest : (String.utf8EncodeChar byteOrderMark ++ rest).drop 3 = rest := rfl
    rw [hrest, (read_encodeChar byteOrderMark rest).2, List.count_cons_self]
  · rfl

/-- If none is lost, no piece begins with one. -/
theorem not_marked_of_count_le {pieces : List (List UInt8)}
    (h : (pieces.flatMap streamed).count byteOrderMark ≤
      (pieces.flatMap fun piece => streamed (unmarked piece)).count byteOrderMark) :
    ∀ piece ∈ pieces, ¬ String.utf8EncodeChar byteOrderMark <+: piece := by
  have hlost (pieces : List (List UInt8)) :
      (pieces.flatMap fun piece => streamed (unmarked piece)).count byteOrderMark +
          pieces.countP (fun piece => String.utf8EncodeChar byteOrderMark <+: piece) =
        (pieces.flatMap streamed).count byteOrderMark := by
    induction pieces with
    | nil => rfl
    | cons piece pieces ih =>
        have hpiece := count_streamed piece
        rw [List.flatMap_cons, List.flatMap_cons, List.count_append, List.count_append,
          List.countP_cons, ← ih, ← hpiece]
        simp only [decide_eq_true_eq]
        omega
  have hnone := hlost pieces
  have hzero : pieces.countP (fun piece => String.utf8EncodeChar byteOrderMark <+: piece) = 0 := by
    omega
  simpa only [decide_eq_true_eq] using List.countP_eq_zero.mp hzero

/-- **Pieces of a text that are streamed each by itself**, without a byte order mark in front, give
the text just if no piece begins with such a mark, and no character is harmed. -/
theorem flatMap_streamed_unmarked_iff {text : List Char} {pieces : List (List UInt8)}
    (hpieces : pieces.flatten = encode text) :
    pieces.flatMap (fun piece => streamed (unmarked piece)) = text ↔
      (∀ piece ∈ pieces, ¬ String.utf8EncodeChar byteOrderMark <+: piece) ∧
        ∀ x ∈ mark pieces text, Unharmed x := by
  obtain ⟨hread, hmarks⟩ := flatMap_read streamedReader hpieces
  have hread : pieces.flatMap streamed = spoilBy 0 (mark pieces text) := hread
  have hnone (h : ∀ piece ∈ pieces, ¬ String.utf8EncodeChar byteOrderMark <+: piece) :
      pieces.flatMap (fun piece => streamed (unmarked piece)) = spoilBy 0 (mark pieces text) := by
    rw [← hread]
    exact List.flatMap_congr fun piece hpiece => by rw [unmarked, if_neg (h piece hpiece)]
  have hunharmed := spoilBy_zero_eq_plain_iff hmarks
  rw [plain_mark] at hunharmed
  constructor
  · intro hsame
    have hclear := not_marked_of_count_le (by
      have hcount := count_spoilBy_le (show byteOrderMark ≠ replacement by decide) 0
        (mark pieces text)
      rwa [plain_mark, ← hread, ← hsame] at hcount)
    exact ⟨hclear, hunharmed.mp (by rw [← hnone hclear, hsame])⟩
  · rintro ⟨hclear, hall⟩
    rw [hnone hclear, hunharmed.mpr hall]

/-! ## Reading what is left -/

theorem ne_replacement {c : Char} (h : c.toNat < 0x80) : replacement ≠ c := by
  rintro rfl
  exact absurd h (by decide)

/-- A text of ASCII characters begins what is left just if it begins the text, and the rest is what
is left of the rest. -/
theorem prefix_spoil_iff {start : List Char} (hstart : ∀ c ∈ start, c.toNat < 0x80)
    (h : WellMarked marks) :
    (start <+: spoil marks ↔ start <+: plain marks) ∧
      (start <+: plain marks → Whole (marks.take start.length) ∧
        (spoil marks).drop start.length = spoil (marks.drop start.length)) := by
  induction start generalizing marks with
  | nil => exact ⟨by simp, fun _ => ⟨List.forall_mem_nil _, rfl⟩⟩
  | cons c start ih =>
      obtain ⟨hc, hrest⟩ := List.forall_mem_cons.mp hstart
      cases marks with
      | nil => exact ⟨by simp [spoil, plain], fun hnone => absurd hnone (by simp [plain])⟩
      | cons x marks =>
          obtain ⟨hiff, hdrop⟩ := ih hrest (List.forall_mem_cons.mp h).2
          have hplain : c :: start <+: plain (x :: marks) ↔ c = x.1 ∧ start <+: plain marks :=
            List.cons_prefix_cons
          rw [hplain]
          rcases spoil_cons h with ⟨hwhole, hspoil⟩ | ⟨htwo, hhigh, hspoil⟩
          · rw [hspoil, List.cons_prefix_cons, hiff]
            refine ⟨Iff.rfl, ?_⟩
            rintro ⟨-, hstarts⟩
            obtain ⟨htake, hsame⟩ := hdrop hstarts
            exact ⟨List.forall_mem_cons.mpr ⟨hwhole, htake⟩, hsame⟩
          · obtain ⟨n, hn⟩ : ∃ n, x.2 = n + 1 := ⟨x.2 - 1, by omega⟩
            have hx : ¬ (c = x.1 ∧ start <+: plain marks) := by
              rintro ⟨rfl, -⟩
              omega
            refine ⟨iff_of_false ?_ hx, fun h => absurd h hx⟩
            rw [hspoil, hn, List.replicate_succ, List.cons_append, List.cons_prefix_cons]
            exact fun hsame => ne_replacement hc hsame.1.symm

/-- Cut at an ASCII character, what is left of a text is what is left of the parts. -/
theorem splitOn_spoil {sep : Char} (hsep : sep.toNat < 0x80) (h : WellMarked marks) :
    (spoil marks).splitOn sep = (marks.splitOnP (·.1 = sep)).map spoil ∧
      (plain marks).splitOn sep = (marks.splitOnP (·.1 = sep)).map plain := by
  induction marks with
  | nil => exact ⟨rfl, rfl⟩
  | cons x marks ih =>
      obtain ⟨hspoiled, hplain⟩ := ih (List.forall_mem_cons.mp h).2
      have hmarks := @List.splitOnP_cons_eq_if_modifyHead _ (fun x : Char × ℕ => x.1 = sep) x marks
      by_cases hx : x.1 = sep
      · have hwhole : spoil (x :: marks) = sep :: spoil marks := by
          rcases spoil_cons h with ⟨-, hspoil⟩ | ⟨-, hhigh, -⟩
          · rw [hspoil, hx]
          · rw [hx] at hhigh
            omega
        have hfirst : plain (x :: marks) = sep :: plain marks := congrArg (· :: plain marks) hx
        rw [hwhole, hfirst, hmarks, List.splitOn_cons_eq_if_modifyHead,
          List.splitOn_cons_eq_if_modifyHead, hspoiled, hplain]
        simp [hx, spoil, plain]
      · have hmap (f : List (Char × ℕ) → List Char) (hf : ∀ rest, f (x :: rest) = f [x] ++ f rest)
            (parts : List (List (Char × ℕ))) :
            (parts.modifyHead (x :: ·)).map f = (parts.map f).modifyHead (f [x] ++ ·) := by
          cases parts with
          | nil => rfl
          | cons part parts => exact congrArg (· :: parts.map f) (hf part)
        have hspoil (rest : List (Char × ℕ)) : spoil (x :: rest) = spoil [x] ++ spoil rest :=
          spoil_append [x] rest
        have hnone : sep ∉ spoil [x] := by
          by_cases hcut : x.2 = 0
          · simpa [spoil, hcut] using Ne.symm hx
          · have hread : spoil [x] = List.replicate x.2 replacement := by simp [spoil, hcut]
            rw [hread, List.mem_replicate]
            exact fun hmem => ne_replacement hsep hmem.2.symm
        rw [hmarks, if_neg (by simpa using hx), hspoil, Texts.splitOn_append hnone, hspoiled,
          ← hmap spoil hspoil, hmap plain (fun _ => rfl), ← hplain]
        exact ⟨rfl, Texts.splitOn_append (List.mem_singleton.not.mpr (Ne.symm hx)) (plain marks)⟩

/-- What is dropped in front of what is left. -/
theorem dropWhile_spoil {p : Char → Bool} (hp : p replacement = false) (h : WellMarked marks) :
    (spoil marks).dropWhile p = spoil (marks.dropWhile fun x => x.2 = 0 && p x.1) := by
  induction marks with
  | nil => rfl
  | cons x marks ih =>
      have hrest := ih (List.forall_mem_cons.mp h).2
      rcases spoil_cons h with ⟨hwhole, hspoil⟩ | ⟨htwo, -, hspoil⟩
      · rw [hspoil, List.dropWhile_cons, List.dropWhile_cons, hrest, ← hspoil]
        simp only [hwhole, decide_true, Bool.true_and]
        split_ifs <;> rfl
      · obtain ⟨n, hn⟩ : ∃ n, x.2 = n + 1 := ⟨x.2 - 1, by omega⟩
        rw [List.dropWhile_cons, hspoil, hn, List.replicate_succ, List.cons_append,
          List.dropWhile_cons, hp, if_neg Bool.false_ne_true]
        simp [hspoil, hn, List.replicate_succ]

/-- What is dropped behind what is left. -/
theorem rdropWhile_spoil {p : Char → Bool} (hp : p replacement = false) (h : WellMarked marks) :
    (spoil marks).rdropWhile p = spoil (marks.rdropWhile fun x => x.2 = 0 && p x.1) := by
  induction marks using List.reverseRecOn with
  | nil => rfl
  | append_singleton marks x ih =>
      obtain ⟨hmarks, hx⟩ := wellMarked_append.mp h
      rw [spoil_append, List.rdropWhile_concat]
      rcases spoil_cons hx with ⟨hwhole, hspoil⟩ | ⟨htwo, -, hspoil⟩
      · rw [hspoil]
        simp only [hwhole, decide_true, Bool.true_and]
        change (spoil marks ++ [x.1]).rdropWhile p = _
        rw [List.rdropWhile_concat]
        split_ifs
        · exact ih hmarks
        · rw [spoil_append, hspoil]
          rfl
      · obtain ⟨n, hn⟩ : ∃ n, x.2 = n + 1 := ⟨x.2 - 1, by omega⟩
        have hlast : spoil marks ++ spoil [x] =
            (spoil marks ++ List.replicate n replacement) ++ [replacement] := by
          rw [hspoil, hn, List.replicate_succ', List.append_assoc]
          simp [spoil]
        rw [hlast, List.rdropWhile_concat_neg _ _ _ (by simp [hp]), ← hlast, ← spoil_append]
        simp [hn]

/-- ASCII characters are dropped alike behind the text itself. -/
theorem rdropWhile_plain {p : Char → Bool} (hp : ∀ c, p c = true → c.toNat < 0x80)
    (h : WellMarked marks) :
    (plain marks).rdropWhile p = plain (marks.rdropWhile fun x => x.2 = 0 && p x.1) := by
  induction marks using List.reverseRecOn with
  | nil => rfl
  | append_singleton marks x ih =>
      obtain ⟨hmarks, hx⟩ := wellMarked_append.mp h
      have hlast : plain (marks ++ [x]) = plain marks ++ [x.1] := List.map_append
      have hboth : (decide (x.2 = 0) && p x.1) = p x.1 := by
        cases hdrop : p x.1 with
        | false => simp
        | true =>
            have hwhole : x.2 = 0 := by
              by_contra hcut
              have hhigh := (hx x (List.mem_singleton_self x) hcut).2
              have := hp x.1 hdrop
              omega
            simp [hwhole]
      rw [hlast, List.rdropWhile_concat, List.rdropWhile_concat]
      simp only [hboth]
      split_ifs
      · exact ih hmarks
      · exact hlast.symm

end Utf8
