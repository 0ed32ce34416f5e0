/-
# Bytes as letters

The standard base64: three bytes are four letters of six bits each, and what is left over at the end
is padded. A reader takes nothing but what a writer writes: the padding must be there, and the bits
that it stands for must be zero.
-/

import Mathlib.Data.List.Basic
import Mathlib.Data.Nat.Notation

namespace Base64

def alphabet : List Char :=
  "ABCDEFGHIJKLMNOPQRSTUVWXYZabcdefghijklmnopqrstuvwxyz0123456789+/".toList

/-- The letter of six bits. -/
def letter (bits : ℕ) : Char := alphabet.getD bits '='

/-- The six bits of a letter. -/
def bits (c : Char) : Option ℕ := alphabet.idxOf? c

/-- The bytes as letters. -/
def encode : List UInt8 → List Char
  | [] => []
  | [a] => [letter (a.toNat / 4), letter (a.toNat % 4 * 16), '=', '=']
  | [a, b] =>
      [letter (a.toNat / 4), letter (a.toNat % 4 * 16 + b.toNat / 16),
        letter (b.toNat % 16 * 4), '=']
  | a :: b :: c :: bytes =>
      letter (a.toNat / 4) :: letter (a.toNat % 4 * 16 + b.toNat / 16) ::
        letter (b.toNat % 16 * 4 + c.toNat / 64) :: letter (c.toNat % 64) :: encode bytes

/-- The byte of four letters that end with two pads. -/
def decodeOne (first second : Char) : Option (List UInt8) :=
  (bits first).bind fun a => (bits second).bind fun b =>
    if b % 16 = 0 then some [.ofNat (a * 4 + b / 16)] else none

/-- The bytes of four letters that end with one pad. -/
def decodeTwo (first second third : Char) : Option (List UInt8) :=
  (bits first).bind fun a => (bits second).bind fun b => (bits third).bind fun c =>
    if c % 4 = 0 then some [.ofNat (a * 4 + b / 16), .ofNat (b % 16 * 16 + c / 4)] else none

/-- The bytes of four letters. -/
def decodeThree (first second third fourth : Char) : Option (List UInt8) :=
  (bits first).bind fun a => (bits second).bind fun b => (bits third).bind fun c =>
    (bits fourth).map fun d =>
      [.ofNat (a * 4 + b / 16), .ofNat (b % 16 * 16 + c / 4), .ofNat (c % 4 * 64 + d)]

/-- The bytes of letters, if these are the letters of any. -/
def decode : List Char → Option (List UInt8)
  | [] => some []
  | first :: second :: third :: fourth :: letters =>
      if fourth = '=' ∧ letters = [] then
        if third = '=' then decodeOne first second else decodeTwo first second third
      else
        (decodeThree first second third fourth).bind fun bytes =>
          (decode letters).map (bytes ++ ·)
  | _ => none

/-! ## Round trip -/

theorem bits_letter {n : ℕ} (h : n < 64) : bits (letter n) = some n := by
  have hall : ∀ n : Fin 64, bits (letter n) = some n.val := by decide +kernel
  exact hall ⟨n, h⟩

/-- No letter is the pad. -/
theorem letter_ne_pad {n : ℕ} (h : n < 64) : letter n ≠ '=' := by
  have hall : ∀ n : Fin 64, letter n ≠ '=' := by decide +kernel
  exact hall ⟨n, h⟩

/-- A byte is what its bits come to. -/
theorem ofNat_eq {a : UInt8} {n : ℕ} (h : n = a.toNat) : UInt8.ofNat n = a := by
  rw [h, UInt8.ofNat_toNat]

/-- **Bytes are read as they were written.** -/
theorem decode_encode (bytes : List UInt8) : decode (encode bytes) = some bytes := by
  induction bytes using encode.induct with
  | case1 => rfl
  | case2 a =>
      have ha := a.toNat_lt
      have hfirst : a.toNat / 4 * 4 + a.toNat % 4 * 16 / 16 = a.toNat := by omega
      rw [encode, decode, if_pos ⟨rfl, rfl⟩, if_pos rfl, decodeOne, bits_letter (by omega),
        bits_letter (by omega), Option.bind_some, Option.bind_some, if_pos (by omega),
        ofNat_eq hfirst]
  | case3 a b =>
      have ha := a.toNat_lt
      have hb := b.toNat_lt
      have hfirst : a.toNat / 4 * 4 + (a.toNat % 4 * 16 + b.toNat / 16) / 16 = a.toNat := by omega
      have hsecond : (a.toNat % 4 * 16 + b.toNat / 16) % 16 * 16 + b.toNat % 16 * 4 / 4 =
          b.toNat := by omega
      rw [encode, decode, if_pos ⟨rfl, rfl⟩, if_neg (letter_ne_pad (by omega)), decodeTwo,
        bits_letter (by omega), bits_letter (by omega), bits_letter (by omega), Option.bind_some,
        Option.bind_some, Option.bind_some, if_pos (by omega), ofNat_eq hfirst,
        ofNat_eq hsecond]
  | case4 a b c bytes ih =>
      have ha := a.toNat_lt
      have hb := b.toNat_lt
      have hc := c.toNat_lt
      have hfirst : a.toNat / 4 * 4 + (a.toNat % 4 * 16 + b.toNat / 16) / 16 = a.toNat := by omega
      have hsecond : (a.toNat % 4 * 16 + b.toNat / 16) % 16 * 16 +
          (b.toNat % 16 * 4 + c.toNat / 64) / 4 = b.toNat := by omega
      have hthird : (b.toNat % 16 * 4 + c.toNat / 64) % 4 * 64 + c.toNat % 64 = c.toNat := by omega
      have hlast : ¬ (letter (c.toNat % 64) = '=' ∧ encode bytes = []) :=
        fun h => letter_ne_pad (by omega) h.1
      rw [encode, decode, if_neg hlast, decodeThree, bits_letter (by omega),
        bits_letter (by omega), bits_letter (by omega), bits_letter (by omega), Option.bind_some,
        Option.bind_some, Option.bind_some, Option.map_some, Option.bind_some, ih,
        Option.map_some, ofNat_eq hfirst, ofNat_eq hsecond, ofNat_eq hthird]
      rfl

example : String.ofList (encode [77, 97, 110, 77]) = "TWFuTQ==" := by decide +kernel

end Base64
