/-
# Little-endian byte groups

A word of a fixed number of bytes is written with its lowest byte first. Reading the group
back gives the word, as long as it fits; a buffer of such words is read group by group, and a
group that is cut off at its end is dropped.
-/

import Mathlib.Data.List.Flatten
import Mathlib.Data.UInt
import Mathlib.Tactic.Ring

namespace LittleEndian

/-- The lowest bytes of a number, lowest first. -/
def toBytes : ℕ → ℕ → List UInt8
  | 0, _ => []
  | width + 1, n => UInt8.ofNat n :: toBytes width (n / 256)

/-- The number that these bytes stand for. -/
def ofBytes : List UInt8 → ℕ
  | [] => 0
  | byte :: bytes => byte.toNat + 256 * ofBytes bytes

@[simp]
theorem length_toBytes (width n : ℕ) : (toBytes width n).length = width := by
  induction width generalizing n with
  | zero => rfl
  | succ width ih => rw [toBytes, List.length_cons, ih]

/-- What is written is read back, as long as it fits. -/
theorem ofBytes_toBytes {width n : ℕ} (hfits : n < 256 ^ width) :
    ofBytes (toBytes width n) = n := by
  induction width generalizing n with
  | zero =>
      rw [pow_zero] at hfits
      exact (Nat.lt_one_iff.mp hfits).symm
  | succ width ih =>
      have hrest : n / 256 < 256 ^ width := by
        rw [pow_succ] at hfits
        exact Nat.div_lt_of_lt_mul (by rwa [Nat.mul_comm])
      rw [toBytes, ofBytes, ih hrest, UInt8.toNat_ofNat']
      exact Nat.mod_add_div n 256

theorem ofBytes_lt (bytes : List UInt8) : ofBytes bytes < 256 ^ bytes.length := by
  induction bytes with
  | nil => exact Nat.one_pos
  | cons byte bytes ih =>
      have hbyte := byte.toNat_lt
      rw [ofBytes, List.length_cons, pow_succ]
      omega

/-- What is read is written back. -/
theorem toBytes_ofBytes (bytes : List UInt8) : toBytes bytes.length (ofBytes bytes) = bytes := by
  induction bytes with
  | nil => rfl
  | cons byte bytes ih =>
      have hbyte := byte.toNat_lt
      have hlow : UInt8.ofNat (byte.toNat + 256 * ofBytes bytes) = byte := by
        apply UInt8.toNat_inj.mp
        rw [UInt8.toNat_ofNat']
        omega
      have hrest : (byte.toNat + 256 * ofBytes bytes) / 256 = ofBytes bytes := by omega
      rw [List.length_cons, ofBytes, toBytes, hlow, hrest, ih]

/-! ## Buffers of words -/

/-- The groups of a buffer of two-byte words. -/
def words16 : List UInt8 → List UInt16
  | a :: b :: rest => UInt16.ofNat (ofBytes [a, b]) :: words16 rest
  | _ => []

/-- The groups of a buffer of four-byte words. -/
def words32 : List UInt8 → List UInt32
  | a :: b :: c :: d :: rest => UInt32.ofNat (ofBytes [a, b, c, d]) :: words32 rest
  | _ => []

/-- The bytes of a two-byte word. -/
def bytes16 (w : UInt16) : List UInt8 := toBytes 2 w.toNat

/-- The bytes of a four-byte word. -/
def bytes32 (w : UInt32) : List UInt8 := toBytes 4 w.toNat

@[simp]
theorem words16_bytes16_append (w : UInt16) (rest : List UInt8) :
    words16 (bytes16 w ++ rest) = w :: words16 rest := by
  have hread : ofBytes (toBytes 2 w.toNat) = w.toNat := ofBytes_toBytes w.toNat_lt
  show UInt16.ofNat (ofBytes (toBytes 2 w.toNat)) :: words16 rest = _
  rw [hread, UInt16.ofNat_toNat]

@[simp]
theorem words32_bytes32_append (w : UInt32) (rest : List UInt8) :
    words32 (bytes32 w ++ rest) = w :: words32 rest := by
  have hread : ofBytes (toBytes 4 w.toNat) = w.toNat := ofBytes_toBytes w.toNat_lt
  show UInt32.ofNat (ofBytes (toBytes 4 w.toNat)) :: words32 rest = _
  rw [hread, UInt32.ofNat_toNat]

/-- A buffer of two-byte words is read back. -/
theorem words16_flatMap (ws : List UInt16) : words16 (ws.flatMap bytes16) = ws := by
  induction ws with
  | nil => rfl
  | cons w ws ih => rw [List.flatMap_cons, words16_bytes16_append, ih]

/-- A buffer of four-byte words is read back. -/
theorem words32_flatMap (ws : List UInt32) : words32 (ws.flatMap bytes32) = ws := by
  induction ws with
  | nil => rfl
  | cons w ws ih => rw [List.flatMap_cons, words32_bytes32_append, ih]

end LittleEndian
