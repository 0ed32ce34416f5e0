/-
# Self-delimiting binary codecs

A value is written as bytes, and a reader takes it off the front of what it is given and
leaves the rest. A codec is a writer and a reader that fit together: what is written is read
back whatever follows it, and a reader that succeeds does so whatever is appended to its
input. So a value that has been cut short is never read (`decode_truncated`), which a codec
that only promises a round trip would not rule out.

The codecs are those of bincode with variable-length integers: small numbers are one byte,
larger ones a marker byte and a little-endian word; sequences and strings are preceded by
their length, options and enumerations by a tag. A value is only promised to be read back if
its bytes fit in memory, as lengths are 64-bit words.
-/

import HiveBear.Library.Entries
import HiveBear.Library.LittleEndian

namespace Bincode

open LittleEndian

/-- A writer and a reader for values of a type. -/
structure Codec (α : Type) where
  encode : α → List UInt8
  /-- Read a value off the front; the rest stays. -/
  decode : List UInt8 → Option (α × List UInt8)
  decode_encode : ∀ {a} rest, (encode a).length < 2 ^ 64 → decode (encode a ++ rest) = some (a, rest)
  decode_append : ∀ {bytes a rest} more, decode bytes = some (a, rest) →
    decode (bytes ++ more) = some (a, rest ++ more)

namespace Codec

variable {α β : Type}

/-- **A value that is cut short is not read.** -/
theorem decode_truncated (c : Codec α) {a : α} {bytes more : List UInt8}
    (hsplit : c.encode a = bytes ++ more) (hmore : more ≠ []) (hfits : (c.encode a).length < 2 ^ 64) :
    c.decode bytes = none := by
  cases hread : c.decode bytes with
  | none => rfl
  | some read =>
      have hlong := c.decode_append more hread
      have hwhole := c.decode_encode [] hfits
      rw [List.append_nil, hsplit, hlong] at hwhole
      injection hwhole with hpair
      have hrest : read.2 ++ more = [] := congrArg Prod.snd hpair
      exact absurd (List.append_eq_nil_iff.mp hrest).2 hmore

/-! ## Building blocks -/

/-- A single byte. -/
def byte : Codec UInt8 where
  encode b := [b]
  decode
    | [] => none
    | b :: rest => some (b, rest)
  decode_encode _ _ := rfl
  decode_append {bytes} _ _ _ h := by
    cases bytes with
    | nil => cases h
    | cons b bytes =>
        cases h
        rfl

/-- Nothing at all. -/
def unit : Codec Unit where
  encode _ := []
  decode bytes := some ((), bytes)
  decode_encode _ _ := rfl
  decode_append _ h := by
    cases h
    rfl

/-- Take this many bytes off the front. -/
def takeBytes (n : ℕ) (bytes : List UInt8) : Option (List UInt8 × List UInt8) :=
  if n ≤ bytes.length then some (bytes.take n, bytes.drop n) else none

theorem eq_of_takeBytes {n : ℕ} {bytes front rest : List UInt8}
    (h : takeBytes n bytes = some (front, rest)) : front.length = n ∧ bytes = front ++ rest := by
  rw [takeBytes] at h
  split at h
  · rename_i hlen
    cases h
    exact ⟨List.length_take_of_le hlen, (List.take_append_drop n bytes).symm⟩
  · cases h

theorem takeBytes_append {n : ℕ} {front : List UInt8} (h : front.length = n) (rest : List UInt8) :
    takeBytes n (front ++ rest) = some (front, rest) := by
  have hlen : n ≤ (front ++ rest).length := by
    rw [List.length_append]
    omega
  rw [takeBytes, if_pos hlen, List.take_left' h, List.drop_left' h]

theorem takeBytes_more {n : ℕ} {bytes front rest : List UInt8} (more : List UInt8)
    (h : takeBytes n bytes = some (front, rest)) :
    takeBytes n (bytes ++ more) = some (front, rest ++ more) := by
  rw [takeBytes] at h
  split at h
  · rename_i hlen
    cases h
    rw [takeBytes, if_pos (by rw [List.length_append]; omega), List.take_append_of_le_length hlen,
      List.drop_append_of_le_length hlen]
  · cases h

/-- One value after another. -/
def pair (c : Codec α) (d : Codec β) : Codec (α × β) where
  encode p := c.encode p.1 ++ d.encode p.2
  decode bytes := do
    let (a, rest) ← c.decode bytes
    let (b, rest) ← d.decode rest
    return ((a, b), rest)
  decode_encode {p} rest hfits := by
    rw [List.length_append] at hfits
    rw [List.append_assoc, c.decode_encode _ (by omega)]
    simp only [Option.bind_eq_bind, Option.bind_some]
    rw [d.decode_encode _ (by omega)]
    rfl
  decode_append {bytes p rest} more h := by
    simp only [Option.bind_eq_bind, Option.bind_eq_some_iff] at h
    obtain ⟨⟨a, front⟩, hfirst, ⟨b, back⟩, hsecond, hdone⟩ := h
    cases hdone
    rw [c.decode_append more hfirst]
    simp only [Option.bind_eq_bind, Option.bind_some]
    rw [d.decode_append more hsecond]
    rfl

/-- Values that are written as values of another type, some of which stand for none. -/
def refine (c : Codec α) (toRaw : β → α) (ofRaw : α → Option β)
    (ofRaw_toRaw : ∀ b, ofRaw (toRaw b) = some b) : Codec β where
  encode b := c.encode (toRaw b)
  decode bytes := do
    let (a, rest) ← c.decode bytes
    let b ← ofRaw a
    return (b, rest)
  decode_encode {b} rest hfits := by
    rw [c.decode_encode rest hfits]
    simp only [Option.bind_eq_bind, Option.bind_some]
    rw [ofRaw_toRaw]
    rfl
  decode_append {bytes b rest} more h := by
    simp only [Option.bind_eq_bind, Option.bind_eq_some_iff] at h
    obtain ⟨⟨a, front⟩, hraw, b', hvalue, hdone⟩ := h
    cases hdone
    rw [c.decode_append more hraw]
    simp only [Option.bind_eq_bind, Option.bind_some]
    rw [hvalue]
    rfl

/-- A fixed number of bytes. -/
def fixed (n : ℕ) : Codec {bytes : List UInt8 // bytes.length = n} where
  encode bytes := bytes.val
  decode bytes := do
    let (front, rest) ← takeBytes n bytes
    if h : front.length = n then return (⟨front, h⟩, rest) else none
  decode_encode {front} rest _ := by
    rw [takeBytes_append front.property]
    simp only [Option.bind_eq_bind, Option.bind_some]
    rw [dif_pos front.property]
    rfl
  decode_append {bytes front rest} more h := by
    simp only [Option.bind_eq_bind, Option.bind_eq_some_iff] at h
    obtain ⟨⟨taken, left⟩, htake, hdone⟩ := h
    rw [takeBytes_more more htake]
    simp only [Option.bind_eq_bind, Option.bind_some]
    split at hdone
    · rename_i hlen
      cases hdone
      rw [dif_pos hlen]
      rfl
    · cases hdone

/-- A value whose type depends on the value before it, as the payload of an enumeration does
on its tag. -/
def sigma {ι : Type} {payload : ι → Type} (c : Codec ι) (d : (i : ι) → Codec (payload i)) :
    Codec (Σ i, payload i) where
  encode p := c.encode p.1 ++ (d p.1).encode p.2
  decode bytes := do
    let (i, rest) ← c.decode bytes
    let (b, rest) ← (d i).decode rest
    return (⟨i, b⟩, rest)
  decode_encode {p} rest hfits := by
    rw [List.length_append] at hfits
    rw [List.append_assoc, c.decode_encode _ (by omega)]
    simp only [Option.bind_eq_bind, Option.bind_some]
    rw [(d p.1).decode_encode _ (by omega)]
    rfl
  decode_append {bytes p rest} more h := by
    simp only [Option.bind_eq_bind, Option.bind_eq_some_iff] at h
    obtain ⟨⟨i, front⟩, hfirst, ⟨b, back⟩, hsecond, hdone⟩ := h
    cases hdone
    rw [c.decode_append more hfirst]
    simp only [Option.bind_eq_bind, Option.bind_some]
    rw [(d i).decode_append more hsecond]
    rfl

/-- An optional value behind a tag. -/
def option (c : Codec α) : Codec (Option α) where
  encode
    | none => [0]
    | some a => 1 :: c.encode a
  decode
    | [] => none
    | tag :: rest =>
        if tag = 0 then some (none, rest)
        else if tag = 1 then (c.decode rest).map fun read => (some read.1, read.2)
        else none
  decode_encode {value} rest hfits := by
    cases value with
    | none => rfl
    | some a =>
        have hread : c.decode (c.encode a ++ rest) = some (a, rest) :=
          c.decode_encode rest (lt_of_le_of_lt (Nat.le_succ _) hfits)
        simp [hread]
  decode_append {bytes value rest} more h := by
    cases bytes with
    | nil => cases h
    | cons tag bytes =>
        simp only [List.cons_append] at h ⊢
        split at h
        · rename_i hnone
          cases h
          rw [if_pos hnone]
        · rename_i hnone
          split at h
          · rename_i hsome
            obtain ⟨read, hread, hdone⟩ := Option.map_eq_some_iff.mp h
            cases hdone
            rw [if_neg hnone, if_pos hsome, c.decode_append more hread]
            rfl
          · cases h

/-! ## Numbers -/

/-- A little-endian word. -/
def word64 : Codec UInt64 :=
  (fixed 8).refine (fun w => ⟨toBytes 8 w.toNat, length_toBytes 8 _⟩)
    (fun bytes => some (UInt64.ofNat (ofBytes bytes.val)))
    (fun w => by rw [ofBytes_toBytes w.toNat_lt, UInt64.ofNat_toNat])

/-- A little-endian half word. -/
def word32 : Codec UInt32 :=
  (fixed 4).refine (fun w => ⟨toBytes 4 w.toNat, length_toBytes 4 _⟩)
    (fun bytes => some (UInt32.ofNat (ofBytes bytes.val)))
    (fun w => by rw [ofBytes_toBytes w.toNat_lt, UInt32.ofNat_toNat])

/-- How many bytes follow a marker byte. -/
def markedWidth (marker : UInt8) : Option ℕ :=
  if marker = 251 then some 2
  else if marker = 252 then some 4
  else if marker = 253 then some 8
  else none

/-- The bytes of a number of variable length. -/
def encodeVarint (n : UInt64) : List UInt8 :=
  if n.toNat < 251 then [UInt8.ofNat n.toNat]
  else if n.toNat < 2 ^ 16 then 251 :: toBytes 2 n.toNat
  else if n.toNat < 2 ^ 32 then 252 :: toBytes 4 n.toNat
  else 253 :: toBytes 8 n.toNat

/-- Read a number of variable length. -/
def decodeVarint : List UInt8 → Option (UInt64 × List UInt8)
  | [] => none
  | marker :: rest =>
      if marker < 251 then some (UInt64.ofNat marker.toNat, rest)
      else do
        let width ← markedWidth marker
        let (bytes, rest) ← takeBytes width rest
        return (UInt64.ofNat (ofBytes bytes), rest)

/-- A number behind its marker is read back. -/
theorem decodeVarint_marked {marker : UInt8} {width : ℕ} {n : UInt64} (hmarker : ¬ marker < 251)
    (hwidth : markedWidth marker = some width) (hn : n.toNat < 256 ^ width) (rest : List UInt8) :
    decodeVarint (marker :: toBytes width n.toNat ++ rest) = some (n, rest) := by
  rw [List.cons_append, decodeVarint, if_neg hmarker, hwidth]
  simp only [Option.bind_eq_bind, Option.bind_some]
  rw [takeBytes_append (length_toBytes width _)]
  simp only [Option.bind_some]
  rw [ofBytes_toBytes hn, UInt64.ofNat_toNat]
  rfl

/-- A number of variable length. -/
def varint : Codec UInt64 where
  encode := encodeVarint
  decode := decodeVarint
  decode_encode {n} rest _ := by
    rw [encodeVarint]
    split_ifs with hbyte hword hlong
    · have hsmall : (UInt8.ofNat n.toNat).toNat = n.toNat := by
        rw [UInt8.toNat_ofNat']
        omega
      have hmarker : UInt8.ofNat n.toNat < 251 := by
        rw [UInt8.lt_iff_toNat_lt, hsmall]
        exact hbyte
      rw [List.singleton_append, decodeVarint, if_pos hmarker, hsmall, UInt64.ofNat_toNat]
    · exact decodeVarint_marked (by decide) rfl hword rest
    · exact decodeVarint_marked (by decide) rfl hlong rest
    · exact decodeVarint_marked (by decide) rfl n.toNat_lt rest
  decode_append {bytes n rest} more h := by
    cases bytes with
    | nil => cases h
    | cons marker bytes =>
        rw [decodeVarint] at h
        rw [List.cons_append, decodeVarint]
        split at h
        · rename_i hmarker
          cases h
          rw [if_pos hmarker]
        · rename_i hmarker
          simp only [Option.bind_eq_bind, Option.bind_eq_some_iff] at h
          obtain ⟨width, hwidth, ⟨front, back⟩, htake, hdone⟩ := h
          cases hdone
          rw [if_neg hmarker, hwidth]
          simp only [Option.bind_eq_bind, Option.bind_some]
          rw [takeBytes_more more htake]
          rfl

/-- A smaller unsigned number; one that does not fit is refused. -/
def u32 : Codec UInt32 :=
  varint.refine UInt32.toUInt64
    (fun n => if n.toNat < 2 ^ 32 then some n.toUInt32 else none)
    (fun n => by
      rw [if_pos (by rw [UInt32.toNat_toUInt64]; exact n.toNat_lt), UInt32.toUInt32_toUInt64])

/-- A port number. -/
def u16 : Codec UInt16 :=
  varint.refine UInt16.toUInt64
    (fun n => if n.toNat < 2 ^ 16 then some n.toUInt16 else none)
    (fun n => by
      rw [if_pos (by rw [UInt16.toNat_toUInt64]; exact n.toNat_lt), UInt16.toUInt16_toUInt64])

/-- A truth value. -/
def bool : Codec Bool :=
  byte.refine (fun b => if b then 1 else 0)
    (fun tag => if tag = 0 then some false else if tag = 1 then some true else none)
    (fun b => by cases b <;> rfl)

/-- The tag of an enumeration. -/
def variant (count : ℕ) (hcount : count ≤ 2 ^ 32) : Codec (Fin count) :=
  u32.refine (fun i => UInt32.ofNat i.val)
    (fun n => if h : n.toNat < count then some ⟨n.toNat, h⟩ else none)
    (fun i => by
      have hvalue : (UInt32.ofNat i.val).toNat = i.val :=
        UInt32.toNat_ofNat_of_lt' (lt_of_lt_of_le i.isLt hcount)
      rw [dif_pos (by rw [hvalue]; exact i.isLt)]
      exact congrArg some (Fin.ext hvalue))

/-! ## Sequences -/

/-- Read this many values. -/
def decodeMany (c : Codec α) : ℕ → List UInt8 → Option (List α × List UInt8)
  | 0, bytes => some ([], bytes)
  | n + 1, bytes => do
      let (a, rest) ← c.decode bytes
      let (values, rest) ← decodeMany c n rest
      return (a :: values, rest)

theorem decodeMany_encode (c : Codec α) (values : List α) (rest : List UInt8)
    (hfits : (values.flatMap c.encode).length < 2 ^ 64) :
    decodeMany c values.length (values.flatMap c.encode ++ rest) = some (values, rest) := by
  induction values with
  | nil => rfl
  | cons a values ih =>
      rw [List.flatMap_cons, List.length_append] at hfits
      rw [List.length_cons, decodeMany, List.flatMap_cons, List.append_assoc,
        c.decode_encode _ (by omega)]
      simp only [Option.bind_eq_bind, Option.bind_some]
      rw [ih (by omega)]
      rfl

theorem decodeMany_append (c : Codec α) {n : ℕ} {bytes rest : List UInt8} {values : List α}
    (more : List UInt8) (h : decodeMany c n bytes = some (values, rest)) :
    decodeMany c n (bytes ++ more) = some (values, rest ++ more) := by
  induction n generalizing bytes values rest with
  | zero =>
      cases h
      rfl
  | succ n ih =>
      rw [decodeMany] at h ⊢
      simp only [Option.bind_eq_bind, Option.bind_eq_some_iff] at h
      obtain ⟨⟨a, front⟩, hfirst, ⟨others, back⟩, hothers, hdone⟩ := h
      cases hdone
      rw [c.decode_append more hfirst]
      simp only [Option.bind_eq_bind, Option.bind_some]
      rw [ih hothers]
      rfl

/-- Items that take up room are no more than their bytes. -/
theorem length_le_encode (c : Codec α) (hroom : ∀ a, 1 ≤ (c.encode a).length) (values : List α) :
    values.length ≤ (values.flatMap c.encode).length := by
  induction values with
  | nil => exact le_rfl
  | cons a values ih =>
      have hitem := hroom a
      rw [List.length_cons, List.flatMap_cons, List.length_append]
      omega

/-- A sequence behind its length. Every item takes up some room, so that a sequence that fits
in memory has a length that does. -/
def seq (c : Codec α) (hroom : ∀ a, 1 ≤ (c.encode a).length) : Codec (List α) where
  encode values := varint.encode (UInt64.ofNat values.length) ++ values.flatMap c.encode
  decode bytes := do
    let (n, rest) ← varint.decode bytes
    decodeMany c n.toNat rest
  decode_encode {values} rest hfits := by
    rw [List.length_append] at hfits
    have hlength := length_le_encode c hroom values
    have hcount : (UInt64.ofNat values.length).toNat = values.length :=
      UInt64.toNat_ofNat_of_lt' (by show values.length < 2 ^ 64; omega)
    rw [List.append_assoc, varint.decode_encode _ (by omega)]
    simp only [Option.bind_eq_bind, Option.bind_some]
    rw [hcount, decodeMany_encode c values rest (by omega)]
  decode_append {bytes values rest} more h := by
    simp only [Option.bind_eq_bind, Option.bind_eq_some_iff] at h
    obtain ⟨⟨n, front⟩, hcount, hvalues⟩ := h
    rw [varint.decode_append more hcount]
    simp only [Option.bind_eq_bind, Option.bind_some]
    exact decodeMany_append c more hvalues

/-- A byte string behind its length. -/
def bytes : Codec (List UInt8) := seq byte fun _ => le_rfl

/-- A text, in UTF-8. -/
def string : Codec String :=
  bytes.refine (fun text => text.toUTF8.data.toList)
    (fun raw => String.fromUTF8? ⟨raw.toArray⟩)
    (fun text => dif_pos text.isValidUTF8)

/-- A hash map, as its entries. -/
def map {K V : Type} [DecidableEq K] (c : Codec (K × V)) (hroom : ∀ e, 1 ≤ (c.encode e).length) :
    Codec (AList fun _ : K => V) :=
  (seq c hroom).refine AList.pairs (fun entries => some (AList.ofPairs entries))
    (fun m => congrArg some (AList.ofPairs_pairs m))

/-! ## Room -/

theorem room_pair {c : Codec α} (d : Codec β) (hroom : ∀ a, 1 ≤ (c.encode a).length) (p : α × β) :
    1 ≤ ((c.pair d).encode p).length := by
  show 1 ≤ (c.encode p.1 ++ d.encode p.2).length
  rw [List.length_append]
  exact le_trans (hroom p.1) (Nat.le_add_right _ _)

theorem room_refine {c : Codec α} {toRaw : β → α} {ofRaw : α → Option β}
    {ofRaw_toRaw : ∀ b, ofRaw (toRaw b) = some b} (hroom : ∀ a, 1 ≤ (c.encode a).length) (b : β) :
    1 ≤ ((c.refine toRaw ofRaw ofRaw_toRaw).encode b).length := hroom (toRaw b)

theorem length_varint (n : UInt64) : 1 ≤ (varint.encode n).length := by
  show 1 ≤ (encodeVarint n).length
  rw [encodeVarint]
  split_ifs <;> exact Nat.succ_le_succ (Nat.zero_le _)

theorem length_seq {c : Codec α} {hroom : ∀ a, 1 ≤ (c.encode a).length} (values : List α) :
    1 ≤ ((seq c hroom).encode values).length := by
  show 1 ≤ (varint.encode _ ++ values.flatMap c.encode).length
  rw [List.length_append]
  exact le_trans (length_varint _) (Nat.le_add_right _ _)

theorem length_string (text : String) : 1 ≤ (string.encode text).length :=
  @length_seq UInt8 byte (fun _ => le_rfl) _

/-! ## Whole messages -/

/-- Write a value as a whole message, if it takes at most this many bytes. -/
def serialize (c : Codec α) (limit : ℕ) (a : α) : Option (List UInt8) :=
  if (c.encode a).length ≤ limit then some (c.encode a) else none

/-- Read a whole message of at most this many bytes. Trailing bytes are refused. -/
def deserialize (c : Codec α) (limit : ℕ) (bytes : List UInt8) : Option α :=
  match c.decode bytes with
  | some (a, []) => if bytes.length ≤ limit then some a else none
  | _ => none

/-- What is written within a limit is read within it. -/
theorem deserialize_serialize (c : Codec α) {limit : ℕ} {a : α} {bytes : List UInt8}
    (hlimit : limit < 2 ^ 64) (h : c.serialize limit a = some bytes) :
    c.deserialize limit bytes = some a := by
  rw [serialize] at h
  split at h
  · rename_i hfits
    cases h
    have hread := c.decode_encode [] (lt_of_le_of_lt hfits hlimit)
    rw [List.append_nil] at hread
    rw [deserialize, hread]
    exact if_pos hfits
  · cases h

/-- A message that has been cut short is refused. -/
theorem deserialize_truncated (c : Codec α) {limit : ℕ} {a : α} {bytes more : List UInt8}
    (hlimit : limit < 2 ^ 64) (h : c.serialize limit a = some (bytes ++ more)) (hmore : more ≠ [])
    (limit' : ℕ) : c.deserialize limit' bytes = none := by
  rw [serialize] at h
  split at h
  · rename_i hfits
    injection h with hsplit
    rw [deserialize, c.decode_truncated hsplit hmore (lt_of_le_of_lt hfits hlimit)]
  · cases h

/-! ## Sparing codecs -/

/-- What is read is not written with more bytes than it was read from. A number may have been
written with a longer word than it needs. -/
def Sparing (c : Codec α) : Prop :=
  ∀ ⦃bytes a rest⦄, c.decode bytes = some (a, rest) →
    (c.encode a).length + rest.length ≤ bytes.length

namespace Sparing

variable {c : Codec α} {d : Codec β}

theorem byte : Codec.byte.Sparing := by
  intro bytes b rest h
  cases bytes with
  | nil => cases h
  | cons b bytes =>
      cases h
      exact le_of_eq (Nat.add_comm _ _)

theorem unit : Codec.unit.Sparing := by
  intro bytes u rest h
  cases h
  exact le_of_eq (Nat.zero_add _)

theorem fixed (n : ℕ) : (Codec.fixed n).Sparing := by
  intro bytes front rest h
  obtain ⟨⟨taken, left⟩, htake, hdone⟩ := Option.bind_eq_some_iff.mp h
  obtain ⟨-, rfl⟩ := eq_of_takeBytes htake
  simp only at hdone
  split at hdone
  · cases hdone
    exact le_of_eq List.length_append.symm
  · cases hdone

theorem pair (hc : c.Sparing) (hd : d.Sparing) : (c.pair d).Sparing := by
  intro bytes p rest h
  obtain ⟨⟨a, front⟩, hfirst, hrest⟩ := Option.bind_eq_some_iff.mp h
  obtain ⟨⟨b, back⟩, hsecond, hdone⟩ := Option.bind_eq_some_iff.mp hrest
  cases hdone
  have hleft := hc hfirst
  have hright := hd hsecond
  show (c.encode a ++ d.encode b).length + _ ≤ _
  rw [List.length_append]
  omega

theorem refine {toRaw : β → α} {ofRaw : α → Option β}
    {ofRaw_toRaw : ∀ b, ofRaw (toRaw b) = some b} (hc : c.Sparing)
    (hraw : ∀ {a b}, ofRaw a = some b → toRaw b = a) :
    (c.refine toRaw ofRaw ofRaw_toRaw).Sparing := by
  intro bytes b rest h
  obtain ⟨⟨a, left⟩, hread, hrest⟩ := Option.bind_eq_some_iff.mp h
  obtain ⟨b', hvalue, hdone⟩ := Option.bind_eq_some_iff.mp hrest
  cases hdone
  show (c.encode (toRaw b)).length + _ ≤ _
  rw [hraw hvalue]
  exact hc hread

theorem sigma {ι : Type} {payload : ι → Type} {c : Codec ι} {d : (i : ι) → Codec (payload i)}
    (hc : c.Sparing) (hd : ∀ i, (d i).Sparing) : (Codec.sigma c d).Sparing := by
  intro bytes p rest h
  obtain ⟨⟨i, front⟩, hfirst, hrest⟩ := Option.bind_eq_some_iff.mp h
  obtain ⟨⟨b, back⟩, hsecond, hdone⟩ := Option.bind_eq_some_iff.mp hrest
  cases hdone
  have hleft := hc hfirst
  have hright := hd i hsecond
  show (c.encode i ++ (d i).encode b).length + _ ≤ _
  rw [List.length_append]
  omega

theorem option (hc : c.Sparing) : c.option.Sparing := by
  intro bytes value rest h
  cases bytes with
  | nil => cases h
  | cons tag bytes =>
      simp only [Codec.option] at h
      split_ifs at h with hnone hsome
      · cases h
        exact le_of_eq (Nat.add_comm _ _)
      · obtain ⟨⟨a, left⟩, hread, hdone⟩ := Option.map_eq_some_iff.mp h
        cases hdone
        have hvalue := hc hread
        show (c.encode a).length + 1 + left.length ≤ bytes.length + 1
        omega

theorem length_encodeVarint {n : UInt64} {marker : UInt8} {width : ℕ}
    (hwidth : markedWidth marker = some width) (hn : n.toNat < 256 ^ width) :
    (encodeVarint n).length ≤ 1 + width := by
  have hcase : width = 2 ∨ width = 4 ∨ width = 8 := by
    rw [markedWidth] at hwidth
    split_ifs at hwidth
    · exact Or.inl (Option.some.inj hwidth).symm
    · exact Or.inr (Or.inl (Option.some.inj hwidth).symm)
    · exact Or.inr (Or.inr (Option.some.inj hwidth).symm)
  rw [encodeVarint]
  split_ifs with hbyte hword hlong <;> simp only [List.length_cons, List.length_nil, length_toBytes]
  · omega
  · omega
  · obtain rfl | rfl | rfl := hcase <;> omega
  · obtain rfl | rfl | rfl := hcase <;> omega

theorem varint : Codec.varint.Sparing := by
  intro bytes n rest h
  cases bytes with
  | nil => cases h
  | cons marker bytes =>
      change decodeVarint (marker :: bytes) = _ at h
      show (encodeVarint n).length + _ ≤ _
      rw [decodeVarint] at h
      split at h
      · rename_i hmarker
        cases h
        have hsmall : (UInt64.ofNat marker.toNat).toNat = marker.toNat :=
          UInt64.toNat_ofNat_of_lt' (lt_trans marker.toNat_lt (by decide))
        have hbyte : (UInt64.ofNat marker.toNat).toNat < 251 := by
          rw [hsmall]
          exact UInt8.lt_iff_toNat_lt.mp hmarker
        rw [encodeVarint, if_pos hbyte]
        exact le_of_eq (Nat.add_comm _ _)
      · obtain ⟨width, hwidth, hrest⟩ := Option.bind_eq_some_iff.mp h
        obtain ⟨⟨front, back⟩, htake, hdone⟩ := Option.bind_eq_some_iff.mp hrest
        cases hdone
        obtain ⟨hlen, rfl⟩ := eq_of_takeBytes htake
        have hvalue : (UInt64.ofNat (ofBytes front)).toNat < 256 ^ width := by
          rw [← hlen]
          exact lt_of_le_of_lt (Nat.mod_le _ _) (ofBytes_lt front)
        have hlong := length_encodeVarint hwidth hvalue
        rw [List.length_cons, List.length_append, hlen]
        omega

theorem decodeMany (hc : c.Sparing) {n : ℕ} {bytes rest : List UInt8} {values : List α}
    (h : Codec.decodeMany c n bytes = some (values, rest)) :
    values.length = n ∧ (values.flatMap c.encode).length + rest.length ≤ bytes.length := by
  induction n generalizing bytes values with
  | zero =>
      cases h
      exact ⟨rfl, le_of_eq (Nat.zero_add _)⟩
  | succ n ih =>
      obtain ⟨⟨a, front⟩, hfirst, hrest⟩ := Option.bind_eq_some_iff.mp h
      obtain ⟨⟨others, back⟩, hothers, hdone⟩ := Option.bind_eq_some_iff.mp hrest
      cases hdone
      obtain ⟨hcount, hroom⟩ := ih hothers
      have hitem := hc hfirst
      rw [List.length_cons, List.flatMap_cons, List.length_append]
      exact ⟨congrArg (· + 1) hcount, by omega⟩

theorem seq {hroom : ∀ a, 1 ≤ (c.encode a).length} (hc : c.Sparing) :
    (Codec.seq c hroom).Sparing := by
  intro bytes values rest h
  obtain ⟨⟨n, front⟩, hcount, hvalues⟩ := Option.bind_eq_some_iff.mp h
  obtain ⟨hlength, hitems⟩ := hc.decodeMany hvalues
  have hnumber := varint hcount
  show (Codec.varint.encode (UInt64.ofNat values.length) ++ values.flatMap c.encode).length + _ ≤ _
  rw [hlength, UInt64.ofNat_toNat, List.length_append]
  omega

/-- The bytes of a word that has been read. -/
theorem toBytes_eq {width n : ℕ} {bytes : List UInt8} (hlen : bytes.length = width)
    (hn : n = ofBytes bytes) : toBytes width n = bytes := by
  rw [hn, ← hlen, toBytes_ofBytes]

theorem word64 : Codec.word64.Sparing := (fixed 8).refine fun {raw w} h => by
  have hlt : ofBytes raw.val < 2 ^ 64 := by
    have hraw := ofBytes_lt raw.val
    rw [raw.property] at hraw
    exact hraw.trans_le (by norm_num)
  cases h
  exact Subtype.ext (toBytes_eq raw.property (UInt64.toNat_ofNat_of_lt' hlt))

theorem word32 : Codec.word32.Sparing := (fixed 4).refine fun {raw w} h => by
  have hlt : ofBytes raw.val < 2 ^ 32 := by
    have hraw := ofBytes_lt raw.val
    rw [raw.property] at hraw
    exact hraw.trans_le (by norm_num)
  cases h
  exact Subtype.ext (toBytes_eq raw.property (UInt32.toNat_ofNat_of_lt' hlt))

theorem u32 : Codec.u32.Sparing := varint.refine fun {n w} h => by
  split at h
  · rename_i hsmall
    cases h
    exact UInt64.toNat_inj.mp (Nat.mod_eq_of_lt hsmall)
  · cases h

theorem bool : Codec.bool.Sparing := byte.refine fun {tag b} h => by
  split_ifs at h with hfalse htrue
  · cases h
    exact hfalse.symm
  · cases h
    exact htrue.symm

theorem variant (count : ℕ) (hcount : count ≤ 2 ^ 32) : (Codec.variant count hcount).Sparing :=
  u32.refine fun {n i} h => by
    split at h
    · cases h
      exact UInt32.ofNat_toNat
    · cases h

theorem bytes : Codec.bytes.Sparing := seq byte

theorem string : Codec.string.Sparing := bytes.refine fun {raw text} h => by
  rw [String.fromUTF8?] at h
  split at h
  · cases h
    rfl
  · cases h

/-- **What is read can be written again**, within the same limit. -/
theorem serialize (hc : c.Sparing) {limit : ℕ} {bytes : List UInt8} {a : α}
    (h : c.deserialize limit bytes = some a) :
    c.serialize limit a = some (c.encode a) ∧ (c.encode a).length ≤ bytes.length := by
  rw [deserialize] at h
  split at h
  · rename_i hread
    split at h
    · rename_i hlimit
      cases h
      have hshort : (c.encode a).length ≤ bytes.length := hc hread
      exact ⟨if_pos (hshort.trans hlimit), hshort⟩
    · cases h
  · cases h

end Sparing

end Codec

end Bincode
