/-
# The address in a STUN response

A server puts the address into its response twice, for old clients as it is and for new ones
combined with the cookie, so that nothing on the way replaces it. The attributes can come in
any order, with others between them, each padded to four bytes.

The parser returns the first address of version 4 that it finds, of either kind. The plain
address is meant as a fallback; in front of the combined one it is taken in its place.
-/

import HiveBear.Mesh.Nat.Stun
import Mathlib.Data.List.TakeWhile

namespace HiveBear.Mesh.Stun

open BufferReads Discovery

/-! ## Words and their bytes -/

/-- The bytes of a 16-bit word, the higher one first. -/
def octets16 (word : UInt16) : List UInt8 := (LittleEndian.toBytes 2 word.toNat).reverse

/-- The number of an address of version 4. -/
def ipNumber (ip : {bytes : List UInt8 // bytes.length = 4}) : UInt32 :=
  UInt32.ofNat (LittleEndian.ofBytes ip.val.reverse)

theorem exists_octets16 (word : UInt16) :
    ∃ high low, octets16 word = [high, low] ∧ be16 high low = word := by
  refine ⟨UInt8.ofNat (word.toNat / 256), UInt8.ofNat word.toNat, rfl, ?_⟩
  have hread := @LittleEndian.ofBytes_toBytes 2 word.toNat word.toNat_lt
  exact (congrArg UInt16.ofNat hread).trans UInt16.ofNat_toNat

theorem exists_octets (word : UInt32) :
    ∃ b0 b1 b2 b3, (octets word).val = [b0, b1, b2, b3] ∧ be32 b0 b1 b2 b3 = word := by
  refine ⟨UInt8.ofNat (word.toNat / 256 / 256 / 256), UInt8.ofNat (word.toNat / 256 / 256),
    UInt8.ofNat (word.toNat / 256), UInt8.ofNat word.toNat, rfl, ?_⟩
  have hread := @LittleEndian.ofBytes_toBytes 4 word.toNat word.toNat_lt
  exact (congrArg UInt32.ofNat hread).trans UInt32.ofNat_toNat

theorem octets_ipNumber (ip : {bytes : List UInt8 // bytes.length = 4}) :
    octets (ipNumber ip) = ip := by
  have hlength : ip.val.reverse.length = 4 := ip.val.length_reverse.trans ip.property
  have hfits := LittleEndian.ofBytes_lt ip.val.reverse
  have hback := LittleEndian.toBytes_ofBytes ip.val.reverse
  rw [hlength] at hfits hback
  apply Subtype.ext
  change (LittleEndian.toBytes 4 (ipNumber ip).toNat).reverse = ip.val
  rw [ipNumber, UInt32.toNat_ofNat_of_lt' hfits, hback, List.reverse_reverse]

/-! ## Responses -/

/-- An attribute. The address attributes have an unused byte in front; attributes of other
types, and addresses of another version, are not looked into. -/
inductive Attribute
  | xorMapped (reserved : UInt8) (ip : {bytes : List UInt8 // bytes.length = 4}) (port : UInt16)
  | mapped (reserved : UInt8) (ip : {bytes : List UInt8 // bytes.length = 4}) (port : UInt16)
  | other (type : UInt16) (value : List UInt8) (hlength : value.length < 2 ^ 16)
      (hother : type = 0x0020 ∨ type = 0x0001 → value[1]? ≠ some 0x01)

namespace Attribute

def type : Attribute → UInt16
  | xorMapped _ _ _ => 0x0020
  | mapped _ _ _ => 0x0001
  | other type _ _ _ => type

def value : Attribute → List UInt8
  | xorMapped reserved ip port =>
      [reserved, 0x01] ++ octets16 (port ^^^ 0x2112) ++ (octets (ipNumber ip ^^^ magicCookie)).val
  | mapped reserved ip port => [reserved, 0x01] ++ octets16 port ++ ip.val
  | other _ value _ _ => value

theorem length_value_lt (attr : Attribute) : attr.value.length < 2 ^ 16 := by
  cases attr with
  | xorMapped reserved ip port => simp [value, octets16, octets]
  | mapped reserved ip port => simp [value, octets16, ip.property]
  | other type value hlength hother => exact hlength

/-- The address of an attribute for new clients. -/
def xorAddress : Attribute → Option SocketAddr
  | xorMapped _ ip port => some (.v4 ip port)
  | mapped _ _ _ => none
  | other _ _ _ _ => none

/-- The address of an attribute for old clients. -/
def plainAddress : Attribute → Option SocketAddr
  | xorMapped _ _ _ => none
  | mapped _ ip port => some (.v4 ip port)
  | other _ _ _ _ => none

/-- The address of an attribute of either kind. -/
def address (attr : Attribute) : Option SocketAddr := attr.xorAddress.or attr.plainAddress

end Attribute

/-- An attribute with what stands behind it up to the next multiple of four bytes. -/
structure PaddedAttribute where
  attr : Attribute
  padding : List UInt8
  length_padding : padding.length = padded attr.value.length - attr.value.length

namespace PaddedAttribute

def bytes (a : PaddedAttribute) : List UInt8 :=
  octets16 a.attr.type ++ octets16 (UInt16.ofNat a.attr.value.length) ++ a.attr.value ++ a.padding

end PaddedAttribute

/-- A binding success response that fits into the buffer. -/
structure Response where
  transactionId : {bytes : List UInt8 // bytes.length = 12}
  attributes : List PaddedAttribute
  length_le : 20 + (attributes.flatMap PaddedAttribute.bytes).length ≤ 512

namespace Response

variable (response : Response)

/-- The attributes, one behind the other. -/
def body : List UInt8 := response.attributes.flatMap PaddedAttribute.bytes

def header : List UInt8 :=
  octets16 0x0101 ++ octets16 (UInt16.ofNat response.body.length) ++ (octets magicCookie).val ++
    response.transactionId.val

theorem length_header : response.header.length = 20 := by
  simp [header, octets16, octets, response.transactionId.property]

/-- The response as it is received. -/
def datagram : Datagram where
  bytes := response.header ++ response.body
  length_le := by
    rw [List.length_append, length_header]
    exact response.length_le

/-- The first combined address. -/
def xorAddress : Option SocketAddr :=
  response.attributes.findSome? fun a => a.attr.xorAddress

/-- The first plain address. -/
def plainAddress : Option SocketAddr :=
  response.attributes.findSome? fun a => a.attr.plainAddress

/-- The first plain address in front of any combined one. -/
def earlierPlainAddress : Option SocketAddr :=
  (response.attributes.takeWhile fun a => a.attr.xorAddress.isNone).findSome? fun a =>
    a.attr.plainAddress

/-- The combined address is returned if there is one, and otherwise the plain one. -/
structure PrefersXor : Prop where
  xor : ∀ addr, response.xorAddress = some addr → response.datagram.parse = some (.ok addr)
  fallback : response.xorAddress = none → ∀ addr, response.plainAddress = some addr →
    response.datagram.parse = some (.ok addr)

end Response

/-! ## What the parser sees -/

namespace Datagram

variable {datagram : Datagram} {pos : ℕ} {first rest : List UInt8}

/-- The bytes stand in the buffer at this position. -/
def Shows (datagram : Datagram) (pos : ℕ) (bytes : List UInt8) : Prop :=
  ∀ i (h : i < bytes.length), datagram.byte (pos + i) = bytes[i]

theorem shows_append : datagram.Shows pos (first ++ rest) ↔
    datagram.Shows pos first ∧ datagram.Shows (pos + first.length) rest := by
  constructor
  · intro h
    constructor
    · intro i hi
      have hlt : i < (first ++ rest).length := by
        rw [List.length_append]
        omega
      rw [h i hlt, List.getElem_append_left hi]
    · intro i hi
      have hlt : first.length + i < (first ++ rest).length := by
        rw [List.length_append]
        omega
      rw [Nat.add_assoc, h _ hlt, List.getElem_append_right (Nat.le_add_right _ _)]
      simp only [Nat.add_sub_cancel_left]
  · rintro ⟨hfirst, hrest⟩ i hi
    rw [List.length_append] at hi
    by_cases hlt : i < first.length
    · rw [hfirst i hlt, List.getElem_append_left hlt]
    · have hle : first.length ≤ i := Nat.not_lt.mp hlt
      have hsum : pos + i = pos + first.length + (i - first.length) := by omega
      rw [hsum, hrest _ (by omega), List.getElem_append_right hle]

/-- A received datagram shows its bytes. -/
theorem shows_bytes (datagram : Datagram) : datagram.Shows 0 datagram.bytes := by
  intro i hi
  rw [byte, buffer, Nat.zero_add, List.getD_eq_getElem?_getD, List.getElem?_append_left hi,
    List.getElem?_eq_getElem hi, Option.getD_some]

/-- A word of two bytes, seen in the buffer. -/
theorem be16_of_shows {word : UInt16} (h : datagram.Shows pos (octets16 word)) :
    be16 (datagram.byte pos) (datagram.byte (pos + 1)) = word := by
  obtain ⟨high, low, hoctets, hword⟩ := exists_octets16 word
  rw [hoctets] at h
  have hhigh : datagram.byte pos = high := h 0 Nat.two_pos
  have hlow : datagram.byte (pos + 1) = low := h 1 Nat.one_lt_two
  rw [hhigh, hlow, hword]

/-- A word of four bytes, seen in the buffer. -/
theorem be32_of_shows {word : UInt32} (h : datagram.Shows pos (octets word).val) :
    be32 (datagram.byte pos) (datagram.byte (pos + 1)) (datagram.byte (pos + 2))
      (datagram.byte (pos + 3)) = word := by
  obtain ⟨b0, b1, b2, b3, hoctets, hword⟩ := exists_octets word
  rw [hoctets] at h
  have h0 : datagram.byte pos = b0 := h 0 (by simp)
  have h1 : datagram.byte (pos + 1) = b1 := h 1 (by simp)
  have h2 : datagram.byte (pos + 2) = b2 := h 2 (by simp)
  have h3 : datagram.byte (pos + 3) = b3 := h 3 (by simp)
  rw [h0, h1, h2, h3, hword]

variable {a : PaddedAttribute}

/-- What an attribute shows of itself. -/
theorem fields_of_shows (h : datagram.Shows pos a.bytes) :
    datagram.attrType pos = a.attr.type ∧ datagram.attrLen pos = a.attr.value.length ∧
      datagram.Shows (pos + 4) a.attr.value := by
  rw [PaddedAttribute.bytes, shows_append, shows_append, shows_append] at h
  obtain ⟨⟨⟨htype, hlength⟩, hvalue⟩, -⟩ := h
  refine ⟨be16_of_shows htype, ?_, hvalue⟩
  have hword := be16_of_shows hlength
  have hread : datagram.attrLen pos = (UInt16.ofNat a.attr.value.length).toNat :=
    congrArg UInt16.toNat hword
  rw [hread, UInt16.toNat_ofNat_of_lt' a.attr.length_value_lt]

/-- The address of a version 4 attribute, seen in the buffer. -/
theorem xorMappedAddress_of_shows {ip : {bytes : List UInt8 // bytes.length = 4}} {port : UInt16}
    (hport : datagram.Shows (pos + 6) (octets16 (port ^^^ 0x2112)))
    (hip : datagram.Shows (pos + 8) (octets (ipNumber ip ^^^ magicCookie)).val) :
    datagram.decodeAt xorMappedAddress pos = .v4 ip port := by
  have hportRead := be16_of_shows hport
  have hipRead := be32_of_shows hip
  rw [decodeAt, xorMappedAddress, hportRead, hipRead, UInt16.xor_assoc, UInt16.xor_self, UInt16.xor_zero,
    UInt32.xor_assoc, UInt32.xor_self, UInt32.xor_zero, octets_ipNumber]

theorem mappedAddress_of_shows {ip : {bytes : List UInt8 // bytes.length = 4}} {port : UInt16}
    (hport : datagram.Shows (pos + 6) (octets16 port)) (hip : datagram.Shows (pos + 8) ip.val) :
    datagram.decodeAt mappedAddress pos = .v4 ip port := by
  have hportRead := be16_of_shows hport
  obtain ⟨bytes, hlength⟩ := ip
  obtain ⟨b0, b1, b2, b3, rfl⟩ := List.length_eq_four.mp hlength
  have h0 : datagram.byte (pos + 8) = b0 := hip 0 (by simp)
  have h1 : datagram.byte (pos + 9) = b1 := hip 1 (by simp)
  have h2 : datagram.byte (pos + 10) = b2 := hip 2 (by simp)
  have h3 : datagram.byte (pos + 11) = b3 := hip 3 (by simp)
  rw [decodeAt, mappedAddress, hportRead]
  simp only [h0, h1, h2, h3]

/-- **The parser sees the address of an attribute.** -/
theorem addressAt_of_shows (h : datagram.Shows pos a.bytes) :
    datagram.addressAt pos = a.attr.address := by
  obtain ⟨htype, hlength, hvalue⟩ := fields_of_shows h
  cases hattr : a.attr with
  | xorMapped reserved ip port =>
      rw [hattr] at htype hlength hvalue
      rw [Attribute.value, shows_append, shows_append] at hvalue
      obtain ⟨⟨hfront, hport⟩, hip⟩ := hvalue
      have hv4 : datagram.IsV4 pos := hfront 1 Nat.one_lt_two
      have hlen : datagram.attrLen pos = 8 := by
        rw [hlength]
        simp [Attribute.value, octets16, octets]
      have hxor : datagram.attrType pos = 0x0020 ∧ 8 ≤ datagram.attrLen pos := ⟨htype, hlen.ge⟩
      rw [addressAt]
      dsimp only
      rw [if_pos hxor, if_pos hv4, xorMappedAddress_of_shows hport hip]
      rfl
  | mapped reserved ip port =>
      rw [hattr] at htype hlength hvalue
      rw [Attribute.value, shows_append, shows_append] at hvalue
      obtain ⟨⟨hfront, hport⟩, hip⟩ := hvalue
      have hv4 : datagram.IsV4 pos := hfront 1 Nat.one_lt_two
      have hlen : datagram.attrLen pos = 8 := by
        rw [hlength]
        simp [Attribute.value, octets16, ip.property]
      have hxor : ¬ (datagram.attrType pos = 0x0020 ∧ 8 ≤ datagram.attrLen pos) := by
        have hplain : datagram.attrType pos = 0x0001 := htype
        rw [hplain]
        exact fun h => absurd h.1 (by decide)
      have hmapped : datagram.attrType pos = 0x0001 ∧ 8 ≤ datagram.attrLen pos := ⟨htype, hlen.ge⟩
      rw [addressAt]
      dsimp only
      rw [if_neg hxor, if_pos hmapped, if_pos hv4, mappedAddress_of_shows hport hip]
      rfl
  | other type value hlt hother =>
      rw [hattr] at htype hlength hvalue
      change _ = none
      rw [addressAt_eq_none_iff]
      rintro ⟨⟨haddress, hlen⟩, hv4⟩
      rw [htype] at haddress
      rw [hlength] at hlen
      have hone : 1 < value.length := Nat.lt_of_lt_of_le (by decide) hlen
      have hfamily : datagram.byte (pos + 5) = value[1] := hvalue 1 hone
      apply hother haddress
      rw [List.getElem?_eq_getElem hone, ← hfamily, hv4]

theorem length_bytes (a : PaddedAttribute) :
    a.bytes.length = 4 + padded a.attr.value.length := by
  have hle : a.attr.value.length ≤ padded a.attr.value.length := by
    rw [padded]
    omega
  have hoctets : ∀ word, (octets16 word).length = 2 := fun _ => rfl
  rw [PaddedAttribute.bytes, List.length_append, List.length_append, List.length_append, hoctets,
    hoctets, a.length_padding]
  omega

/-- What the parser makes of some attributes. -/
def answerOf (attributes : List PaddedAttribute) : Except String SocketAddr :=
  match attributes.findSome? fun a => a.attr.address with
  | some addr => .ok addr
  | none => .error "No MAPPED-ADDRESS found in STUN response"

/-- **The attributes are read one by one up to the first address.** -/
theorem result_readAttributes {attributes : List PaddedAttribute}
    (hshows : datagram.Shows pos (attributes.flatMap PaddedAttribute.bytes))
    (hend : pos + (attributes.flatMap PaddedAttribute.bytes).length = datagram.attrsEnd) :
    (readAttributes datagram.attrsEnd pos).result datagram.buffer = some (answerOf attributes) := by
  induction attributes generalizing pos with
  | nil =>
      have hover : ¬ pos + 4 ≤ datagram.attrsEnd := by
        rw [List.flatMap_nil, List.length_nil] at hend
        omega
      rw [readAttributes, if_neg hover]
      rfl
  | cons a rest ih =>
      rw [List.flatMap_cons, shows_append] at hshows
      obtain ⟨hfirst, hrest⟩ := hshows
      rw [List.flatMap_cons, List.length_append, length_bytes] at hend
      rw [length_bytes] at hrest
      obtain ⟨-, hlength, -⟩ := fields_of_shows hfirst
      have hlimit := @attrsEnd_le_limit datagram
      have hle : a.attr.value.length ≤ padded a.attr.value.length := by
        rw [padded]
        omega
      have hholds : datagram.IsAddress pos → datagram.HoldsAddress pos := by
        intro haddress
        have hlen := haddress.2
        rw [hlength] at hlen
        exact ⟨by omega, fun _ => by omega⟩
      have hread := @result_readAttribute datagram pos (by omega) hholds
      rw [readAttributes_eq (by omega), Reads.result_bind, hread, Option.bind_some,
        addressAt_of_shows hfirst, hlength, answerOf, List.findSome?_cons]
      cases a.attr.address with
      | some addr => rfl
      | none =>
          have hrun := ih hrest (by omega)
          rw [← Nat.add_assoc] at hrun
          exact hrun

end Datagram

namespace Response

variable (response : Response)

/-- What the parser makes of a response. -/
theorem parse_datagram :
    response.datagram.parse = some (Datagram.answerOf response.attributes) := by
  have hshows := response.datagram.shows_bytes
  have hbytes : response.datagram.bytes = response.header ++ response.body := rfl
  have hlength : response.datagram.bytes.length = 20 + response.body.length := by
    rw [hbytes, List.length_append, length_header]
  have hle := response.length_le
  rw [← body] at hle
  rw [hbytes, Datagram.shows_append, length_header, Nat.zero_add] at hshows
  obtain ⟨hheader, hbody⟩ := hshows
  rw [header, Datagram.shows_append, Datagram.shows_append, Datagram.shows_append] at hheader
  obtain ⟨⟨⟨-, hlengthWord⟩, hcookieWord⟩, -⟩ := hheader
  have hcookie : be32 (response.datagram.byte 4) (response.datagram.byte 5)
      (response.datagram.byte 6) (response.datagram.byte 7) = magicCookie :=
    Datagram.be32_of_shows hcookieWord
  have hannounced : response.datagram.announced = response.body.length := by
    have hword := Datagram.be16_of_shows hlengthWord
    have hread : response.datagram.announced = (UInt16.ofNat response.body.length).toNat :=
      congrArg UInt16.toNat hword
    rw [hread, UInt16.toNat_ofNat_of_lt' (by change _ < 65536; omega)]
  have hend : response.datagram.attrsEnd = 20 + response.body.length := by
    rw [Datagram.attrsEnd, hannounced, hlength, Nat.min_self]
  have hread := Datagram.result_readAttributes hbody hend.symm
  rw [Datagram.parse, parseResponse, if_neg (by omega), Datagram.result_get_bind (by omega),
    Datagram.result_get_bind (by omega), Datagram.result_get_bind (by omega),
    Datagram.result_get_bind (by omega), if_neg fun h => h hcookie,
    Datagram.result_get_bind (by omega), Datagram.result_get_bind (by omega)]
  exact hread

/-- The first address is an early plain one, or the first combined one. -/
theorem findSome?_address (attributes : List PaddedAttribute) :
    (attributes.findSome? fun a => a.attr.address) =
      ((attributes.takeWhile fun a => a.attr.xorAddress.isNone).findSome? fun a =>
        a.attr.plainAddress).or (attributes.findSome? fun a => a.attr.xorAddress) := by
  induction attributes with
  | nil => rfl
  | cons a rest ih =>
      rw [List.findSome?_cons, List.takeWhile_cons, Attribute.address]
      cases hxor : a.attr.xorAddress with
      | some addr =>
          rw [Option.isNone_some, if_neg Bool.false_ne_true, List.findSome?_nil, Option.none_or,
            List.findSome?_cons, hxor]
          rfl
      | none =>
          rw [Option.isNone_none, if_pos rfl, List.findSome?_cons, Option.none_or]
          cases a.attr.plainAddress with
          | some addr => rfl
          | none =>
              rw [ih, List.findSome?_cons, hxor]

/-- Without a combined address every plain one is early. -/
theorem earlierPlainAddress_of_none (h : response.xorAddress = none) :
    response.earlierPlainAddress = response.plainAddress := by
  have hall : (response.attributes.takeWhile fun a => a.attr.xorAddress.isNone) =
      response.attributes := by
    rw [List.takeWhile_eq_self_iff]
    intro a ha
    rw [List.findSome?_eq_none_iff.mp h a ha]
    rfl
  rw [earlierPlainAddress, hall, plainAddress]

/-- What the parser returns. -/
theorem parse_eq :
    response.datagram.parse = some
      (match response.earlierPlainAddress.or response.xorAddress with
      | some addr => .ok addr
      | none => .error "No MAPPED-ADDRESS found in STUN response") := by
  rw [parse_datagram, Datagram.answerOf, findSome?_address]
  rfl

/-- **The combined address is preferred if and only if no other plain address comes first.** -/
theorem prefersXor_iff :
    response.PrefersXor ↔
      ∀ addr plain, response.xorAddress = some addr →
        response.earlierPlainAddress = some plain → plain = addr := by
  constructor
  · intro hprefers addr plain haddr hplain
    have hparse := hprefers.xor addr haddr
    rw [parse_eq, hplain] at hparse
    cases hparse
    rfl
  · intro hearly
    constructor
    · intro addr haddr
      rw [parse_eq, haddr]
      cases hplain : response.earlierPlainAddress with
      | some plain =>
          rw [hearly addr plain haddr hplain]
          rfl
      | none => rfl
    · intro hnone addr haddr
      rw [parse_eq, response.earlierPlainAddress_of_none hnone, haddr]
      rfl

/-- A response with a plain address in front of the combined one, which was not replaced on the
way. -/
def plainFirst : Response where
  transactionId := ⟨List.replicate 12 0, rfl⟩
  attributes :=
    [⟨.mapped 0 ⟨[10, 0, 0, 1], rfl⟩ 4000, [], rfl⟩,
      ⟨.xorMapped 0 ⟨[192, 0, 2, 1], rfl⟩ 3478, [], rfl⟩]
  length_le := by decide

/-- The parser returns the plain address. -/
theorem plain_address_is_preferred : ¬ ∀ response : Response, response.PrefersXor := by
  intro h
  have hparse := (h plainFirst).xor (.v4 ⟨[192, 0, 2, 1], rfl⟩ 3478) rfl
  have hplain : plainFirst.earlierPlainAddress = some (.v4 ⟨[10, 0, 0, 1], rfl⟩ 4000) := rfl
  rw [parse_eq, hplain] at hparse
  cases hparse

end Response

end HiveBear.Mesh.Stun
