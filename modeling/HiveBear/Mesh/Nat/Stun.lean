/-
# Reading a STUN response

A node asks a server for the address under which it is seen from outside. The response is
received into a buffer of 512 bytes: a header of 20 bytes, which announces the length of the
rest, and attributes one behind the other, each with a length of its own. The node takes the
first attribute with an address of version 4.

An attribute is looked at when its own header is inside the announced bytes that were received.
Its length is taken at its word. An address attribute at the end of the response is therefore
read beyond the announced bytes, and at the end of the buffer beyond the buffer, where the node
panics.
-/

import HiveBear.Library.BufferReads
import HiveBear.Library.LittleEndian
import HiveBear.Mesh.Discovery.PeerInfo

namespace HiveBear.Mesh.Stun

open BufferReads Discovery

/-! ## Big-endian words -/

/-- The word of two bytes, the higher one first. -/
def be16 (high low : UInt8) : UInt16 := UInt16.ofNat (LittleEndian.ofBytes [low, high])

/-- The word of four bytes, the highest one first. -/
def be32 (b0 b1 b2 b3 : UInt8) : UInt32 := UInt32.ofNat (LittleEndian.ofBytes [b3, b2, b1, b0])

/-- The bytes of a word, the highest one first. -/
def octets (word : UInt32) : {bytes : List UInt8 // bytes.length = 4} :=
  ⟨(LittleEndian.toBytes 4 word.toNat).reverse, by
    rw [List.length_reverse, LittleEndian.length_toBytes]⟩

/-! ## The parser -/

def magicCookie : UInt32 := 0x2112A442

/-- The address and the port of an attribute of type `0x0020`, from the bytes behind the
family. -/
def xorMappedAddress (b2 b3 b4 b5 b6 b7 : UInt8) : SocketAddr :=
  .v4 (octets (be32 b4 b5 b6 b7 ^^^ magicCookie)) (be16 b2 b3 ^^^ 0x2112)

/-- The address and the port of an attribute of type `0x0001`. -/
def mappedAddress (b2 b3 b4 b5 b6 b7 : UInt8) : SocketAddr :=
  .v4 ⟨[b4, b5, b6, b7], rfl⟩ (be16 b2 b3)

/-- The address of an attribute, if it is of version 4. -/
def readAddress (decode : UInt8 → UInt8 → UInt8 → UInt8 → UInt8 → UInt8 → SocketAddr)
    (attrStart : ℕ) : Reads UInt8 (Option SocketAddr) := do
  let family ← Reads.get (attrStart + 1)
  if family = 0x01 then
    let b2 ← Reads.get (attrStart + 2)
    let b3 ← Reads.get (attrStart + 3)
    let b4 ← Reads.get (attrStart + 4)
    let b5 ← Reads.get (attrStart + 5)
    let b6 ← Reads.get (attrStart + 6)
    let b7 ← Reads.get (attrStart + 7)
    return some (decode b2 b3 b4 b5 b6 b7)
  else return none

/-- The attribute at this position: its address, if it has one, and its length. -/
def readAttribute (pos : ℕ) : Reads UInt8 (Option SocketAddr × ℕ) := do
  let t0 ← Reads.get pos
  let t1 ← Reads.get (pos + 1)
  let l0 ← Reads.get (pos + 2)
  let l1 ← Reads.get (pos + 3)
  let attrType := be16 t0 t1
  let attrLen := (be16 l0 l1).toNat
  let attrStart := pos + 4
  if attrType = 0x0020 ∧ 8 ≤ attrLen then
    let address ← readAddress xorMappedAddress attrStart
    return (address, attrLen)
  else if attrType = 0x0001 ∧ 8 ≤ attrLen then -- fallback
    let address ← readAddress mappedAddress attrStart
    return (address, attrLen)
  else return (none, attrLen)

/-- A length, padded to 4 bytes. -/
def padded (attrLen : ℕ) : ℕ := (attrLen + 3) / 4 * 4

/-- The attributes from this position on. The errors are texts. -/
def readAttributes (attrsEnd pos : ℕ) : Reads UInt8 (Except String SocketAddr) :=
  if pos + 4 ≤ attrsEnd then do
    let (address, attrLen) ← readAttribute pos
    match address with
    | some addr => return .ok addr
    | none => readAttributes attrsEnd (pos + 4 + padded attrLen)
  else return .error "No MAPPED-ADDRESS found in STUN response"
termination_by attrsEnd - pos

/-- Parse a response of `n` bytes. -/
def parseResponse (n : ℕ) : Reads UInt8 (Except String SocketAddr) :=
  if n < 20 then return .error "STUN response too short"
  else do
    let c0 ← Reads.get 4
    let c1 ← Reads.get 5
    let c2 ← Reads.get 6
    let c3 ← Reads.get 7
    if be32 c0 c1 c2 c3 ≠ magicCookie then return .error "Invalid STUN magic cookie"
    else
      let m0 ← Reads.get 2
      let m1 ← Reads.get 3
      let msgLen := (be16 m0 m1).toNat
      readAttributes (min (20 + msgLen) n) 20

/-- A received datagram. What is longer than the buffer is cut off. -/
structure Datagram where
  bytes : List UInt8
  length_le : bytes.length ≤ 512

namespace Datagram

variable (datagram : Datagram)

/-- The buffer behind the datagram's receipt. -/
def buffer : List UInt8 := datagram.bytes ++ List.replicate (512 - datagram.bytes.length) 0

/-- What the response says, unless the parser panics. -/
def parse : Option (Except String SocketAddr) :=
  (parseResponse datagram.bytes.length).result datagram.buffer

/-- The indices that the parser reads. -/
def used : List ℕ := (parseResponse datagram.bytes.length).used datagram.buffer

/-- A byte of the buffer. -/
def byte (i : ℕ) : UInt8 := datagram.buffer.getD i 0

/-- The length of the attributes that the header announces. -/
def announced : ℕ := (be16 (datagram.byte 2) (datagram.byte 3)).toNat

/-- Where the received ones of the announced bytes end. -/
def attrsEnd : ℕ := min (20 + datagram.announced) datagram.bytes.length

/-- Parsing the datagram is safe: there is an answer, and nothing is read outside the buffer
or beyond the attributes that the header announces. -/
structure Safe : Prop where
  answers : ∃ answer, datagram.parse = some answer
  in_buffer : ∀ i ∈ datagram.used, i < 512
  in_announced : ∀ i ∈ datagram.used, i < 20 + datagram.announced

/-- The datagram has a header with the right cookie. -/
def WellHeaded : Prop :=
  20 ≤ datagram.bytes.length ∧
    be32 (datagram.byte 4) (datagram.byte 5) (datagram.byte 6) (datagram.byte 7) = magicCookie

/-- The type of the attribute at a position. -/
def attrType (pos : ℕ) : UInt16 := be16 (datagram.byte pos) (datagram.byte (pos + 1))

/-- The length of the attribute at a position. -/
def attrLen (pos : ℕ) : ℕ := (be16 (datagram.byte (pos + 2)) (datagram.byte (pos + 3))).toNat

/-- There is an address attribute at this position, to go by its type and its length. -/
def IsAddress (pos : ℕ) : Prop :=
  (datagram.attrType pos = 0x0020 ∨ datagram.attrType pos = 0x0001) ∧ 8 ≤ datagram.attrLen pos

/-- The address is of version 4. -/
def IsV4 (pos : ℕ) : Prop := datagram.byte (pos + 5) = 0x01

instance (pos : ℕ) : Decidable (datagram.IsAddress pos) := inferInstanceAs (Decidable (_ ∧ _))

instance (pos : ℕ) : Decidable (datagram.IsV4 pos) := inferInstanceAs (Decidable (_ = _))

/-- The attributes from one position on lead to another one: the ones between are no addresses
of version 4. -/
inductive Leads : ℕ → ℕ → Prop
  | here (pos : ℕ) : Leads pos pos
  | next {pos later : ℕ} (hinside : pos + 4 ≤ datagram.attrsEnd)
      (hother : ¬ (datagram.IsAddress pos ∧ datagram.IsV4 pos))
      (hrest : Leads (pos + 4 + padded (datagram.attrLen pos)) later) : Leads pos later

/-- Where the buffer or the announced attributes end. -/
def limit : ℕ := min 512 (20 + datagram.announced)

/-- What is read of the address attribute at this position is there: its family and, for an
address of version 4, the six bytes behind it. -/
def HoldsAddress (pos : ℕ) : Prop :=
  pos + 5 < datagram.limit ∧ (datagram.IsV4 pos → pos + 11 < datagram.limit)

/-- Every address attribute that is looked at is there. -/
def HoldsAddresses : Prop :=
  datagram.WellHeaded → ∀ pos, datagram.Leads 20 pos → pos + 4 ≤ datagram.attrsEnd →
    datagram.IsAddress pos → datagram.HoldsAddress pos

/-! ## What is read -/

variable {datagram}

@[simp]
theorem length_buffer : datagram.buffer.length = 512 := by
  have hle := datagram.length_le
  rw [buffer, List.length_append, List.length_replicate]
  omega

theorem getElem?_buffer {i : ℕ} (h : i < 512) : datagram.buffer[i]? = some (datagram.byte i) := by
  have hlt : i < datagram.buffer.length := by rwa [length_buffer]
  rw [byte, List.getD_eq_getElem?_getD, List.getElem?_eq_getElem hlt, Option.getD_some]

/-- A program on the buffer stays below the limit. -/
def Within (datagram : Datagram) {α : Type} (program : Reads UInt8 α) : Prop :=
  program.Stays datagram.buffer (· < datagram.limit)

theorem lt_of_lt_limit {i : ℕ} (h : i < datagram.limit) : i < datagram.buffer.length := by
  rw [length_buffer]
  exact h.trans_le (Nat.min_le_left _ _)

theorem within_pure {α : Type} (a : α) : datagram.Within (pure a : Reads UInt8 α) :=
  Reads.stays_pure a

/-- Reading a byte and going on with it. -/
theorem within_get_bind {α : Type} (i : ℕ) (f : UInt8 → Reads UInt8 α) :
    datagram.Within (Reads.get i >>= f) ↔
      i < datagram.limit ∧ datagram.Within (f (datagram.byte i)) := by
  rw [Within, Reads.stays_get_bind fun i => lt_of_lt_limit]
  refine and_congr_right fun hi => ?_
  have hlt := lt_of_lt_limit hi
  rw [length_buffer] at hlt
  simp only [getElem?_buffer hlt, Option.some.injEq, exists_eq_left']
  rfl

theorem result_get_bind {α : Type} {i : ℕ} (h : i < 512) (f : UInt8 → Reads UInt8 α) :
    (Reads.get i >>= f).result datagram.buffer = (f (datagram.byte i)).result datagram.buffer :=
  Reads.result_get_bind (getElem?_buffer h) f

variable (datagram) in
/-- The six bytes behind the family of the attribute at a position, decoded. -/
def decodeAt (decode : UInt8 → UInt8 → UInt8 → UInt8 → UInt8 → UInt8 → SocketAddr) (pos : ℕ) :
    SocketAddr :=
  decode (datagram.byte (pos + 6)) (datagram.byte (pos + 7)) (datagram.byte (pos + 8))
    (datagram.byte (pos + 9)) (datagram.byte (pos + 10)) (datagram.byte (pos + 11))

variable (datagram) in
/-- The address of the attribute at a position, if it is an address attribute of version 4. -/
def addressAt (pos : ℕ) : Option SocketAddr :=
  let value (decode : UInt8 → UInt8 → UInt8 → UInt8 → UInt8 → UInt8 → SocketAddr) :=
    if datagram.IsV4 pos then some (datagram.decodeAt decode pos) else none
  if datagram.attrType pos = 0x0020 ∧ 8 ≤ datagram.attrLen pos then value xorMappedAddress
  else if datagram.attrType pos = 0x0001 ∧ 8 ≤ datagram.attrLen pos then value mappedAddress
  else none

theorem addressAt_eq_none_iff {pos : ℕ} :
    datagram.addressAt pos = none ↔ ¬ (datagram.IsAddress pos ∧ datagram.IsV4 pos) := by
  rw [addressAt, IsAddress, or_and_right]
  split_ifs with hxor hv4 hmapped hv4
  · simp [hxor, hv4]
  · simp [hv4]
  · simp [hmapped, hv4]
  · simp [hv4]
  · simp [hxor, hmapped]

/-- Reading an address. -/
theorem within_readAddress
    (decode : UInt8 → UInt8 → UInt8 → UInt8 → UInt8 → UInt8 → SocketAddr) (pos : ℕ) :
    datagram.Within (readAddress decode (pos + 4)) ↔ datagram.HoldsAddress pos := by
  rw [readAddress, within_get_bind, HoldsAddress, IsV4]
  refine and_congr_right fun _ => ?_
  split_ifs with hv4
  · simp only [within_get_bind, within_pure, hv4, forall_const, and_true]
    omega
  · simp only [within_pure, hv4, false_implies]

theorem result_readAddress
    (decode : UInt8 → UInt8 → UInt8 → UInt8 → UInt8 → UInt8 → SocketAddr) {pos : ℕ}
    (h : datagram.HoldsAddress pos) :
    (readAddress decode (pos + 4)).result datagram.buffer =
      some (if datagram.IsV4 pos then some (datagram.decodeAt decode pos) else none) := by
  have hlimit : datagram.limit ≤ 512 := Nat.min_le_left _ _
  obtain ⟨hfamily, hrest⟩ := h
  rw [readAddress, result_get_bind (by omega)]
  by_cases hv4 : datagram.IsV4 pos
  · have hlast := hrest hv4
    have hone : datagram.byte (pos + 4 + 1) = 0x01 := hv4
    rw [if_pos hone, if_pos hv4, result_get_bind (by omega), result_get_bind (by omega),
      result_get_bind (by omega), result_get_bind (by omega), result_get_bind (by omega),
      result_get_bind (by omega)]
    rfl
  · have hother : ¬ datagram.byte (pos + 4 + 1) = 0x01 := hv4
    rw [if_neg hother, if_neg hv4]
    rfl

/-- Reading an attribute whose own header is there. -/
theorem within_readAttribute {pos : ℕ} (hpos : pos + 4 ≤ datagram.limit) :
    datagram.Within (readAttribute pos) ↔
      (datagram.IsAddress pos → datagram.HoldsAddress pos) := by
  have hpart : ∀ decode, datagram.Within (do
      let address ← readAddress decode (pos + 4)
      return (address, datagram.attrLen pos)) ↔ datagram.HoldsAddress pos := by
    intro decode
    rw [Within, Reads.stays_bind, ← Within, within_readAddress]
    exact and_iff_left fun _ _ => Reads.stays_pure _
  simp only [readAttribute, within_get_bind]
  rw [and_iff_right (by omega), and_iff_right (by omega), and_iff_right (by omega),
    and_iff_right (by omega), IsAddress, or_and_right]
  split_ifs with hxor hmapped
  · rw [show (datagram.attrType pos = 0x0020 ∧ 8 ≤ datagram.attrLen pos) = True from
      eq_true hxor]
    exact (hpart _).trans (by simp)
  · exact (hpart _).trans ⟨fun h _ => h, fun h => h (Or.inr hmapped)⟩
  · exact iff_of_true (within_pure _) fun h => (h.elim hxor hmapped).elim

theorem result_readAttribute {pos : ℕ} (hpos : pos + 4 ≤ datagram.limit)
    (h : datagram.IsAddress pos → datagram.HoldsAddress pos) :
    (readAttribute pos).result datagram.buffer =
      some (datagram.addressAt pos, datagram.attrLen pos) := by
  have hlimit : datagram.limit ≤ 512 := Nat.min_le_left _ _
  rw [readAttribute, result_get_bind (by omega), result_get_bind (by omega),
    result_get_bind (by omega), result_get_bind (by omega), addressAt]
  have hpart : ∀ decode, datagram.IsAddress pos →
      (do let address ← readAddress decode (pos + 4)
          return (address, datagram.attrLen pos)).result datagram.buffer =
        some (if datagram.IsV4 pos then some (datagram.decodeAt decode pos) else none,
          datagram.attrLen pos) := by
    intro decode haddress
    rw [Reads.result_bind, result_readAddress decode (h haddress), Option.bind_some]
    rfl
  change Reads.result datagram.buffer
    (if datagram.attrType pos = 0x0020 ∧ 8 ≤ datagram.attrLen pos then do
      let address ← readAddress xorMappedAddress (pos + 4)
      return (address, datagram.attrLen pos)
    else if datagram.attrType pos = 0x0001 ∧ 8 ≤ datagram.attrLen pos then do
      let address ← readAddress mappedAddress (pos + 4)
      return (address, datagram.attrLen pos)
    else return (none, datagram.attrLen pos)) = _
  by_cases hxor : datagram.attrType pos = 0x0020 ∧ 8 ≤ datagram.attrLen pos
  · rw [if_pos hxor, if_pos hxor]
    exact hpart _ ⟨Or.inl hxor.1, hxor.2⟩
  · rw [if_neg hxor, if_neg hxor]
    by_cases hmapped : datagram.attrType pos = 0x0001 ∧ 8 ≤ datagram.attrLen pos
    · rw [if_pos hmapped, if_pos hmapped]
      exact hpart _ ⟨Or.inr hmapped.1, hmapped.2⟩
    · rw [if_neg hmapped, if_neg hmapped]
      rfl

theorem attrsEnd_le_limit : datagram.attrsEnd ≤ datagram.limit := by
  have hle := datagram.length_le
  rw [attrsEnd, limit]
  omega

/-- One attribute and then the rest. -/
theorem readAttributes_eq {attrsEnd pos : ℕ} (h : pos + 4 ≤ attrsEnd) :
    readAttributes attrsEnd pos = readAttribute pos >>= fun found =>
      match found.1 with
      | some addr => pure (.ok addr)
      | none => readAttributes attrsEnd (pos + 4 + padded found.2) := by
  rw [readAttributes, if_pos h]

/-- **The attributes from a position on are read within the limit just if every address
attribute that they lead to is there.** -/
theorem within_readAttributes (pos : ℕ) :
    datagram.Within (readAttributes datagram.attrsEnd pos) ↔
      ∀ later, datagram.Leads pos later → later + 4 ≤ datagram.attrsEnd →
        datagram.IsAddress later → datagram.HoldsAddress later := by
  induction h : datagram.attrsEnd - pos using Nat.strong_induction_on generalizing pos with
  | _ left ih =>
  by_cases hinside : pos + 4 ≤ datagram.attrsEnd
  · have hlimit := hinside.trans attrsEnd_le_limit
    have hrest := ih _ (by omega) (pos + 4 + padded (datagram.attrLen pos)) rfl
    rw [readAttributes_eq hinside, Within, Reads.stays_bind, ← Within,
      within_readAttribute hlimit]
    constructor
    · rintro ⟨hhere, hlater⟩ later hleads
      cases hleads with
      | here => exact fun _ => hhere
      | next _ hother hnext =>
          have hresult := hlater _ (result_readAttribute hlimit hhere)
          rw [addressAt_eq_none_iff.mpr hother] at hresult
          exact hrest.mp hresult later hnext
    · intro hall
      have hhere := hall pos (.here pos) hinside
      refine ⟨hhere, ?_⟩
      rw [result_readAttribute hlimit hhere]
      rintro _ ⟨⟩
      cases haddress : datagram.addressAt pos with
      | some addr => exact Reads.stays_pure _
      | none =>
          have hother := addressAt_eq_none_iff.mp haddress
          exact hrest.mpr fun later hleads => hall later (.next hinside hother hleads)
  · rw [readAttributes, if_neg hinside]
    refine iff_of_true (within_pure _) ?_
    intro later hleads hlater
    cases hleads with
    | here => exact absurd hlater hinside
    | next hinside' _ _ => exact absurd hinside' hinside

/-- The whole response is read within the limit just if its address attributes are there. -/
theorem within_parseResponse :
    datagram.Within (parseResponse datagram.bytes.length) ↔ datagram.HoldsAddresses := by
  rw [parseResponse]
  split_ifs with hshort
  · exact iff_of_true (within_pure _) fun hheaded => absurd hheaded.1 (Nat.not_le.mpr hshort)
  · have hlong : 20 ≤ datagram.bytes.length := Nat.not_lt.mp hshort
    have hle := datagram.length_le
    have hlimit : 20 ≤ datagram.limit := by
      rw [limit]
      omega
    simp only [within_get_bind]
    rw [and_iff_right (by omega), and_iff_right (by omega), and_iff_right (by omega),
      and_iff_right (by omega)]
    split_ifs with hcookie
    · exact iff_of_true (within_pure _) fun hheaded => absurd hheaded.2 hcookie
    · simp only [within_get_bind]
      rw [and_iff_right (by omega), and_iff_right (by omega)]
      have hheaded : datagram.WellHeaded := ⟨hlong, Classical.not_not.mp hcookie⟩
      exact (within_readAttributes 20).trans ⟨fun h _ => h, fun h => h hheaded⟩

/-- Parsing is safe just if the response is read within the limit. -/
theorem safe_iff_within :
    datagram.Safe ↔ datagram.Within (parseResponse datagram.bytes.length) := by
  constructor
  · intro hsafe i hi
    exact lt_min (hsafe.in_buffer i hi) (hsafe.in_announced i hi)
  · intro hwithin
    refine ⟨Reads.exists_result_of_stays hwithin fun i => lt_of_lt_limit, ?_, ?_⟩
    · intro i hi
      exact (hwithin i hi).trans_le (Nat.min_le_left _ _)
    · intro i hi
      exact (hwithin i hi).trans_le (Nat.min_le_right _ _)

variable (datagram) in
/-- **Parsing a response is safe if and only if every address attribute that is looked at is
there**, in the buffer and among the attributes that the header announces. -/
theorem safe_iff_holdsAddresses : datagram.Safe ↔ datagram.HoldsAddresses :=
  safe_iff_within.trans within_parseResponse

/-- A response that fills the buffer: a long attribute of no known type, and the header of an
address attribute as its last four bytes. -/
def headerAtTheEnd : Datagram where
  bytes := [0x01, 0x01, 0x01, 0xEC, 0x21, 0x12, 0xA4, 0x42] ++ List.replicate 12 0 ++
    [0xFF, 0xFF, 0x01, 0xE4] ++ List.replicate 484 0 ++ [0x00, 0x20, 0x00, 0x08]
  length_le := by
    simp only [List.length_append, List.length_replicate, List.length_cons, List.length_nil]
    omega

theorem headerAtTheEnd_fields :
    headerAtTheEnd.announced = 492 ∧ headerAtTheEnd.attrLen 20 = 484 ∧
      ¬ headerAtTheEnd.IsAddress 20 ∧ headerAtTheEnd.IsAddress 508 := by
  decide +kernel

/-- It makes the parser read outside the buffer. -/
theorem headerAtTheEnd_parse : headerAtTheEnd.parse = none := by
  obtain ⟨hannounced, hlength, hother, haddress⟩ := headerAtTheEnd_fields
  have hbytes : headerAtTheEnd.bytes.length = 512 := by decide +kernel
  have hlimit : headerAtTheEnd.limit = 512 := by
    rw [limit, hannounced]
    rfl
  have hend : headerAtTheEnd.attrsEnd = 512 := by
    rw [attrsEnd, hannounced, hbytes]
    rfl
  by_contra hanswer
  have hwithin : headerAtTheEnd.Within (parseResponse headerAtTheEnd.bytes.length) := by
    intro i hi
    by_contra hout
    rw [hlimit] at hout
    refine hanswer ((Reads.result_eq_none_iff _).mpr ⟨i, hi, ?_⟩)
    rw [length_buffer]
    exact Nat.not_lt.mp hout
  have hnext : headerAtTheEnd.Leads (20 + 4 + padded (headerAtTheEnd.attrLen 20)) 508 := by
    rw [hlength]
    exact .here 508
  have hleads : headerAtTheEnd.Leads 20 508 :=
    .next (by omega) (fun h => hother h.1) hnext
  have hholds := within_parseResponse.mp hwithin ⟨by omega, by decide +kernel⟩ 508 hleads
    (by omega) haddress
  have hfamily := hholds.1
  omega

/-- A datagram that makes the node panic. -/
theorem response_can_crash : ¬ ∀ datagram : Datagram, datagram.Safe := by
  intro hsafe
  obtain ⟨answer, hanswer⟩ := (hsafe headerAtTheEnd).answers
  rw [headerAtTheEnd_parse] at hanswer
  cases hanswer

end Datagram

end HiveBear.Mesh.Stun
