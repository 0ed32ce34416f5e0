/-
# Discovery on the local network

Nodes broadcast datagrams: a query, or an announcement of their own record. A datagram is a
magic prefix, a byte for its kind and, for an announcement, the record in binary.

The record alone may take as many bytes as the receive buffer has, so that with the header in
front of it the largest ones do not fit: the receiver sees them without their end, and cannot
read them. A record arrives if and only if its header still fits in front of it.
-/

import HiveBear.Mesh.Discovery.PeerInfo

namespace HiveBear.Mesh.Discovery

open Bincode

/-- Protocol prefix; anything else on the port is ignored. -/
def magic : List UInt8 := "HIVEBEAR-LAN/1".toUTF8.data.toList

def kindQuery : UInt8 := 81

def kindAnnounce : UInt8 := 65

/-- Maximum accepted and sent datagram size. -/
def maxDatagram : ℕ := 16 * 1024

variable {F : Type}

/-- A LAN discovery datagram. -/
inductive LanMessage (F : Type)
  /-- "Who is on this network?" -/
  | query
  /-- "Here I am": the record other nodes should connect to. -/
  | announce (peer : PeerInfo F)

variable (float : Codec F)

/-- Serialize a discovery datagram. -/
def encodeMessage : LanMessage F → Option (List UInt8)
  | .query => some (magic ++ [kindQuery])
  | .announce peer => do
      let payload ← (PeerInfo.bincode float).serialize maxDatagram peer
      return magic ++ [kindAnnounce] ++ payload

/-- Parse a discovery datagram, ignoring anything that is not ours or is malformed. -/
def decodeMessage (data : List UInt8) : Option (LanMessage F) :=
  if data.length ≤ magic.length ∨ ¬ magic.isPrefixOf data then none
  else
    match data.drop magic.length with
    | [] => none
    | kind :: payload =>
        if kind = kindQuery ∧ payload = [] then some .query
        else if kind = kindAnnounce then
          ((PeerInfo.bincode float).deserialize maxDatagram payload).map .announce
        else none

/-- What the listener reads of a datagram: the receive buffer cuts off the rest. -/
def received (datagram : List UInt8) : List UInt8 := datagram.take maxDatagram

/-- A listener: its own record, and recently heard peers with the time it last heard them. -/
structure Inner (F : Type) where
  localPeer : Option (PeerInfo F)
  known : NodeId → Option (PeerInfo F × ℕ)

/-- Handle one datagram at this time: the reply to send back, and the listener behind it. -/
def Inner.handleDatagram (inner : Inner F) (now : ℕ) (data : List UInt8) :
    Option (List UInt8) × Inner F :=
  match decodeMessage float data with
  | none => (none, inner)
  | some .query =>
      (inner.localPeer.bind fun peer => encodeMessage float (.announce peer), inner)
  | some (.announce peer) =>
      if some peer.nodeId = inner.localPeer.map PeerInfo.nodeId then (none, inner)
      else (none, { inner with known := Function.update inner.known peer.nodeId (peer, now) })

/-- A listener knows each peer under its own identity, and does not know itself. -/
def Inner.KnowsOthers (inner : Inner F) : Prop :=
  ∀ nodeId entry, inner.known nodeId = some entry →
    entry.1.nodeId = nodeId ∧ inner.localPeer.map PeerInfo.nodeId ≠ some nodeId

theorem Inner.KnowsOthers.handleDatagram {inner : Inner F} (h : inner.KnowsOthers) (now : ℕ)
    (data : List UInt8) : (inner.handleDatagram float now data).2.KnowsOthers := by
  rw [Inner.handleDatagram]
  split
  · exact h
  · exact h
  · next peer _ =>
      split_ifs with hself
      · exact h
      · intro nodeId entry hentry
        dsimp only at hentry
        by_cases hid : nodeId = peer.nodeId
        · subst hid
          rw [Function.update_self] at hentry
          cases hentry
          exact ⟨rfl, Ne.symm hself⟩
        · rw [Function.update_of_ne hid] at hentry
          exact h nodeId entry hentry

/-- **A listener does not hear itself**, whatever datagrams arrive. -/
theorem Inner.KnowsOthers.foldl {inner : Inner F} (h : inner.KnowsOthers)
    (datagrams : List (ℕ × List UInt8)) :
    (datagrams.foldl (fun inner datagram =>
      (inner.handleDatagram float datagram.1 datagram.2).2) inner).KnowsOthers := by
  induction datagrams generalizing inner with
  | nil => exact h
  | cons datagram datagrams ih => exact ih (h.handleDatagram float datagram.1 datagram.2)

/-! ## What is accepted -/

/-- A datagram behind the magic prefix is taken apart at its kind. -/
theorem decodeMessage_header (kind : UInt8) (payload : List UInt8) :
    decodeMessage float (magic ++ kind :: payload) =
      if kind = kindQuery ∧ payload = [] then some .query
      else if kind = kindAnnounce then
        ((PeerInfo.bincode float).deserialize maxDatagram payload).map .announce
      else none := by
  have hlong : ¬ (magic ++ kind :: payload).length ≤ magic.length := by
    rw [List.length_append, List.length_cons]
    omega
  have hpart : magic.isPrefixOf (magic ++ kind :: payload) = true :=
    List.isPrefixOf_iff_prefix.mpr (List.prefix_append magic _)
  have hours : ¬ ((magic ++ kind :: payload).length ≤ magic.length ∨
      ¬ magic.isPrefixOf (magic ++ kind :: payload)) := by
    rintro (hshort | hforeign)
    · exact hlong hshort
    · exact hforeign hpart
  rw [decodeMessage, if_neg hours, List.drop_left]

/-- **What is accepted is well formed.** -/
theorem eq_of_decodeMessage {data : List UInt8} {message : LanMessage F}
    (h : decodeMessage float data = some message) :
    (data = magic ++ [kindQuery] ∧ message = .query) ∨
      ∃ payload peer, data = magic ++ kindAnnounce :: payload ∧
        (PeerInfo.bincode float).deserialize maxDatagram payload = some peer ∧
        message = .announce peer := by
  have hours : ¬ (data.length ≤ magic.length ∨ ¬ magic.isPrefixOf data) := by
    intro hforeign
    rw [decodeMessage, if_pos hforeign] at h
    cases h
  obtain ⟨hlong, hpart⟩ := not_or.mp hours
  obtain ⟨body, rfl⟩ := List.isPrefixOf_iff_prefix.mp (not_not.mp hpart)
  cases body with
  | nil => simp at hlong
  | cons kind payload =>
      rw [decodeMessage_header] at h
      split_ifs at h with hquery hannounce
      · obtain ⟨rfl, rfl⟩ := hquery
        cases h
        exact Or.inl ⟨rfl, rfl⟩
      · obtain ⟨peer, hpeer, rfl⟩ := Option.map_eq_some_iff.mp h
        subst hannounce
        exact Or.inr ⟨payload, peer, rfl, hpeer, rfl⟩

/-! ## What arrives -/

/-- The bytes of a record in binary. -/
def payloadLength (peer : PeerInfo F) : ℕ := ((PeerInfo.bincode float).encode peer).length

/-- The bytes in front of a record. -/
def headerLength : ℕ := magic.length + 1

/-- An announcement that is sent holds the whole record. -/
theorem encodeMessage_announce {peer : PeerInfo F} {datagram : List UInt8}
    (h : encodeMessage float (.announce peer) = some datagram) :
    ∃ payload, (PeerInfo.bincode float).serialize maxDatagram peer = some payload ∧
      payload.length = payloadLength float peer ∧ datagram = magic ++ kindAnnounce :: payload := by
  simp only [encodeMessage, Option.bind_eq_bind, Option.bind_eq_some_iff] at h
  obtain ⟨payload, hpayload, hdone⟩ := h
  cases hdone
  refine ⟨payload, hpayload, ?_, by rw [List.append_assoc, List.singleton_append]⟩
  rw [Codec.serialize] at hpayload
  split at hpayload
  · cases hpayload
    rfl
  · cases hpayload

/-- The receive buffer leaves this much of a record. -/
theorem received_announce (payload : List UInt8) :
    received (magic ++ kindAnnounce :: payload) =
      magic ++ kindAnnounce :: payload.take (maxDatagram - headerLength) := by
  have hheader : (magic ++ [kindAnnounce]).length = headerLength := by
    rw [List.length_append]
    rfl
  have hlong : headerLength ≤ maxDatagram := by decide
  have hsplit : ∀ tail, magic ++ kindAnnounce :: tail = (magic ++ [kindAnnounce]) ++ tail := by
    intro tail
    rw [List.append_assoc, List.singleton_append]
  rw [received, hsplit payload, hsplit (payload.take _), List.take_append, hheader,
    List.take_of_length_le (by rw [hheader]; exact hlong)]

/-- A record with room for its header is read. -/
theorem decodeMessage_received {peer : PeerInfo F} {datagram : List UInt8}
    (hsent : encodeMessage float (.announce peer) = some datagram)
    (hfits : payloadLength float peer ≤ maxDatagram - headerLength) :
    decodeMessage float (received datagram) = some (.announce peer) := by
  obtain ⟨payload, hpayload, hlength, rfl⟩ := encodeMessage_announce float hsent
  have hlimit : maxDatagram < 2 ^ 64 := by decide
  rw [← hlength] at hfits
  rw [received_announce, List.take_of_length_le hfits, decodeMessage_header, if_neg, if_pos rfl,
    Codec.deserialize_serialize _ hlimit hpayload]
  · rfl
  · rintro ⟨hkind, -⟩
    exact absurd hkind (by decide)

/-- A record without room for its header is lost: the listener gets its front only. -/
theorem decodeMessage_received_eq_none {peer : PeerInfo F} {datagram : List UInt8}
    (hsent : encodeMessage float (.announce peer) = some datagram)
    (hlong : ¬ payloadLength float peer ≤ maxDatagram - headerLength) :
    decodeMessage float (received datagram) = none := by
  obtain ⟨payload, hpayload, hlength, rfl⟩ := encodeMessage_announce float hsent
  have hlimit : maxDatagram < 2 ^ 64 := by decide
  have hcut : payload.drop (maxDatagram - headerLength) ≠ [] := by
    rw [Ne, List.drop_eq_nil_iff, hlength]
    exact hlong
  rw [← List.take_append_drop (maxDatagram - headerLength) payload] at hpayload
  rw [received_announce, decodeMessage_header, if_neg, if_pos rfl,
    Codec.deserialize_truncated _ hlimit hpayload hcut]
  · rfl
  · rintro ⟨hkind, -⟩
    exact absurd hkind (by decide)

/-- **A record arrives if and only if its header fits in front of it**, and only well-formed
datagrams are accepted. -/
theorem lan_datagrams_exact_iff :
    (∀ {peer : PeerInfo F} {datagram},
      encodeMessage float (.announce peer) = some datagram →
        (decodeMessage float (received datagram) = some (.announce peer) ↔
          payloadLength float peer ≤ maxDatagram - headerLength)) ∧
      ∀ {data : List UInt8} {message : LanMessage F}, decodeMessage float data = some message →
        (data = magic ++ [kindQuery] ∧ message = .query) ∨
          ∃ payload peer, data = magic ++ kindAnnounce :: payload ∧
            (PeerInfo.bincode float).deserialize maxDatagram payload = some peer ∧
            message = .announce peer := by
  refine ⟨?_, fun h => eq_of_decodeMessage float h⟩
  intro peer datagram hsent
  constructor
  · intro harrived
    by_contra hlong
    rw [decodeMessage_received_eq_none float hsent hlong] at harrived
    cases harrived
  · intro hfits
    exact decodeMessage_received float hsent hfits

/-! ## The largest records -/

/-- A served model adds its name to the record. -/
theorem payloadLength_servingModelId (peer : PeerInfo F) (text : String) :
    payloadLength float { peer with servingModelId := some text } =
      payloadLength float { peer with servingModelId := none } + (Codec.string.encode text).length := by
  simp only [payloadLength, PeerInfo.bincode, Codec.pair, Codec.refine, Codec.option,
    List.length_append, List.length_cons, List.length_nil]
  omega

/-- A text of letters has a byte for each. -/
theorem toUTF8_replicate (n : ℕ) :
    (String.ofList (List.replicate n 'a')).toUTF8.data.toList = List.replicate n 97 := by
  show (String.ofList _).toByteArray.data.toList = _
  rw [String.toByteArray_ofList, List.utf8Encode, List.data_toByteArray]
  show (List.replicate n 'a').flatMap String.utf8EncodeChar = _
  induction n with
  | zero => rfl
  | succ n ih =>
      rw [List.replicate_succ, List.flatMap_cons, ih]
      rfl

/-- A long text has three bytes for its length. -/
theorem length_string_replicate {n : ℕ} (hlong : 251 ≤ n) (hword : n < 2 ^ 16) :
    (Codec.string.encode (String.ofList (List.replicate n 'a'))).length = 3 + n := by
  have hcount : (UInt64.ofNat n).toNat = n := UInt64.toNat_ofNat_of_lt' (by show n < 2 ^ 64; omega)
  have htext : Codec.string.encode (String.ofList (List.replicate n 'a')) =
      Codec.encodeVarint (UInt64.ofNat (List.replicate n (97 : UInt8)).length) ++
        (List.replicate n (97 : UInt8)).flatMap Codec.byte.encode := by
    rw [← toUTF8_replicate]
    rfl
  rw [htext, List.length_replicate, Codec.encodeVarint, hcount, if_neg (by omega), if_pos hword,
    List.length_append, List.length_cons, LittleEndian.length_toBytes, List.length_flatMap]
  simp [Codec.byte]

/-- A node that serves a model whose name has this many letters. -/
def servingLongName (n : ℕ) : PeerInfo UInt64 :=
  { PeerInfo.plain 0 (NodeId.ofByte 1) with
    servingModelId := some (String.ofList (List.replicate n 'a')) }

theorem payloadLength_servingLongName {n : ℕ} (hlong : 251 ≤ n) (hword : n < 2 ^ 16) :
    payloadLength Codec.word64 (servingLongName n) = 99 + n := by
  have hplain : payloadLength Codec.word64 (PeerInfo.plain 0 (NodeId.ofByte 1)) = 96 := by decide
  rw [servingLongName, payloadLength_servingModelId, length_string_replicate hlong hword]
  exact (congrArg (· + (3 + n)) hplain).trans (by omega)

/-- A record within the limit is sent. -/
theorem encodeMessage_of_le {peer : PeerInfo F} (h : payloadLength float peer ≤ maxDatagram) :
    encodeMessage float (.announce peer) =
      some (magic ++ [kindAnnounce] ++ (PeerInfo.bincode float).encode peer) := by
  rw [payloadLength] at h
  simp only [encodeMessage, Codec.serialize]
  rw [if_pos h]
  rfl

/-- A name of 16270 letters just fits, and its announcement has one of the two accepted
forms. -/
theorem lan_datagrams_exact_iff_largest :
    ∃ datagram, encodeMessage Codec.word64 (.announce (servingLongName 16270)) = some datagram ∧
      decodeMessage Codec.word64 (received datagram) = some (.announce (servingLongName 16270)) ∧
      ∃ payload, received datagram = magic ++ kindAnnounce :: payload := by
  have hlength := @payloadLength_servingLongName 16270 (by decide) (by decide)
  have hsent := @encodeMessage_of_le _ Codec.word64 (servingLongName 16270)
    (by rw [hlength]; decide)
  have harrived := (lan_datagrams_exact_iff Codec.word64).1 hsent |>.mpr (by rw [hlength]; decide)
  refine ⟨_, hsent, harrived, ?_⟩
  obtain ⟨-, hquery⟩ | ⟨payload, -, hform, -, -⟩ :=
    (lan_datagrams_exact_iff Codec.word64).2 harrived
  · cases hquery
  · exact ⟨payload, hform⟩

/-- One more letter, and the announcement that is sent is lost. -/
theorem longer_name_is_lost :
    ∃ datagram, encodeMessage Codec.word64 (.announce (servingLongName 16271)) = some datagram ∧
      decodeMessage Codec.word64 (received datagram) = none := by
  have hlength := @payloadLength_servingLongName 16271 (by decide) (by decide)
  have hsent := @encodeMessage_of_le _ Codec.word64 (servingLongName 16271)
    (by rw [hlength]; decide)
  have hlong : ¬ payloadLength Codec.word64 (servingLongName 16271) ≤ maxDatagram - headerLength := by
    rw [hlength]
    decide
  exact ⟨_, hsent, decodeMessage_received_eq_none Codec.word64 hsent hlong⟩

end HiveBear.Mesh.Discovery
