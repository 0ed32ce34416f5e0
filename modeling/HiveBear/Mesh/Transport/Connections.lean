/-
# Connections between nodes

A node sends a message by opening a stream on its connection to a peer, writing the message and
ending the stream. For every connection there is a reader at either end that takes the streams
which the other end has opened, one after the other, and puts their messages into the inbox of
its node. A write can be given up in between, which ends the stream with a part of its data.

A node that dials a peer keeps the connection under the peer's identity. A node that listens
hands a copy of its connections to the task that accepts, and this task puts a connection that
has been accepted into a copy of that copy, where nobody finds it.
-/

import HiveBear.Library.Run
import HiveBear.Mesh.Transport.Encoding

namespace HiveBear.Mesh

open LabelledRun

/-- The ends of a connection. -/
inductive Side
  | dialler
  | acceptor
  deriving DecidableEq

def Side.other : Side → Side
  | .dialler => .acceptor
  | .acceptor => .dialler

/-- A stream: the message it is opened for, its data, and how much of it had been written when
the stream ended. -/
structure Stream where
  msg : WireMessage
  data : List UInt8
  ended : Option ℕ

/-- What the other end reads, once the stream has ended. -/
def Stream.received (stream : Stream) : Option (List UInt8) :=
  stream.ended.map stream.data.take

/-- A stream ends once. -/
def Stream.endBehind (written : ℕ) (stream : Stream) : Stream :=
  if stream.ended.isSome then stream else { stream with ended := some written }

/-- A connection, with the streams that either end has opened so far and how many of them the
reader at the other end has taken. -/
structure Connection where
  dialler : NodeId
  acceptor : NodeId
  closed : Bool
  streams : Side → List Stream
  taken : Side → ℕ

namespace Connection

def opened (dialler acceptor : NodeId) : Connection :=
  ⟨dialler, acceptor, false, fun _ => [], fun _ => 0⟩

variable (conn : Connection)

/-- The node at an end. -/
def node : Side → NodeId
  | .dialler => conn.dialler
  | .acceptor => conn.acceptor

/-- Open a stream for a message. -/
def openUni (side : Side) (msg : WireMessage) (data : List UInt8) : Connection :=
  { conn with
    streams := Function.update conn.streams side (conn.streams side ++ [⟨msg, data, none⟩]) }

/-- End a stream behind this much of its data. -/
def endStream (side : Side) (index written : ℕ) : Connection :=
  { conn with
    streams := Function.update conn.streams side
      ((conn.streams side).modify index (Stream.endBehind written)) }

/-- What the reader of the streams that this end has opened takes next. It waits for the end of
a stream, and a longer stream is its last one. -/
def nextData (side : Side) : Option (List UInt8) := do
  let stream ← (conn.streams side)[conn.taken side]?
  let data ← stream.received
  if data.length ≤ WireMessage.maxMessageSize then some data else none

def take (side : Side) : Connection :=
  { conn with taken := Function.update conn.taken side (conn.taken side + 1) }

end Connection

/-- A node's handle of a connection. -/
@[ext]
structure Handle where
  conn : ℕ
  side : Side
  deriving DecidableEq

/-- A message in an inbox, with the peer it is from. Where it was read is noted, though the
receiver does not see it. -/
structure Arrival where
  handle : Handle
  peer : NodeId
  msg : MeshMessage

/-- The transport of a node. `accepted` are the copies of the connections in which tasks have put
what they accepted; `received` is what has been taken out of the inbox. -/
structure QuicTransport where
  connections : NodeId → Option Handle
  listening : Option (NodeId → Option Handle)
  accepted : List (NodeId → Option Handle)
  inbox : List Arrival
  received : List Arrival

namespace QuicTransport

def new : QuicTransport := ⟨fun _ => none, none, [], [], []⟩

variable (transport : QuicTransport)

/-- Start to accept. A map is cloned with its entries. -/
def listen : QuicTransport := { transport with listening := some transport.connections }

/-- Keep a connection to a peer that has been dialled. -/
def insert (peer : NodeId) (handle : Handle) : QuicTransport :=
  { transport with connections := Function.update transport.connections peer (some handle) }

/-- Keep a connection of a peer that has dialled. Every accepting task has a clone of its own. -/
def accept (peer : NodeId) (handle : Handle) : QuicTransport :=
  { transport with
    accepted := transport.accepted ++
      transport.listening.toList.map fun connections =>
        Function.update connections peer (some handle) }

def push (arrival : Arrival) : QuicTransport :=
  { transport with inbox := transport.inbox ++ [arrival] }

/-- Take the next message out of the inbox. -/
def recv : QuicTransport :=
  match transport.inbox with
  | [] => transport
  | arrival :: inbox => { transport with inbox := inbox, received := transport.received ++ [arrival] }

def remove (peer : NodeId) : QuicTransport :=
  { transport with connections := Function.update transport.connections peer none }

/-- All that has arrived. -/
def arrivals : List Arrival := transport.received ++ transport.inbox

theorem arrivals_push (arrival : Arrival) :
    (transport.push arrival).arrivals = transport.arrivals ++ [arrival] :=
  (List.append_assoc ..).symm

theorem arrivals_recv : transport.recv.arrivals = transport.arrivals := by
  rw [recv]
  split
  · rfl
  · rename_i arrival inbox hinbox
    rw [arrivals, arrivals, hinbox, List.append_assoc]
    rfl

end QuicTransport

/-- Why a message is not sent. -/
inductive SendError
  | peerDisconnected (peer : String)
  | serialization
  | transport
  deriving DecidableEq

/-- Nodes and the connections between them. -/
structure TransportNetwork where
  nodes : NodeId → QuicTransport
  connections : List Connection

/-- Current protocol version. -/
def protocolVersion : UInt32 := 2

/-- The longest handshake that is read. -/
def maxHello : ℕ := 64 * 1024

/-- Whom an accepting task hears. A different version is only warned of. -/
def readHello (data : List UInt8) : Option NodeId :=
  if data.length ≤ maxHello then
    match WireMessage.decode data with
    | some ⟨.hello, nodeId, _, _⟩ => some nodeId
    | _ => none
  else none

/-- Who answers. -/
def readHelloAck (data : List UInt8) : Option NodeId :=
  if data.length ≤ maxHello then
    match WireMessage.decode data with
    | some ⟨.helloAck, nodeId, accepted⟩ => if accepted then some nodeId else none
    | some ⟨.hello, nodeId, _, _⟩ => some nodeId
    | _ => none
  else none

/-- Exchange handshakes: the identities that the dialler and the acceptor learn. -/
def handshake (caller peer : NodeId) (hardware : Discovery.HardwareProfile UInt64) :
    Option (NodeId × NodeId) := do
  let hello ← WireMessage.encode ⟨.hello, caller, hardware, protocolVersion⟩
  let callerId ← readHello hello
  let ack ← WireMessage.encode ⟨.helloAck, peer, true⟩
  let peerId ← readHelloAck ack
  return (peerId, callerId)

/-- What happens in the network. A dial is one whose certificate has been accepted. A stream that
ends has so much of its data. -/
inductive TransportEvent
  | listen (node : NodeId)
  | connect (caller peer : NodeId) (hardware : Discovery.HardwareProfile UInt64)
  | send (node peer : NodeId) (msg : WireMessage)
  | ends (handle : Handle) (index written : ℕ)
  | read (handle : Handle)
  | recv (node : NodeId)
  | disconnect (node peer : NodeId)

namespace TransportNetwork

def fresh : TransportNetwork := ⟨fun _ => .new, []⟩

variable (net : TransportNetwork)

def setNode (node : NodeId) (transport : QuicTransport) : TransportNetwork :=
  { net with nodes := Function.update net.nodes node transport }

def setConnection (conn : ℕ) (connection : Connection) : TransportNetwork :=
  { net with connections := net.connections.set conn connection }

/-- A new connection, kept by the node that has dialled. -/
def dial (caller peer peerId : NodeId) : TransportNetwork where
  nodes := Function.update net.nodes caller
    ((net.nodes caller).insert peerId ⟨net.connections.length, .dialler⟩)
  connections := net.connections ++ [.opened caller peer]

/-- Dial a peer. Nothing is kept of an attempt that fails. -/
def connect (caller peer : NodeId) (hardware : Discovery.HardwareProfile UInt64) :
    TransportNetwork :=
  match (net.nodes peer).listening, handshake caller peer hardware with
  | some _, some (peerId, callerId) =>
      (net.setNode peer
        ((net.nodes peer).accept callerId ⟨net.connections.length, .acceptor⟩)).dial caller peer peerId
  | _, _ => net

/-- The connection on which a message is sent, and the data. -/
def sendTo (node peer : NodeId) (msg : WireMessage) :
    Except SendError (Handle × Connection × List UInt8) :=
  match (net.nodes node).connections peer with
  | none => .error (.peerDisconnected peer.shortId)
  | some handle =>
      match msg.encode with
      | none => .error .serialization
      | some data =>
          match net.connections[handle.conn]? with
          | none => .error .transport
          | some conn => if conn.closed then .error .transport else .ok (handle, conn, data)

/-- Send a message, as far as its stream. -/
def send (node peer : NodeId) (msg : WireMessage) : TransportNetwork :=
  match net.sendTo node peer msg with
  | .error _ => net
  | .ok (handle, conn, data) => net.setConnection handle.conn (conn.openUni handle.side msg data)

def ends (handle : Handle) (index written : ℕ) : TransportNetwork :=
  match net.connections[handle.conn]? with
  | none => net
  | some conn => net.setConnection handle.conn (conn.endStream handle.side index written)

/-- A reader takes the next stream that this end has opened. What is no message is dropped. -/
def read (handle : Handle) : TransportNetwork :=
  match net.connections[handle.conn]? with
  | none => net
  | some conn =>
      match conn.nextData handle.side with
      | none => net
      | some data =>
          let taken := net.setConnection handle.conn (conn.take handle.side)
          match WireMessage.decode data with
          | none => taken
          | some msg =>
              let reader := conn.node handle.side.other
              taken.setNode reader
                ((net.nodes reader).push ⟨handle, conn.node handle.side, msg.message⟩)

/-- Forget a connection and close it. -/
def disconnect (node peer : NodeId) : TransportNetwork :=
  match (net.nodes node).connections peer with
  | none => net
  | some handle =>
      let removed := net.setNode node ((net.nodes node).remove peer)
      match net.connections[handle.conn]? with
      | none => removed
      | some conn => removed.setConnection handle.conn { conn with closed := true }

def next (net : TransportNetwork) : TransportEvent → TransportNetwork
  | .listen node => net.setNode node (net.nodes node).listen
  | .connect caller peer hardware => net.connect caller peer hardware
  | .send node peer msg => net.send node peer msg
  | .ends handle index written => net.ends handle index written
  | .read handle => net.read handle
  | .recv node => net.setNode node (net.nodes node).recv
  | .disconnect node peer => net.disconnect node peer

end TransportNetwork

/-! ## Handshakes -/

/-- The handshake of a dialler is short enough to be read. -/
def HelloFits (caller : NodeId) (hardware : Discovery.HardwareProfile UInt64) : Prop :=
  (WireMessage.bincode.encode ⟨.hello, caller, hardware, protocolVersion⟩).length ≤ maxHello

theorem maxHello_le : maxHello ≤ WireMessage.maxMessageSize := by decide

/-- A message within the limit of a handshake is written and read. -/
theorem WireMessage.encode_of_le {msg : WireMessage}
    (h : (WireMessage.bincode.encode msg).length ≤ maxHello) :
    msg.encode = some (WireMessage.bincode.encode msg) :=
  if_pos (h.trans maxHello_le)

theorem WireMessage.decode_of_encode {msg : WireMessage} {data : List UInt8}
    (h : msg.encode = some data) : WireMessage.decode data = some msg := by
  have hread := WireMessage.decode_take h data.length
  rwa [List.take_length, if_pos le_rfl] at hread

theorem length_nodeId (id : NodeId) : (Discovery.NodeId.bincode.encode id).length = 33 := by
  show (Bincode.Codec.varint.encode (UInt64.ofNat id.bytes.length) ++
    id.bytes.flatMap Bincode.Codec.byte.encode).length = 33
  rw [id.length_bytes, List.length_append, List.length_flatMap]
  have hitems : (id.bytes.map fun byte => (Bincode.Codec.byte.encode byte).length).sum = 32 := by
    show (id.bytes.map fun _ => 1).sum = 32
    rw [List.map_const', List.sum_replicate, id.length_bytes]
    rfl
  rw [hitems]
  rfl

theorem length_helloAck (peer : NodeId) :
    (WireMessage.bincode.encode ⟨.helloAck, peer, true⟩).length = 35 := by
  show (MessageKind.bincode.encode .helloAck ++
    (Discovery.NodeId.bincode.encode peer ++ Bincode.Codec.bool.encode true)).length = 35
  rw [List.length_append, List.length_append, length_nodeId]
  rfl

/-- The acceptor answers, whoever dials. -/
theorem readHelloAck_encode (peer : NodeId) :
    (WireMessage.encode ⟨.helloAck, peer, true⟩).bind readHelloAck = some peer := by
  have hshort : (WireMessage.bincode.encode ⟨.helloAck, peer, true⟩).length ≤ maxHello := by
    rw [length_helloAck]
    decide
  have hsent := WireMessage.encode_of_le hshort
  rw [hsent, Option.bind_some, readHelloAck, if_pos hshort, WireMessage.decode_of_encode hsent]
  rfl

/-- The two learn of each other if the handshake is short enough. -/
theorem handshake_of_fits {caller : NodeId} {hardware : Discovery.HardwareProfile UInt64}
    (h : HelloFits caller hardware) (peer : NodeId) :
    handshake caller peer hardware = some (peer, caller) := by
  rw [HelloFits] at h
  have hsent := WireMessage.encode_of_le h
  have hheard : readHello (WireMessage.bincode.encode ⟨.hello, caller, hardware, protocolVersion⟩) =
      some caller := by
    rw [readHello, if_pos h, WireMessage.decode_of_encode hsent]
  obtain ⟨ack, hack, hpeer⟩ := Option.bind_eq_some_iff.mp (readHelloAck_encode peer)
  simp only [handshake, hsent, hheard, hack, hpeer, Option.bind_eq_bind, Option.bind_some]
  rfl

theorem handshake_of_not_fits {caller : NodeId} {hardware : Discovery.HardwareProfile UInt64}
    (h : ¬ HelloFits caller hardware) (peer : NodeId) : handshake caller peer hardware = none := by
  rw [handshake]
  cases hsent : WireMessage.encode ⟨.hello, caller, hardware, protocolVersion⟩ with
  | none => rfl
  | some hello =>
      obtain ⟨rfl, -⟩ := WireMessage.eq_of_encode hsent
      have hunheard : readHello
          (WireMessage.bincode.encode ⟨.hello, caller, hardware, protocolVersion⟩) = none :=
        if_neg h
      simp only [Option.bind_eq_bind, Option.bind_some, hunheard, Option.bind_none]

/-! ## Streams -/

namespace Stream

/-- The message of a stream that has been written to its end. -/
def whole (stream : Stream) : Option MeshMessage :=
  match stream.ended with
  | none => none
  | some written => if stream.data.length ≤ written then some stream.msg.message else none

theorem endBehind_of_isSome {stream : Stream} (h : stream.ended.isSome) (written : ℕ) :
    stream.endBehind written = stream := if_pos h

theorem msg_endBehind (stream : Stream) (written : ℕ) :
    (stream.endBehind written).msg = stream.msg := by
  rw [endBehind]
  split <;> rfl

/-- A stream that a node has opened. -/
def Honest (stream : Stream) : Prop := stream.msg.encode = some stream.data

theorem Honest.endBehind {stream : Stream} (h : stream.Honest) (written : ℕ) :
    (stream.endBehind written).Honest := by
  rw [Stream.endBehind]
  split <;> exact h

/-- What is read of a stream is its message, or nothing. -/
theorem Honest.decode {stream : Stream} (h : stream.Honest) {data : List UInt8}
    (hdata : stream.received = some data) :
    (WireMessage.decode data).map WireMessage.message = stream.whole := by
  obtain ⟨written, hended, rfl⟩ := Option.map_eq_some_iff.mp hdata
  rw [WireMessage.decode_take h, whole, hended]
  show _ = if _ then _ else _
  split_ifs <;> rfl

/-- No stream is too long for the reader. -/
theorem Honest.length_le {stream : Stream} (h : stream.Honest) {data : List UInt8}
    (hdata : stream.received = some data) : data.length ≤ WireMessage.maxMessageSize := by
  obtain ⟨written, -, rfl⟩ := Option.map_eq_some_iff.mp hdata
  exact (List.length_take_le' _ _).trans (WireMessage.eq_of_encode h).2

end Stream

/-! ## What every run keeps -/

namespace Connection

/-- The messages that a reader has read of the streams this end has opened. -/
def delivered (conn : Connection) (side : Side) : List MeshMessage :=
  ((conn.streams side).take (conn.taken side)).filterMap Stream.whole

/-- What holds of every connection. The end that has accepted opens no stream. -/
structure Sound (conn : Connection) : Prop where
  honest : ∀ side, ∀ stream ∈ conn.streams side, stream.Honest
  taken_le : ∀ side, conn.taken side ≤ (conn.streams side).length
  ended : ∀ side, ∀ stream ∈ (conn.streams side).take (conn.taken side), stream.ended.isSome
  silent : conn.streams .acceptor = []

theorem Sound.opened (dialler acceptor : NodeId) : (Connection.opened dialler acceptor).Sound where
  honest := fun _ _ h => absurd h List.not_mem_nil
  taken_le := fun _ => le_rfl
  ended := fun _ _ h => absurd h List.not_mem_nil
  silent := rfl

variable {conn : Connection}

/-- A stream that is opened is behind all that has been read. -/
theorem Sound.take_openUni (h : conn.Sound) (side other : Side) (msg : WireMessage)
    (data : List UInt8) :
    ((conn.openUni side msg data).streams other).take (conn.taken other) =
      (conn.streams other).take (conn.taken other) := by
  show (Function.update conn.streams side _ other).take _ = _
  by_cases hother : other = side
  · subst hother
    rw [Function.update_self, List.take_append_of_le_length (h.taken_le other)]
  · rw [Function.update_of_ne hother]

theorem Sound.openUni (h : conn.Sound) {msg : WireMessage} {data : List UInt8}
    (hmsg : msg.encode = some data) : (conn.openUni .dialler msg data).Sound where
  honest := by
    intro side stream hstream
    cases side with
    | acceptor => exact h.honest .acceptor stream hstream
    | dialler =>
        rcases List.mem_append.mp hstream with hold | hnew
        · exact h.honest .dialler stream hold
        · rw [List.mem_singleton.mp hnew]
          exact hmsg
  taken_le := by
    intro side
    cases side with
    | acceptor => exact h.taken_le .acceptor
    | dialler =>
        show conn.taken .dialler ≤ (conn.streams .dialler ++ [_]).length
        rw [List.length_append]
        exact (h.taken_le .dialler).trans (Nat.le_add_right _ _)
  ended := by
    intro side
    show ∀ stream ∈ List.take (conn.taken side) _, _
    rw [h.take_openUni]
    exact h.ended side
  silent := h.silent

theorem Sound.take_endStream (h : conn.Sound) (side other : Side) (index written : ℕ) :
    ((conn.endStream side index written).streams other).take (conn.taken other) =
      (conn.streams other).take (conn.taken other) := by
  show (Function.update conn.streams side _ other).take _ = _
  by_cases hother : other = side
  · subst hother
    rw [Function.update_self]
    apply List.ext_getElem?
    intro i
    rw [List.getElem?_take, List.getElem?_take, List.getElem?_modify]
    split
    · rename_i hi
      cases hstream : (conn.streams other)[i]? with
      | none => rfl
      | some stream =>
          have hended : stream.ended.isSome := by
            apply h.ended other stream
            rw [List.mem_iff_getElem?]
            exact ⟨i, by rw [List.getElem?_take, if_pos hi, hstream]⟩
          split
          · exact congrArg some (Stream.endBehind_of_isSome hended written)
          · rfl
    · rfl
  · rw [Function.update_of_ne hother]

theorem Sound.endStream (h : conn.Sound) (side : Side) (index written : ℕ) :
    (conn.endStream side index written).Sound where
  honest := by
    intro other stream hstream
    have hmem : stream ∈ Function.update conn.streams side _ other := hstream
    by_cases hother : other = side
    · subst hother
      rw [Function.update_self] at hmem
      obtain ⟨i, hi⟩ := List.mem_iff_getElem?.mp hmem
      rw [List.getElem?_modify] at hi
      obtain ⟨old, hold, rfl⟩ := Option.map_eq_some_iff.mp hi
      have hhonest := h.honest other old (List.mem_iff_getElem?.mpr ⟨i, hold⟩)
      split_ifs
      · exact hhonest.endBehind written
      · exact hhonest
    · rw [Function.update_of_ne hother] at hmem
      exact h.honest other stream hmem
  taken_le := by
    intro other
    show conn.taken other ≤ (Function.update conn.streams side _ other).length
    by_cases hother : other = side
    · subst hother
      rw [Function.update_self, List.length_modify]
      exact h.taken_le other
    · rw [Function.update_of_ne hother]
      exact h.taken_le other
  ended := by
    intro other
    show ∀ stream ∈ List.take (conn.taken other) _, _
    rw [h.take_endStream]
    exact h.ended other
  silent := by
    show Function.update conn.streams side _ .acceptor = []
    by_cases hside : .acceptor = side
    · subst hside
      rw [Function.update_self, h.silent, List.modify_nil]
    · rw [Function.update_of_ne hside]
      exact h.silent

/-- What a reader takes next is the next stream, once it has ended. -/
theorem Sound.nextData_eq (h : conn.Sound) (side : Side) :
    conn.nextData side = (conn.streams side)[conn.taken side]?.bind Stream.received := by
  rw [nextData]
  cases hstream : (conn.streams side)[conn.taken side]? with
  | none => rfl
  | some stream =>
      cases hdata : stream.received with
      | none => simp [hdata]
      | some data =>
          have hhonest := h.honest side stream (List.mem_of_getElem? hstream)
          simp [hdata, hhonest.length_le hdata]

theorem Sound.take (h : conn.Sound) {side : Side} {data : List UInt8}
    (hnext : conn.nextData side = some data) :
    (conn.take side).Sound ∧
      (conn.take side).delivered side = conn.delivered side ++
        ((WireMessage.decode data).map WireMessage.message).toList ∧
      ∀ other ≠ side, (conn.take side).delivered other = conn.delivered other := by
  rw [h.nextData_eq] at hnext
  obtain ⟨stream, hstream, hdata⟩ := Option.bind_eq_some_iff.mp hnext
  have hhonest := h.honest side stream (List.mem_of_getElem? hstream)
  have htaken : (conn.take side).taken side = conn.taken side + 1 := Function.update_self ..
  have hother : ∀ other ≠ side, (conn.take side).taken other = conn.taken other :=
    fun other hne => Function.update_of_ne hne ..
  have hfront : (conn.streams side).take (conn.taken side + 1) =
      (conn.streams side).take (conn.taken side) ++ [stream] := by
    rw [List.take_add_one, hstream]
    rfl
  refine ⟨⟨h.honest, ?_, ?_, h.silent⟩, ?_, ?_⟩
  · intro other
    by_cases hne : other = side
    · subst hne
      rw [htaken]
      exact (List.getElem?_eq_some_iff.mp hstream).1
    · rw [hother other hne]
      exact h.taken_le other
  · intro other
    by_cases hne : other = side
    · subst hne
      show ∀ s ∈ List.take _ (conn.streams other), _
      rw [htaken, hfront]
      intro s hs
      rcases List.mem_append.mp hs with hold | hnew
      · exact h.ended other s hold
      · rw [List.mem_singleton.mp hnew]
        obtain ⟨written, hwritten, -⟩ := Option.map_eq_some_iff.mp hdata
        rw [hwritten]
        rfl
    · rw [hother other hne]
      exact h.ended other
  · rw [delivered, htaken, hhonest.decode hdata]
    show List.filterMap _ (List.take _ (conn.streams side)) = _
    rw [hfront, List.filterMap_append]
    cases hwhole : stream.whole <;> simp [delivered, hwhole]
  · intro other hne
    rw [delivered, hother other hne]
    rfl

end Connection

namespace TransportNetwork

variable {net : TransportNetwork}

/-- What has arrived at a node over the streams of one end of a connection. -/
def arrivedOver (net : TransportNetwork) (node : NodeId) (handle : Handle) : List Arrival :=
  (net.nodes node).arrivals.filter fun arrival => arrival.handle = handle

/-- What should have. -/
def deliveredTo (net : TransportNetwork) (node : NodeId) (handle : Handle) : List Arrival :=
  match net.connections[handle.conn]? with
  | none => []
  | some conn =>
      if conn.node handle.side.other = node then
        (conn.delivered handle.side).map (⟨handle, conn.node handle.side, ·⟩)
      else []

/-- What holds of every network: nodes find the connections that they have dialled, and nothing
else; what arrives is what has been read. -/
structure Sound (net : TransportNetwork) : Prop where
  handles : ∀ {node peer handle}, (net.nodes node).connections peer = some handle →
    handle.side = .dialler ∧ ∃ conn, net.connections[handle.conn]? = some conn ∧
      conn.dialler = node ∧ conn.acceptor = peer
  connections : ∀ {index : ℕ} {conn : Connection}, net.connections[index]? = some conn → conn.Sound
  arrivals : ∀ node handle, net.arrivedOver node handle = net.deliveredTo node handle

theorem Sound.fresh : fresh.Sound where
  handles := fun h => by cases h
  connections := fun h => by cases h
  arrivals := fun _ _ => rfl

/-- The connections behind a change of one of them. -/
theorem getElem?_setConnection {index : ℕ} {old : Connection}
    (h : net.connections[index]? = some old) (conn : Connection) (other : ℕ) :
    (net.setConnection index conn).connections[other]? =
      if other = index then some conn else net.connections[other]? := by
  show (net.connections.set index conn)[other]? = _
  rw [List.getElem?_set]
  by_cases hother : other = index
  · rw [if_pos hother.symm, if_pos hother, if_pos (List.getElem?_eq_some_iff.mp h).1]
  · rw [if_neg (Ne.symm hother), if_neg hother]

/-- A connection between the same nodes of which as much has been read. -/
structure SameDelivered (conn old : Connection) : Prop where
  dialler : conn.dialler = old.dialler
  acceptor : conn.acceptor = old.acceptor
  delivered : ∀ side, conn.delivered side = old.delivered side

theorem SameDelivered.node {conn old : Connection} (h : SameDelivered conn old) (side : Side) :
    conn.node side = old.node side := by
  cases side with
  | dialler => exact h.dialler
  | acceptor => exact h.acceptor

/-- A node that keeps its connections and what has arrived. -/
theorem Sound.setNode (h : net.Sound) {node : NodeId} {transport : QuicTransport}
    (hconnections : ∀ peer, transport.connections peer = none ∨
      transport.connections peer = (net.nodes node).connections peer)
    (harrivals : transport.arrivals = (net.nodes node).arrivals) :
    (net.setNode node transport).Sound where
  handles := by
    intro other peer handle hhandle
    replace hhandle : (Function.update net.nodes node transport other).connections peer = _ := hhandle
    by_cases hother : other = node
    · subst hother
      rw [Function.update_self] at hhandle
      rcases hconnections peer with hnone | hsame
      · rw [hnone] at hhandle
        cases hhandle
      · rw [hsame] at hhandle
        exact h.handles hhandle
    · rw [Function.update_of_ne hother] at hhandle
      exact h.handles hhandle
  connections := h.connections
  arrivals := by
    intro other handle
    show ((Function.update net.nodes node transport other).arrivals.filter _) = _
    refine Eq.trans ?_ (h.arrivals other handle)
    by_cases hother : other = node
    · subst hother
      rw [Function.update_self, harrivals]
      rfl
    · rw [Function.update_of_ne hother]
      rfl

/-- A connection may change as long as it is between the same nodes. -/
theorem Sound.handles_setConnection (h : net.Sound) {index : ℕ} {old conn : Connection}
    (hold : net.connections[index]? = some old) (hdialler : conn.dialler = old.dialler)
    (hacceptor : conn.acceptor = old.acceptor) {node peer : NodeId} {handle : Handle}
    (hhandle : (net.nodes node).connections peer = some handle) :
    handle.side = .dialler ∧ ∃ found, (net.setConnection index conn).connections[handle.conn]? =
      some found ∧ found.dialler = node ∧ found.acceptor = peer := by
  obtain ⟨hside, found, hfound, hnode, hpeer⟩ := h.handles hhandle
  refine ⟨hside, ?_⟩
  rw [getElem?_setConnection hold]
  by_cases hindex : handle.conn = index
  · rw [hindex, hold] at hfound
    cases hfound
    exact ⟨conn, if_pos hindex, hdialler.trans hnode, hacceptor.trans hpeer⟩
  · exact ⟨found, (if_neg hindex).trans hfound, hnode, hpeer⟩

theorem Sound.connections_setConnection (h : net.Sound) {index : ℕ} {old conn : Connection}
    (hold : net.connections[index]? = some old) (hconn : conn.Sound) {other : ℕ}
    {found : Connection} (hfound : (net.setConnection index conn).connections[other]? = some found) :
    found.Sound := by
  rw [getElem?_setConnection hold] at hfound
  split at hfound
  · cases hfound
    exact hconn
  · exact h.connections hfound

/-- A connection that changes in what has not been read. -/
theorem Sound.setConnection (h : net.Sound) {index : ℕ} {old conn : Connection}
    (hold : net.connections[index]? = some old) (hconn : conn.Sound)
    (hsame : SameDelivered conn old) : (net.setConnection index conn).Sound where
  handles := h.handles_setConnection hold hsame.dialler hsame.acceptor
  connections := h.connections_setConnection hold hconn
  arrivals := by
    intro node handle
    refine (h.arrivals node handle).trans ?_
    rw [deliveredTo, deliveredTo, getElem?_setConnection hold]
    by_cases hindex : handle.conn = index
    · rw [hindex, hold, if_pos rfl]
      simp only [hsame.node, hsame.delivered]
    · rw [if_neg hindex]

/-- A message that has been read arrives at the node of its reader. -/
theorem Sound.arrive (h : net.Sound) {handle : Handle} {old conn : Connection} {msg : MeshMessage}
    (hold : net.connections[handle.conn]? = some old) (hconn : conn.Sound)
    (hnode : ∀ side, conn.node side = old.node side)
    (hmore : conn.delivered handle.side = old.delivered handle.side ++ [msg])
    (hothers : ∀ other ≠ handle.side, conn.delivered other = old.delivered other) :
    ((net.setConnection handle.conn conn).setNode (old.node handle.side.other)
      ((net.nodes (old.node handle.side.other)).push
        ⟨handle, old.node handle.side, msg⟩)).Sound where
  handles := by
    intro node peer kept hkept
    apply h.handles_setConnection hold (hnode .dialler) (hnode .acceptor)
    rw [← hkept]
    show _ = (Function.update net.nodes _ _ node).connections peer
    by_cases hreader : node = old.node handle.side.other
    · subst hreader
      rw [Function.update_self]
      rfl
    · rw [Function.update_of_ne hreader]
  connections := h.connections_setConnection hold hconn
  arrivals := by
    intro node other
    have hbefore := h.arrivals node other
    have hpushed : ((Function.update net.nodes (old.node handle.side.other)
        ((net.nodes (old.node handle.side.other)).push ⟨handle, old.node handle.side, msg⟩)
        node).arrivals.filter fun arrival => arrival.handle = other) =
        net.arrivedOver node other ++ if old.node handle.side.other = node ∧ handle = other then
          [⟨handle, old.node handle.side, msg⟩] else [] := by
      by_cases hreader : old.node handle.side.other = node
      · subst hreader
        rw [Function.update_self, QuicTransport.arrivals_push, List.filter_append, arrivedOver]
        by_cases hsame : handle = other <;> simp [hsame]
      · rw [Function.update_of_ne (Ne.symm hreader), if_neg fun hboth => hreader hboth.1,
          List.append_nil, arrivedOver]
    refine hpushed.trans ?_
    show _ = (net.setConnection handle.conn conn).deliveredTo node other
    rw [hbefore, deliveredTo, deliveredTo, getElem?_setConnection hold]
    by_cases hsame : handle = other
    · subst hsame
      rw [hold, if_pos rfl]
      simp only [hnode, hmore]
      by_cases hreader : old.node handle.side.other = node <;> simp [hreader]
    · rw [if_neg fun hboth => hsame hboth.2, List.append_nil]
      by_cases hindex : other.conn = handle.conn
      · -- the other end of the same connection
        have hside : other.side ≠ handle.side := fun hside =>
          hsame (Handle.ext hindex.symm hside.symm)
        rw [hindex, hold, if_pos rfl]
        simp only [hnode, hothers other.side hside]
      · rw [if_neg hindex]

/-- A node that keeps a connection it has dialled. -/
theorem Sound.dial (h : net.Sound) (caller peer : NodeId) :
    (net.dial caller peer peer).Sound where
  handles := by
    intro node other handle hhandle
    replace hhandle : (Function.update net.nodes caller _ node).connections other = _ := hhandle
    have hkept : ∀ {node other handle}, (net.nodes node).connections other = some handle →
        handle.side = .dialler ∧ ∃ conn, (net.connections ++ [.opened caller peer])[handle.conn]? =
          some conn ∧ conn.dialler = node ∧ conn.acceptor = other := by
      intro node other handle hhandle
      obtain ⟨hside, conn, hconn, hnodes⟩ := h.handles hhandle
      have hlt := (List.getElem?_eq_some_iff.mp hconn).1
      exact ⟨hside, conn, (List.getElem?_append_left hlt).trans hconn, hnodes⟩
    by_cases hnode : node = caller
    · subst hnode
      rw [Function.update_self] at hhandle
      replace hhandle : Function.update (net.nodes node).connections peer _ other = _ := hhandle
      by_cases hother : other = peer
      · subst hother
        rw [Function.update_self] at hhandle
        cases hhandle
        exact ⟨rfl, .opened node other, List.getElem?_concat_length, rfl, rfl⟩
      · rw [Function.update_of_ne hother] at hhandle
        exact hkept hhandle
    · rw [Function.update_of_ne hnode] at hhandle
      exact hkept hhandle
  connections := by
    intro index conn hconn
    rcases List.mem_append.mp (List.mem_of_getElem? hconn) with hold | hnew
    · obtain ⟨other, hother⟩ := List.mem_iff_getElem?.mp hold
      exact h.connections hother
    · rw [List.mem_singleton.mp hnew]
      exact .opened caller peer
  arrivals := by
    intro node handle
    have hnode : (net.dial caller peer peer).arrivedOver node handle = net.arrivedOver node handle := by
      show (Function.update net.nodes caller _ node).arrivals.filter _ = _
      by_cases hnode : node = caller
      · subst hnode
        rw [Function.update_self]
        rfl
      · rw [Function.update_of_ne hnode]
        rfl
    rw [hnode, h.arrivals node handle, deliveredTo, deliveredTo]
    by_cases hlt : handle.conn < net.connections.length
    · have hold : (net.dial caller peer peer).connections[handle.conn]? =
          net.connections[handle.conn]? := List.getElem?_append_left hlt
      rw [hold]
    · have hnew : (net.dial caller peer peer).connections[handle.conn]? =
          [Connection.opened caller peer][handle.conn - net.connections.length]? :=
        List.getElem?_append_right (Nat.le_of_not_lt hlt)
      rw [List.getElem?_eq_none (Nat.le_of_not_lt hlt), hnew]
      -- nothing has been read of a connection that has just been opened
      cases handle.conn - net.connections.length with
      | zero =>
          show [] = if _ then [] else []
          split <;> rfl
      | succ _ => rfl

theorem Sound.connect (h : net.Sound) (caller peer : NodeId)
    (hardware : Discovery.HardwareProfile UInt64) : (net.connect caller peer hardware).Sound := by
  rw [TransportNetwork.connect]
  by_cases hfits : HelloFits caller hardware
  · rw [handshake_of_fits hfits]
    cases hlistening : (net.nodes peer).listening with
    | none => exact h
    | some copy =>
        have haccept : (net.setNode peer
            ((net.nodes peer).accept caller ⟨net.connections.length, .acceptor⟩)).Sound :=
          h.setNode (fun _ => Or.inr rfl) rfl
        exact haccept.dial caller peer
  · rw [handshake_of_not_fits hfits]
    cases (net.nodes peer).listening <;> exact h

/-- What comes of sending a message. -/
theorem Sound.sendTo (h : net.Sound) {node peer : NodeId} {msg : WireMessage} {handle : Handle}
    {conn : Connection} {data : List UInt8}
    (hsend : net.sendTo node peer msg = .ok (handle, conn, data)) :
    handle.side = .dialler ∧ net.connections[handle.conn]? = some conn ∧ conn.dialler = node ∧
      conn.acceptor = peer ∧ msg.encode = some data := by
  rw [TransportNetwork.sendTo] at hsend
  cases hfound : (net.nodes node).connections peer with
  | none =>
      rw [hfound] at hsend
      cases hsend
  | some kept =>
      obtain ⟨hside, old, hold, hdialler, hacceptor⟩ := h.handles hfound
      rw [hfound] at hsend
      cases hdata : msg.encode with
      | none =>
          simp only [hdata] at hsend
          cases hsend
      | some bytes =>
          simp only [hdata, hold] at hsend
          split at hsend
          · cases hsend
          · cases hsend
            exact ⟨hside, hold, hdialler, hacceptor, rfl⟩

theorem Sound.send (h : net.Sound) (node peer : NodeId) (msg : WireMessage) :
    (net.send node peer msg).Sound := by
  rw [TransportNetwork.send]
  cases hsend : net.sendTo node peer msg with
  | error e => exact h
  | ok sent =>
      obtain ⟨handle, conn, data⟩ := sent
      obtain ⟨hside, hconn, -, -, hmsg⟩ := h.sendTo hsend
      have hsound := h.connections hconn
      refine h.setConnection hconn ?_ ⟨rfl, rfl, ?_⟩
      · rw [hside]
        exact hsound.openUni hmsg
      · intro side
        exact congrArg _ (hsound.take_openUni handle.side side msg data)

theorem Sound.ends (h : net.Sound) (handle : Handle) (index written : ℕ) :
    (net.ends handle index written).Sound := by
  rw [TransportNetwork.ends]
  cases hconn : net.connections[handle.conn]? with
  | none => exact h
  | some conn =>
      have hsound := h.connections hconn
      refine h.setConnection hconn (hsound.endStream handle.side index written) ⟨rfl, rfl, ?_⟩
      intro side
      exact congrArg _ (hsound.take_endStream handle.side side index written)

theorem Sound.disconnect (h : net.Sound) (node peer : NodeId) :
    (net.disconnect node peer).Sound := by
  rw [TransportNetwork.disconnect]
  cases hhandle : (net.nodes node).connections peer with
  | none => exact h
  | some handle =>
      have hremoved : (net.setNode node ((net.nodes node).remove peer)).Sound := by
        refine h.setNode ?_ rfl
        intro other
        show Function.update (net.nodes node).connections peer none other = none ∨
          Function.update (net.nodes node).connections peer none other = _
        by_cases hother : other = peer
        · subst hother
          exact Or.inl (Function.update_self ..)
        · exact Or.inr (Function.update_of_ne hother ..)
      dsimp only
      cases hconn : net.connections[handle.conn]? with
      | none => exact hremoved
      | some conn =>
          obtain ⟨honest, taken_le, ended, silent⟩ := h.connections hconn
          exact @Sound.setConnection _ hremoved _ conn _ hconn ⟨honest, taken_le, ended, silent⟩
            ⟨rfl, rfl, fun _ => rfl⟩

theorem Sound.read (h : net.Sound) (handle : Handle) : (net.read handle).Sound := by
  rw [TransportNetwork.read]
  cases hconn : net.connections[handle.conn]? with
  | none => exact h
  | some conn =>
      dsimp only
      cases hnext : conn.nextData handle.side with
      | none => exact h
      | some data =>
          dsimp only
          obtain ⟨hsound, hmore, hothers⟩ := (h.connections hconn).take hnext
          cases hmsg : WireMessage.decode data with
          | none =>
              refine h.setConnection hconn hsound ⟨rfl, rfl, ?_⟩
              intro side
              by_cases hside : side = handle.side
              · subst hside
                rw [hmore, hmsg]
                exact List.append_nil _
              · exact hothers side hside
          | some msg =>
              rw [hmsg] at hmore
              exact h.arrive hconn hsound (fun side => by cases side <;> rfl) hmore hothers

theorem Sound.recv (h : net.Sound) (node : NodeId) :
    (net.setNode node (net.nodes node).recv).Sound := by
  refine h.setNode ?_ (net.nodes node).arrivals_recv
  intro peer
  rw [QuicTransport.recv]
  split <;> exact Or.inr rfl

theorem Sound.next (h : net.Sound) (event : TransportEvent) : (net.next event).Sound := by
  cases event with
  | listen node => exact h.setNode (fun _ => Or.inr rfl) rfl
  | connect caller peer hardware => exact h.connect caller peer hardware
  | send node peer msg => exact h.send node peer msg
  | ends handle index written => exact h.ends handle index written
  | read handle => exact h.read handle
  | recv node => exact h.recv node
  | disconnect node peer => exact h.disconnect node peer

/-- The network behind these events. -/
def after (events : List TransportEvent) : TransportNetwork :=
  LabelledRun.exec next TransportNetwork.fresh events

theorem Sound.after (events : List TransportEvent) : (TransportNetwork.after events).Sound :=
  @exec_invariant _ _ TransportNetwork.next Sound (fun _ _ => True) (fun h _ => h.next _) _ .fresh
    events fun _ _ _ => trivial

end TransportNetwork

end HiveBear.Mesh
