/-
# What a connection delivers

The streams of a connection are read in the order in which they have been opened, whatever order
they end in. So the messages that are sent on a connection arrive in their order and at most once.
A message is missing if its write has been given up, and for as long as there is a stream in front
of it that has not ended.
-/

import HiveBear.Mesh.Transport.Connections

namespace HiveBear.Mesh

open LabelledRun

/-- The other end of a connection. -/
def Handle.other (handle : Handle) : Handle := ⟨handle.conn, handle.side.other⟩

namespace Stream

theorem map_msg_endBehind (streams : List Stream) (index written : ℕ) :
    (streams.modify index (endBehind written)).map msg = streams.map msg := by
  apply List.ext_getElem?
  intro i
  rw [List.getElem?_map, List.getElem?_map, List.getElem?_modify]
  cases streams[i]? with
  | none => rfl
  | some stream =>
      show some (if index = i then stream.endBehind written else stream).msg = some stream.msg
      split
      · exact congrArg some (msg_endBehind stream written)
      · rfl

theorem whole_sublist (streams : List Stream) :
    (streams.filterMap whole).Sublist (streams.map fun stream => stream.msg.message) := by
  induction streams with
  | nil => exact List.Sublist.slnil
  | cons stream rest ih =>
      rw [List.map_cons]
      cases hwhole : stream.whole with
      | none =>
          rw [List.filterMap_cons_none hwhole]
          exact ih.cons _
      | some msg =>
          obtain rfl : stream.msg.message = msg := by
            rw [whole] at hwhole
            split at hwhole
            · cases hwhole
            · split at hwhole
              · exact Option.some.inj hwhole
              · cases hwhole
          rw [List.filterMap_cons_some hwhole]
          exact ih.cons_cons _

end Stream

namespace Connection

/-- The streams up to the first one that has not ended. -/
def ready (conn : Connection) (side : Side) : List Stream :=
  (conn.streams side).takeWhile fun stream => stream.ended.isSome

variable {conn : Connection}

theorem Sound.ready_eq (h : conn.Sound) (side : Side) :
    conn.ready side = (conn.streams side).take (conn.taken side) ++
      ((conn.streams side).drop (conn.taken side)).takeWhile fun stream => stream.ended.isSome := by
  rw [← List.takeWhile_append_of_pos (h.ended side), List.take_append_drop]
  rfl

theorem Sound.taken_le_ready (h : conn.Sound) (side : Side) :
    conn.taken side ≤ (conn.ready side).length := by
  rw [h.ready_eq, List.length_append, List.length_take, min_eq_left (h.taken_le side)]
  exact Nat.le_add_right _ _

/-- A reader goes on unless it has taken all that is ready. -/
theorem Sound.nextData_eq_none_iff (h : conn.Sound) (side : Side) :
    conn.nextData side = none ↔ conn.taken side = (conn.ready side).length := by
  rw [h.nextData_eq, h.ready_eq, List.length_append, List.length_take,
    min_eq_left (h.taken_le side), ← List.head?_drop]
  cases (conn.streams side).drop (conn.taken side) with
  | nil => simp
  | cons stream rest =>
      cases hended : stream.ended <;> simp [Stream.received, hended]

end Connection

namespace TransportNetwork

variable {net : TransportNetwork}

/-- The streams that an end of a connection has opened. -/
def streamsOf (net : TransportNetwork) (handle : Handle) : List Stream :=
  match net.connections[handle.conn]? with
  | none => []
  | some conn => conn.streams handle.side

/-- How many of them have been read. -/
def takenOf (net : TransportNetwork) (handle : Handle) : ℕ :=
  match net.connections[handle.conn]? with
  | none => 0
  | some conn => conn.taken handle.side

/-- The streams that can be read. -/
def readyOf (net : TransportNetwork) (handle : Handle) : List Stream :=
  (net.streamsOf handle).takeWhile fun stream => stream.ended.isSome

/-- The node at an end of a connection. -/
def nodeOf (net : TransportNetwork) (handle : Handle) : Option NodeId :=
  net.connections[handle.conn]?.map (·.node handle.side)

theorem Sound.takenOf_le_readyOf (h : net.Sound) {handle : Handle} :
    net.takenOf handle ≤ (net.readyOf handle).length := by
  rw [takenOf, readyOf, streamsOf]
  cases hconn : net.connections[handle.conn]? with
  | none => exact Nat.zero_le _
  | some conn => exact (h.connections hconn).taken_le_ready handle.side

/-- What an event puts on a connection. -/
def sentOver (handle : Handle) (net : TransportNetwork) : TransportEvent → List WireMessage
  | .send node peer msg =>
      match net.sendTo node peer msg with
      | .error _ => []
      | .ok (used, _, _) => if used = handle then [msg] else []
  | _ => []

/-- All that has been sent on a connection. -/
def sent (handle : Handle) (events : List TransportEvent) : List WireMessage :=
  (outputs next (sentOver handle) TransportNetwork.fresh events).flatten

theorem streamsOf_setConnection {index : ℕ} {old : Connection}
    (h : net.connections[index]? = some old) (conn : Connection) (handle : Handle) :
    (net.setConnection index conn).streamsOf handle =
      if handle.conn = index then conn.streams handle.side else net.streamsOf handle := by
  rw [streamsOf, getElem?_setConnection h]
  split_ifs <;> rfl

theorem streamsOf_of_some {handle : Handle} {conn : Connection}
    (h : net.connections[handle.conn]? = some conn) :
    net.streamsOf handle = conn.streams handle.side := by
  rw [streamsOf, h]

/-- A change of a connection that keeps the messages of its streams. -/
theorem msg_streamsOf_setConnection {index : ℕ} {old conn : Connection}
    (h : net.connections[index]? = some old)
    (hsame : ∀ side, (conn.streams side).map Stream.msg = (old.streams side).map Stream.msg)
    (handle : Handle) :
    ((net.setConnection index conn).streamsOf handle).map Stream.msg =
      (net.streamsOf handle).map Stream.msg := by
  rw [streamsOf_setConnection h]
  split_ifs with hindex
  · rw [hsame, streamsOf_of_some (hindex ▸ h)]
  · rfl

theorem of_sendTo {node peer : NodeId} {msg : WireMessage} {handle : Handle} {conn : Connection}
    {data : List UInt8} (hsend : net.sendTo node peer msg = .ok (handle, conn, data)) :
    (net.nodes node).connections peer = some handle ∧ msg.encode = some data ∧
      net.connections[handle.conn]? = some conn ∧ conn.closed = false := by
  rw [sendTo] at hsend
  cases hfound : (net.nodes node).connections peer with
  | none =>
      rw [hfound] at hsend
      cases hsend
  | some kept =>
      rw [hfound] at hsend
      cases hdata : msg.encode with
      | none =>
          simp only [hdata] at hsend
          cases hsend
      | some bytes =>
          cases hconn : net.connections[kept.conn]? with
          | none =>
              simp only [hdata, hconn] at hsend
              cases hsend
          | some found =>
              simp only [hdata, hconn] at hsend
              split at hsend
              · cases hsend
              · rename_i hopen
                cases hsend
                exact ⟨rfl, rfl, hconn, Bool.eq_false_iff.mpr hopen⟩

/-! ### What events do to streams -/

/-- A connection that has just been opened has no streams. -/
theorem streamsOf_connect (net : TransportNetwork) (caller peer : NodeId)
    (hardware : Discovery.HardwareProfile UInt64) (handle : Handle) :
    (net.connect caller peer hardware).streamsOf handle = net.streamsOf handle := by
  rw [connect]
  split
  · rename_i peerId callerId _ _
    by_cases hlt : handle.conn < net.connections.length
    · have hold : ((net.setNode peer ((net.nodes peer).accept callerId
          ⟨net.connections.length, .acceptor⟩)).dial caller peer peerId).connections[
            handle.conn]? = net.connections[handle.conn]? := List.getElem?_append_left hlt
      rw [streamsOf, streamsOf, hold]
    · have hnew : ((net.setNode peer ((net.nodes peer).accept callerId
          ⟨net.connections.length, .acceptor⟩)).dial caller peer peerId).connections[
            handle.conn]? = [Connection.opened caller peer][
              handle.conn - net.connections.length]? :=
        List.getElem?_append_right (Nat.le_of_not_lt hlt)
      rw [streamsOf, streamsOf, hnew, List.getElem?_eq_none (Nat.le_of_not_lt hlt)]
      cases handle.conn - net.connections.length <;> rfl
  · rfl

theorem msg_streamsOf_send (net : TransportNetwork) (node peer : NodeId) (msg : WireMessage)
    (handle : Handle) :
    ((net.send node peer msg).streamsOf handle).map Stream.msg =
      (net.streamsOf handle).map Stream.msg ++ sentOver handle net (.send node peer msg) := by
  rw [send, sentOver]
  cases hsend : net.sendTo node peer msg with
  | error e => exact (List.append_nil _).symm
  | ok result =>
      obtain ⟨used, conn, data⟩ := result
      obtain ⟨-, -, hconn, -⟩ := of_sendTo hsend
      dsimp only
      rw [streamsOf_setConnection hconn]
      by_cases hindex : handle.conn = used.conn
      · rw [if_pos hindex, streamsOf_of_some (hindex ▸ hconn)]
        show (Function.update conn.streams used.side _ handle.side).map Stream.msg = _
        by_cases hside : handle.side = used.side
        · rw [if_pos (Handle.ext hindex.symm hside.symm), hside, Function.update_self,
            List.map_append]
          rfl
        · rw [if_neg (fun hused => hside (congrArg Handle.side hused.symm)),
            Function.update_of_ne hside, List.append_nil]
      · rw [if_neg hindex, if_neg (fun hused => hindex (congrArg Handle.conn hused.symm)),
          List.append_nil]

theorem msg_streamsOf_ends (net : TransportNetwork) (ended : Handle) (index written : ℕ)
    (handle : Handle) :
    ((net.ends ended index written).streamsOf handle).map Stream.msg =
      (net.streamsOf handle).map Stream.msg := by
  rw [ends]
  cases hconn : net.connections[ended.conn]? with
  | none => rfl
  | some conn =>
      apply msg_streamsOf_setConnection hconn
      intro side
      show (Function.update conn.streams ended.side _ side).map Stream.msg = _
      by_cases hside : side = ended.side
      · subst hside
        rw [Function.update_self, Stream.map_msg_endBehind]
      · rw [Function.update_of_ne hside]

theorem msg_streamsOf_read (net : TransportNetwork) (reader : Handle) (handle : Handle) :
    ((net.read reader).streamsOf handle).map Stream.msg =
      (net.streamsOf handle).map Stream.msg := by
  rw [read]
  cases hconn : net.connections[reader.conn]? with
  | none => rfl
  | some conn =>
      dsimp only
      cases conn.nextData reader.side with
      | none => rfl
      | some data =>
          have hkept := @msg_streamsOf_setConnection net _ conn (conn.take reader.side) hconn
            (fun _ => rfl) handle
          dsimp only
          cases WireMessage.decode data with
          | none => exact hkept
          | some msg => exact hkept

theorem msg_streamsOf_disconnect (net : TransportNetwork) (node peer : NodeId) (handle : Handle) :
    ((net.disconnect node peer).streamsOf handle).map Stream.msg =
      (net.streamsOf handle).map Stream.msg := by
  rw [disconnect]
  cases (net.nodes node).connections peer with
  | none => rfl
  | some kept =>
      dsimp only
      cases hconn : net.connections[kept.conn]? with
      | none => rfl
      | some conn =>
          exact @msg_streamsOf_setConnection (net.setNode node ((net.nodes node).remove peer))
            _ conn { conn with closed := true } hconn (fun _ => rfl) handle

/-- An event opens a stream for what it sends, and no other. -/
theorem msg_streamsOf_next (net : TransportNetwork) (event : TransportEvent) (handle : Handle) :
    ((net.next event).streamsOf handle).map Stream.msg =
      (net.streamsOf handle).map Stream.msg ++ sentOver handle net event := by
  cases event with
  | send node peer msg => exact msg_streamsOf_send net node peer msg handle
  | listen node => exact (List.append_nil _).symm
  | recv node => exact (List.append_nil _).symm
  | connect caller peer hardware =>
      exact (congrArg _ (streamsOf_connect net caller peer hardware handle)).trans
        (List.append_nil _).symm
  | ends ended index written =>
      exact (msg_streamsOf_ends net ended index written handle).trans (List.append_nil _).symm
  | read reader => exact (msg_streamsOf_read net reader handle).trans (List.append_nil _).symm
  | disconnect node peer =>
      exact (msg_streamsOf_disconnect net node peer handle).trans (List.append_nil _).symm

/-- The streams of a connection are those of the messages sent on it, in their order. -/
theorem msg_streamsOf (events : List TransportEvent) (handle : Handle) :
    ((after events).streamsOf handle).map Stream.msg = sent handle events := by
  have hview := @exec_view _ _ next _ _ (fun net => (net.streamsOf handle).map Stream.msg)
    (fun msgs new => msgs ++ new) (sentOver handle)
    (fun net event => msg_streamsOf_next net event handle) TransportNetwork.fresh events
  refine hview.trans ?_
  have hall := @List.foldl_append_eq_append _ _
    (outputs next (sentOver handle) TransportNetwork.fresh events) id []
  rw [List.map_id] at hall
  exact hall

/-! ### What readers do -/

theorem Sound.msg_arrivedOver (h : net.Sound) (node : NodeId) (handle : Handle) :
    (net.arrivedOver node handle).map Arrival.msg =
      if net.nodeOf handle.other = some node then
        ((net.streamsOf handle).take (net.takenOf handle)).filterMap Stream.whole
      else [] := by
  rw [h.arrivals, deliveredTo, nodeOf, streamsOf, takenOf]
  show _ = if net.connections[handle.conn]?.map (·.node handle.side.other) = some node then _ else _
  cases net.connections[handle.conn]? with
  | none => simp
  | some conn =>
      by_cases hnode : conn.node handle.side.other = node
      · simp [hnode, Connection.delivered, Function.comp_def]
      · simp [hnode]

theorem Sound.of_mem_arrivedOver (h : net.Sound) {node : NodeId} {handle : Handle}
    {arrival : Arrival} (hmem : arrival ∈ net.arrivedOver node handle) :
    ∃ conn, net.connections[handle.conn]? = some conn ∧ conn.node handle.side.other = node ∧
      conn.node handle.side = arrival.peer ∧ arrival.msg ∈ conn.delivered handle.side := by
  rw [h.arrivals, deliveredTo] at hmem
  cases hconn : net.connections[handle.conn]? with
  | none =>
      rw [hconn] at hmem
      cases hmem
  | some conn =>
      simp only [hconn] at hmem
      split at hmem
      · rename_i hnode
        obtain ⟨msg, hmsg, rfl⟩ := List.mem_map.mp hmem
        exact ⟨conn, rfl, hnode, rfl, hmsg⟩
      · cases hmem

/-- A network in which a reader has just taken a stream. -/
theorem progress_of_take {later : TransportNetwork} {handle : Handle} {conn : Connection}
    (hconn : net.connections[handle.conn]? = some conn)
    (hlater : later.connections =
      (net.setConnection handle.conn (conn.take handle.side)).connections) :
    later.streamsOf handle = net.streamsOf handle ∧
      later.nodeOf handle.other = net.nodeOf handle.other ∧
      later.takenOf handle = conn.taken handle.side + 1 := by
  have hfound : later.connections[handle.conn]? = some (conn.take handle.side) := by
    rw [hlater, getElem?_setConnection hconn, if_pos rfl]
  refine ⟨?_, ?_, ?_⟩
  · rw [streamsOf_of_some hfound, streamsOf_of_some hconn]
    rfl
  · show later.connections[handle.conn]?.map _ = net.connections[handle.conn]?.map _
    rw [hfound, hconn]
    cases handle.side <;> rfl
  · rw [takenOf, hfound]
    exact Function.update_self ..

/-- What a reader does next to its streams. -/
theorem Sound.read_progress (h : net.Sound) (handle : Handle) :
    (net.read handle).streamsOf handle = net.streamsOf handle ∧
      (net.read handle).nodeOf handle.other = net.nodeOf handle.other ∧
      (net.read handle).takenOf handle =
        min (net.takenOf handle + 1) (net.readyOf handle).length := by
  rw [TransportNetwork.read]
  cases hconn : net.connections[handle.conn]? with
  | none => simp [takenOf, readyOf, streamsOf, hconn]
  | some conn =>
      have hsound := h.connections hconn
      have htaken : net.takenOf handle = conn.taken handle.side := by rw [takenOf, hconn]
      have hready : net.readyOf handle = conn.ready handle.side := by
        rw [readyOf, streamsOf_of_some hconn]
        rfl
      rw [htaken, hready]
      dsimp only
      cases hnext : conn.nextData handle.side with
      | none =>
          have hall := (hsound.nextData_eq_none_iff handle.side).mp hnext
          refine ⟨rfl, rfl, ?_⟩
          rw [htaken, ← hall, min_eq_right (Nat.le_succ _)]
      | some data =>
          have hmore : conn.taken handle.side ≠ (conn.ready handle.side).length := by
            intro hall
            rw [(hsound.nextData_eq_none_iff handle.side).mpr hall] at hnext
            cases hnext
          have hlt := lt_of_le_of_ne (hsound.taken_le_ready handle.side) hmore
          rw [min_eq_left hlt]
          dsimp only
          cases WireMessage.decode data with
          | none => exact progress_of_take hconn rfl
          | some msg => exact progress_of_take hconn rfl

/-- A reader that goes on takes all that is ready. -/
theorem Sound.reads_progress (h : net.Sound) (handle : Handle) (count : ℕ) :
    let later := LabelledRun.exec TransportNetwork.next net (List.replicate count (.read handle))
    later.Sound ∧ later.streamsOf handle = net.streamsOf handle ∧
      later.nodeOf handle.other = net.nodeOf handle.other ∧
      later.takenOf handle = min (net.takenOf handle + count) (net.readyOf handle).length := by
  induction count with
  | zero =>
      refine ⟨h, rfl, rfl, ?_⟩
      exact (min_eq_left h.takenOf_le_readyOf).symm
  | succ count ih =>
      obtain ⟨hsound, hstreams, hnode, htaken⟩ := ih
      have hready : ∀ {other : TransportNetwork}, other.streamsOf handle = net.streamsOf handle →
          other.readyOf handle = net.readyOf handle := fun hsame => by rw [readyOf, hsame, readyOf]
      obtain ⟨hstreams', hnode', htaken'⟩ := hsound.read_progress handle
      rw [hready hstreams] at htaken'
      simp only [List.replicate_succ', exec_snoc]
      refine ⟨hsound.read handle, hstreams'.trans hstreams, hnode'.trans hnode, ?_⟩
      refine htaken'.trans ?_
      rw [htaken]
      omega

/-- **Delivery.** The messages sent on a connection arrive in their order, at most once, from the
node at its one end at the node at its other end. Missing are those whose write has been given
up or whose stream is behind one that has not ended; all others arrive if the reader goes on,
in whatever order the streams have ended. -/
theorem delivers_in_order (events : List TransportEvent) (handle : Handle) (node : NodeId) :
    let net := after events
    let later := after (events ++ List.replicate (sent handle events).length (.read handle))
    (net.streamsOf handle).map Stream.msg = sent handle events ∧
      (∀ arrival ∈ net.arrivedOver node handle,
        net.nodeOf handle = some arrival.peer ∧ net.nodeOf handle.other = some node) ∧
      ((net.arrivedOver node handle).map Arrival.msg).Sublist
        ((sent handle events).map WireMessage.message) ∧
      (later.arrivedOver node handle).map Arrival.msg =
        if net.nodeOf handle.other = some node then
          (net.readyOf handle).filterMap Stream.whole
        else [] := by
  have hsound := Sound.after events
  refine ⟨msg_streamsOf events handle, ?_, ?_, ?_⟩
  · intro arrival hmem
    obtain ⟨conn, hconn, hnode, hpeer, -⟩ := hsound.of_mem_arrivedOver hmem
    constructor
    · rw [nodeOf, hconn, Option.map_some, hpeer]
    · show (after events).connections[handle.conn]?.map _ = _
      rw [hconn]
      exact congrArg some hnode
  · rw [hsound.msg_arrivedOver, ← msg_streamsOf, List.map_map]
    split
    · exact ((List.take_sublist _ _).filterMap _).trans (Stream.whole_sublist _)
    · exact List.nil_sublist _
  · obtain ⟨hlater, hstreams, hnode, htaken⟩ :=
      hsound.reads_progress handle (sent handle events).length
    have hreads : after (events ++ List.replicate (sent handle events).length (.read handle)) =
        exec next (after events) (List.replicate (sent handle events).length (.read handle)) :=
      exec_append next TransportNetwork.fresh events _
    rw [hreads, hlater.msg_arrivedOver, hstreams, hnode, htaken]
    have hlength : ((after events).readyOf handle).length ≤ (sent handle events).length := by
      rw [← msg_streamsOf, List.length_map]
      exact (List.takeWhile_sublist _).length_le
    have hfront : (after events).readyOf handle =
        ((after events).streamsOf handle).take ((after events).readyOf handle).length :=
      List.prefix_iff_eq_take.mp (List.takeWhile_prefix _)
    rw [min_eq_right (hlength.trans (Nat.le_add_left _ _)), ← hfront]

end TransportNetwork

end HiveBear.Mesh
