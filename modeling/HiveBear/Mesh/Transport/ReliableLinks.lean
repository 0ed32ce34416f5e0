/-
# Reliable links

The pipeline is modelled over links that neither lose nor reorder messages. This is what connections
and inboxes are together, as long as nobody dials a peer again while messages to this peer are
unread, and no write is given up: a new connection has a reader of its own, which may be ahead of
the reader of the old one, and of a write that is given up nothing arrives.
-/

import HiveBear.Library.FifoLinks
import HiveBear.Mesh.Transport.Dialling

namespace HiveBear.Mesh

open FifoLinks LabelledRun

namespace Connection

/-- The messages of a connection that have not been read. -/
def unread (conn : Connection) : List MeshMessage :=
  ((conn.streams .dialler).drop (conn.taken .dialler)).map fun stream => stream.msg.message

/-- All streams that have ended are whole. -/
def Whole (conn : Connection) : Prop :=
  ∀ stream ∈ conn.streams .dialler, ∀ written ∈ stream.ended, stream.data.length ≤ written

variable {conn : Connection}

/-- What a reader takes of a connection without broken streams is the next unread message. -/
theorem Sound.take_of_whole (h : conn.Sound) (hwhole : conn.Whole) {side : Side}
    {data : List UInt8} (hnext : conn.nextData side = some data) :
    side = .dialler ∧ ∃ msg, WireMessage.decode data = some msg ∧
      conn.unread = msg.message :: (conn.take side).unread := by
  rw [h.nextData_eq] at hnext
  obtain ⟨stream, hstream, hdata⟩ := Option.bind_eq_some_iff.mp hnext
  have hside : side = .dialler := by
    cases side with
    | dialler => rfl
    | acceptor =>
        rw [h.silent] at hstream
        cases hstream
  subst hside
  have hmem := List.mem_of_getElem? hstream
  obtain ⟨written, hended, rfl⟩ := Option.map_eq_some_iff.mp hdata
  have hlength := hwhole stream hmem written hended
  refine ⟨rfl, stream.msg, ?_, ?_⟩
  · rw [WireMessage.decode_take (h.honest .dialler stream hmem), if_pos hlength]
  · have htaken : (conn.take .dialler).taken .dialler = conn.taken .dialler + 1 := by
      show Function.update conn.taken .dialler (conn.taken .dialler + 1) .dialler = _
      rw [Function.update_self]
    obtain ⟨hlt, hget⟩ := List.getElem?_eq_some_iff.mp hstream
    rw [unread, List.drop_eq_getElem_cons hlt, hget, unread, htaken]
    rfl

theorem unread_openUni (h : conn.Sound) (msg : WireMessage) (data : List UInt8) :
    (conn.openUni .dialler msg data).unread = conn.unread ++ [msg.message] := by
  show (((conn.streams .dialler ++ [_]).drop (conn.taken .dialler)).map _) = _
  rw [List.drop_append_of_le_length (h.taken_le .dialler), List.map_append]
  rfl

theorem unread_endStream (side : Side) (index written : ℕ) :
    (conn.endStream side index written).unread = conn.unread := by
  show ((Function.update conn.streams side _ .dialler).drop (conn.taken .dialler)).map _ = _
  by_cases hside : .dialler = side
  · subst hside
    rw [Function.update_self, unread, List.map_drop, List.map_drop]
    have hmsg := congrArg (List.map WireMessage.message)
      (Stream.map_msg_endBehind (conn.streams .dialler) index written)
    rw [List.map_map, List.map_map] at hmsg
    exact congrArg _ hmsg
  · rw [Function.update_of_ne hside]
    rfl

theorem Whole.endStream (h : conn.Whole) {side : Side} {index written : ℕ}
    (hwritten : ∀ stream, (conn.streams side)[index]? = some stream → stream.ended = none →
      stream.data.length ≤ written) : (conn.endStream side index written).Whole := by
  intro stream hmem
  replace hmem : stream ∈ Function.update conn.streams side _ .dialler := hmem
  by_cases hside : .dialler = side
  · subst hside
    rw [Function.update_self] at hmem
    obtain ⟨i, hi⟩ := List.mem_iff_getElem?.mp hmem
    rw [List.getElem?_modify] at hi
    obtain ⟨old, hold, rfl⟩ := Option.map_eq_some_iff.mp hi
    have holdWhole := h old (List.mem_of_getElem? hold)
    split
    · rename_i hindex
      subst hindex
      rw [Stream.endBehind]
      split
      · exact holdWhole
      · rename_i hopen
        intro n hn
        cases hn
        exact hwritten old hold (Option.not_isSome_iff_eq_none.mp hopen)
    · exact holdWhole
  · rw [Function.update_of_ne hside] at hmem
    exact h stream hmem

end Connection

namespace TransportNetwork

/-- The unread messages of a connection, if it is between these nodes. -/
def unreadFor (src dst : NodeId) (conn : Connection) : List MeshMessage :=
  if conn.dialler = src ∧ conn.acceptor = dst then conn.unread else []

/-- The messages on their way between two nodes: those in the inbox, then those on connections. -/
def links (net : TransportNetwork) : Links NodeId MeshMessage := fun src dst =>
  ((net.nodes dst).inbox.filter fun arrival => arrival.peer = src).map Arrival.msg ++
    net.connections.flatMap (unreadFor src dst)

/-- What an event is to the links. -/
def moves (net : TransportNetwork) : TransportEvent → List (Move NodeId MeshMessage)
  | .send node peer msg =>
      match net.sendTo node peer msg with
      | .error _ => []
      | .ok _ => [.send node peer msg.message]
  | .recv node =>
      match (net.nodes node).inbox with
      | [] => []
      | arrival :: _ => [.receive arrival.peer node arrival.msg]
  | _ => []

/-- Nobody dials a peer again while something is unread, and no write is given up. -/
def Careful (net : TransportNetwork) : TransportEvent → Prop
  | .connect caller peer _ =>
      ∀ conn ∈ net.connections, conn.dialler = caller → conn.acceptor = peer → conn.unread = []
  | .ends handle index written =>
      ∀ stream, (net.streamsOf handle)[index]? = some stream → stream.ended = none →
        stream.data.length ≤ written
  | _ => True

/-- Only the newest connection between two nodes has anything unread, and it is the one that is
used. -/
structure Tidy (net : TransportNetwork) : Prop where
  whole : ∀ {index : ℕ} {conn : Connection}, net.connections[index]? = some conn → conn.Whole
  drained : ∀ {older newer : ℕ} {conn conn' : Connection}, older < newer →
    net.connections[older]? = some conn → net.connections[newer]? = some conn' →
    conn.dialler = conn'.dialler → conn.acceptor = conn'.acceptor → conn.unread = []
  newest : ∀ {node peer : NodeId} {handle : Handle} {newer : ℕ} {conn : Connection},
    (net.nodes node).connections peer = some handle → handle.conn < newer →
    net.connections[newer]? = some conn → conn.dialler = node → conn.acceptor ≠ peer

variable {net : TransportNetwork}

/-! ### Tidy networks -/

theorem Tidy.fresh : TransportNetwork.fresh.Tidy where
  whole := fun h => by cases h
  drained := fun _ h => by cases h
  newest := fun h => by cases h

theorem Tidy.setNode (h : net.Tidy) {node : NodeId} {transport : QuicTransport}
    (hconnections : ∀ peer, transport.connections peer = none ∨
      transport.connections peer = (net.nodes node).connections peer) :
    (net.setNode node transport).Tidy where
  whole := h.whole
  drained := h.drained
  newest := by
    intro other peer handle newer conn hhandle
    rw [nodes_setNode] at hhandle
    split at hhandle
    · rename_i hother
      subst hother
      rcases hconnections peer with hnone | hsame
      · rw [hnone] at hhandle
        cases hhandle
      · rw [hsame] at hhandle
        exact h.newest hhandle
    · exact h.newest hhandle

/-- A connection that changes, unless it gets messages that are not on the newest one. -/
theorem Tidy.setConnection (h : net.Tidy) {index : ℕ} {old conn : Connection}
    (hold : net.connections[index]? = some old) (hwhole : conn.Whole)
    (hdialler : conn.dialler = old.dialler) (hacceptor : conn.acceptor = old.acceptor)
    (hunread : ∀ {newer found}, index < newer → net.connections[newer]? = some found →
      old.dialler = found.dialler → old.acceptor = found.acceptor → conn.unread = []) :
    (net.setConnection index conn).Tidy where
  whole := by
    intro other found hfound
    rw [getElem?_setConnection hold] at hfound
    split at hfound
    · cases hfound
      exact hwhole
    · exact h.whole hfound
  drained := by
    intro older newer found found' hlt hfound hfound'
    rw [getElem?_setConnection hold] at hfound hfound'
    split at hfound
    · rename_i holder
      subst holder
      cases hfound
      rw [if_neg (Nat.ne_of_gt hlt)] at hfound'
      rw [hdialler, hacceptor]
      exact hunread hlt hfound'
    · split at hfound'
      · rename_i hnewer
        subst hnewer
        cases hfound'
        rw [hdialler, hacceptor]
        exact h.drained hlt hfound hold
      · exact h.drained hlt hfound hfound'
  newest := by
    intro node peer handle newer found hhandle hlt hfound
    rw [getElem?_setConnection hold] at hfound
    split at hfound
    · rename_i hnewer
      subst hnewer
      cases hfound
      rw [hdialler, hacceptor]
      exact h.newest hhandle hlt hold
    · exact h.newest hhandle hlt hfound

/-- A connection that keeps what is unread. -/
theorem Tidy.setConnection_of_unread (h : net.Tidy) {index : ℕ} {old conn : Connection}
    (hold : net.connections[index]? = some old) (hwhole : conn.Whole)
    (hdialler : conn.dialler = old.dialler) (hacceptor : conn.acceptor = old.acceptor)
    (hunread : conn.unread = old.unread) : (net.setConnection index conn).Tidy := by
  apply h.setConnection hold hwhole hdialler hacceptor
  intro newer found hlt hfound hd ha
  rw [hunread]
  exact h.drained hlt hold hfound hd ha

theorem Tidy.dial (h : net.Tidy) {caller peer : NodeId}
    (hcareful : ∀ conn ∈ net.connections, conn.dialler = caller → conn.acceptor = peer →
      conn.unread = []) : (net.dial caller peer peer).Tidy where
  whole := by
    intro index conn hconn
    rcases List.mem_append.mp (List.mem_of_getElem? hconn) with hold | hnew
    · obtain ⟨i, hi⟩ := List.mem_iff_getElem?.mp hold
      exact h.whole hi
    · rw [List.mem_singleton.mp hnew]
      exact fun _ hmem => absurd hmem List.not_mem_nil
  drained := by
    intro older newer conn conn' hlt hconn hconn' hdialler hacceptor
    have hnewer := (List.getElem?_eq_some_iff.mp hconn').1
    replace hnewer : newer < (net.connections ++ [_]).length := hnewer
    rw [List.length_append, List.length_singleton] at hnewer
    have holder : older < net.connections.length := by omega
    replace hconn : (net.connections ++ [_])[older]? = some conn := hconn
    rw [List.getElem?_append_left holder] at hconn
    replace hconn' : (net.connections ++ [_])[newer]? = some conn' := hconn'
    by_cases hlast : newer < net.connections.length
    · rw [List.getElem?_append_left hlast] at hconn'
      exact h.drained hlt hconn hconn' hdialler hacceptor
    · obtain rfl : newer = net.connections.length := by omega
      rw [List.getElem?_concat_length] at hconn'
      cases hconn'
      exact hcareful conn (List.mem_of_getElem? hconn) hdialler hacceptor
  newest := by
    intro node other handle newer conn hhandle hlt hconn
    have hnewer := (List.getElem?_eq_some_iff.mp hconn).1
    replace hnewer : newer < (net.connections ++ [_]).length := hnewer
    rw [List.length_append, List.length_singleton] at hnewer
    replace hconn : (net.connections ++ [_])[newer]? = some conn := hconn
    rw [nodes_dial] at hhandle
    have hold : (net.nodes node).connections other = some handle →
        ¬ (node = caller ∧ other = peer) → conn.dialler = node → conn.acceptor ≠ other := by
      intro hkept hpair
      by_cases hlast : newer < net.connections.length
      · rw [List.getElem?_append_left hlast] at hconn
        exact h.newest hkept hlt hconn
      · obtain rfl : newer = net.connections.length := by omega
        rw [List.getElem?_concat_length] at hconn
        cases hconn
        rintro rfl rfl
        exact hpair ⟨rfl, rfl⟩
    by_cases hnode : node = caller
    · subst hnode
      rw [if_pos rfl] at hhandle
      replace hhandle : Function.update (net.nodes node).connections peer
        (some ⟨net.connections.length, .dialler⟩) other = some handle := hhandle
      by_cases hother : other = peer
      · subst hother
        rw [Function.update_self] at hhandle
        cases hhandle
        have : net.connections.length < newer := hlt
        omega
      · rw [Function.update_of_ne hother] at hhandle
        exact hold hhandle fun hpair => hother hpair.2
    · rw [if_neg hnode] at hhandle
      exact hold hhandle fun hpair => hnode hpair.1

theorem Tidy.connect (h : net.Tidy) {caller peer : NodeId}
    {hardware : Discovery.HardwareProfile UInt64}
    (hcareful : net.Careful (.connect caller peer hardware)) :
    (net.connect caller peer hardware).Tidy := by
  by_cases hanswers : net.Answers caller peer hardware
  · rw [connect_of_answers hanswers]
    have haccept : (net.setNode peer ((net.nodes peer).accept caller
        ⟨net.connections.length, .acceptor⟩)).Tidy := h.setNode fun _ => Or.inr rfl
    exact haccept.dial hcareful
  · rw [connect_of_not_answers hanswers]
    exact h

theorem Tidy.send (h : net.Tidy) (hsound : net.Sound) (node peer : NodeId) (msg : WireMessage) :
    (net.send node peer msg).Tidy := by
  rw [TransportNetwork.send]
  cases hsend : net.sendTo node peer msg with
  | error e => exact h
  | ok result =>
      obtain ⟨handle, conn, data⟩ := result
      obtain ⟨hhandle, hdata, hconn, -⟩ := of_sendTo hsend
      obtain ⟨hside, -, hdialler, hacceptor, -⟩ := hsound.sendTo hsend
      refine h.setConnection hconn ?_ rfl rfl ?_
      · rw [hside]
        intro stream hmem
        rcases List.mem_append.mp hmem with hold | hnew
        · exact h.whole hconn stream hold
        · rw [List.mem_singleton.mp hnew]
          exact fun _ hended => by cases hended
      · -- messages are sent on the newest connection
        intro newer found hlt hfound hd ha
        exact absurd (ha.symm.trans hacceptor)
          (h.newest hhandle hlt hfound (hd.symm.trans hdialler))

theorem Tidy.ends (h : net.Tidy) {handle : Handle} {index written : ℕ}
    (hcareful : net.Careful (.ends handle index written)) :
    (net.ends handle index written).Tidy := by
  rw [TransportNetwork.ends]
  cases hconn : net.connections[handle.conn]? with
  | none => exact h
  | some conn =>
      refine h.setConnection_of_unread hconn ?_ rfl rfl
        (Connection.unread_endStream handle.side index written)
      refine (h.whole hconn).endStream ?_
      intro stream hstream
      apply hcareful
      rw [streamsOf_of_some hconn]
      exact hstream

theorem Tidy.read (h : net.Tidy) (hsound : net.Sound) (handle : Handle) :
    (net.read handle).Tidy := by
  rw [TransportNetwork.read]
  cases hconn : net.connections[handle.conn]? with
  | none => exact h
  | some conn =>
      dsimp only
      cases hnext : conn.nextData handle.side with
      | none => exact h
      | some data =>
          have hwhole := h.whole hconn
          obtain ⟨-, msg, hmsg, hunread⟩ := (hsound.connections hconn).take_of_whole hwhole hnext
          have htaken : (net.setConnection handle.conn (conn.take handle.side)).Tidy := by
            refine h.setConnection hconn hwhole rfl rfl ?_
            intro newer found hlt hfound hd ha
            have hnone := h.drained hlt hconn hfound hd ha
            rw [hunread] at hnone
            cases hnone
          dsimp only
          rw [hmsg]
          exact htaken.setNode fun _ => Or.inr rfl

theorem Tidy.disconnect (h : net.Tidy) (node peer : NodeId) : (net.disconnect node peer).Tidy := by
  rw [TransportNetwork.disconnect]
  cases (net.nodes node).connections peer with
  | none => exact h
  | some handle =>
      have hremoved : (net.setNode node ((net.nodes node).remove peer)).Tidy := by
        apply h.setNode
        intro other
        show Function.update (net.nodes node).connections peer none other = none ∨
          Function.update (net.nodes node).connections peer none other = _
        by_cases hother : other = peer
        · subst hother
          exact Or.inl (Function.update_self ..)
        · exact Or.inr (Function.update_of_ne hother ..)
      dsimp only
      cases hconn : net.connections[handle.conn]? with
      | none => exact hremoved
      | some conn =>
          have hwhole : Connection.Whole { conn with closed := true } := fun stream hmem =>
            h.whole hconn stream hmem
          exact @Tidy.setConnection_of_unread _ hremoved _ conn { conn with closed := true }
            hconn hwhole rfl rfl rfl

theorem Tidy.next (h : net.Tidy) (hsound : net.Sound) {event : TransportEvent}
    (hcareful : net.Careful event) : (net.next event).Tidy := by
  cases event with
  | listen node => exact h.setNode fun _ => Or.inr rfl
  | connect caller peer hardware => exact h.connect hcareful
  | send node peer msg => exact h.send hsound node peer msg
  | ends handle index written => exact h.ends hcareful
  | read handle => exact h.read hsound handle
  | recv node =>
      apply h.setNode
      intro peer
      rw [QuicTransport.recv]
      split <;> exact Or.inr rfl
  | disconnect node peer => exact h.disconnect node peer

/-! ### What is on its way -/

/-- A connection that changes in nothing that counts. -/
theorem flatMap_setConnection {index : ℕ} {old conn : Connection}
    (hold : net.connections[index]? = some old) {count : Connection → List MeshMessage}
    (h : count conn = count old) :
    (net.setConnection index conn).connections.flatMap count = net.connections.flatMap count := by
  show (net.connections.set index conn).flatMap count = _
  rw [List.flatMap_def, List.flatMap_def, List.map_set, h]
  congr 1
  apply List.ext_getElem?
  intro i
  rw [List.getElem?_set]
  by_cases hi : index = i
  · subst hi
    rw [if_pos rfl, List.length_map, if_pos (List.getElem?_eq_some_iff.mp hold).1,
      List.getElem?_map, hold]
    rfl
  · rw [if_neg hi]

/-- Where only one connection counts. -/
theorem flatMap_of_others {connections : List Connection} {count : Connection → List MeshMessage}
    {index : ℕ} {conn : Connection} (hconn : connections[index]? = some conn)
    (hothers : ∀ {other found}, other ≠ index → connections[other]? = some found →
      count found = []) : connections.flatMap count = count conn := by
  obtain ⟨hlt, hget⟩ := List.getElem?_eq_some_iff.mp hconn
  have hbefore : (connections.take index).flatMap count = [] := by
    rw [List.flatMap_eq_nil_iff]
    intro found hmem
    obtain ⟨i, hi⟩ := List.mem_iff_getElem?.mp hmem
    rw [List.getElem?_take] at hi
    split at hi
    · rename_i hindex
      exact hothers (Nat.ne_of_lt hindex) hi
    · cases hi
  have hafter : (connections.drop (index + 1)).flatMap count = [] := by
    rw [List.flatMap_eq_nil_iff]
    intro found hmem
    obtain ⟨i, hi⟩ := List.mem_iff_getElem?.mp hmem
    rw [List.getElem?_drop] at hi
    exact hothers (by omega) hi
  rw [← List.take_append_drop index connections, List.flatMap_append, hbefore,
    List.drop_eq_getElem_cons hlt, List.flatMap_cons, hafter, hget, List.append_nil,
    List.nil_append]

/-- The unread messages between two nodes, as long as only one connection has any. -/
theorem unreadFor_setConnection {index : ℕ} {old conn : Connection}
    (hold : net.connections[index]? = some old) (hdialler : conn.dialler = old.dialler)
    (hacceptor : conn.acceptor = old.acceptor)
    (hothers : ∀ {other found}, other ≠ index → net.connections[other]? = some found →
      old.dialler = found.dialler → old.acceptor = found.acceptor → found.unread = [])
    (src dst : NodeId) :
    if old.dialler = src ∧ old.acceptor = dst then
      net.connections.flatMap (unreadFor src dst) = old.unread ∧
        (net.setConnection index conn).connections.flatMap (unreadFor src dst) = conn.unread
    else
      (net.setConnection index conn).connections.flatMap (unreadFor src dst) =
        net.connections.flatMap (unreadFor src dst) := by
  split
  · rename_i hpair
    obtain ⟨rfl, rfl⟩ := hpair
    have hnone : ∀ {other found}, other ≠ index → net.connections[other]? = some found →
        unreadFor old.dialler old.acceptor found = [] := by
      intro other found hother hfound
      rw [unreadFor]
      split
      · rename_i hsame
        exact hothers hother hfound hsame.1.symm hsame.2.symm
      · rfl
    constructor
    · rw [flatMap_of_others hold hnone, unreadFor, if_pos ⟨rfl, rfl⟩]
    · have hconn : (net.setConnection index conn).connections[index]? = some conn := by
        rw [getElem?_setConnection hold, if_pos rfl]
      rw [flatMap_of_others hconn, unreadFor, if_pos ⟨hdialler, hacceptor⟩]
      intro other found hother hfound
      rw [getElem?_setConnection hold, if_neg hother] at hfound
      exact hnone hother hfound
  · rename_i hpair
    apply flatMap_setConnection hold
    rw [unreadFor, unreadFor, hdialler, hacceptor, if_neg hpair, if_neg hpair]

/-- Networks with the same inboxes and the same unread messages. -/
theorem links_congr {net' : TransportNetwork}
    (hinbox : ∀ node, (net'.nodes node).inbox = (net.nodes node).inbox)
    (hunread : ∀ src dst, net'.connections.flatMap (unreadFor src dst) =
      net.connections.flatMap (unreadFor src dst)) : net'.links = net.links := by
  funext src dst
  rw [links, links, hinbox, hunread]

/-- What is sent enters a link. -/
theorem Tidy.links_send (h : net.Tidy) (hsound : net.Sound) {node peer : NodeId}
    {msg : WireMessage} {handle : Handle} {conn : Connection} {data : List UInt8}
    (hsend : net.sendTo node peer msg = .ok (handle, conn, data)) :
    (net.setConnection handle.conn (conn.openUni handle.side msg data)).links =
      post net.links node peer msg.message := by
  obtain ⟨hhandle, -, hconn, -⟩ := of_sendTo hsend
  obtain ⟨hside, -, hdialler, hacceptor, -⟩ := hsound.sendTo hsend
  have hothers : ∀ {other found}, other ≠ handle.conn → net.connections[other]? = some found →
      conn.dialler = found.dialler → conn.acceptor = found.acceptor → found.unread = [] := by
    intro other found hother hfound hd ha
    rcases Nat.lt_or_gt_of_ne hother with hlt | hgt
    · exact h.drained hlt hfound hconn hd.symm ha.symm
    · exact absurd (ha.symm.trans hacceptor)
        (h.newest hhandle hgt hfound (hd.symm.trans hdialler))
  have hunread : (conn.openUni handle.side msg data).unread = conn.unread ++ [msg.message] := by
    rw [hside]
    exact Connection.unread_openUni (hsound.connections hconn) msg data
  funext src dst
  have hview := @unreadFor_setConnection net _ conn (conn.openUni handle.side msg data) hconn
    rfl rfl hothers src dst
  by_cases hpair : node = src ∧ peer = dst
  · obtain ⟨rfl, rfl⟩ := hpair
    rw [if_pos ⟨hdialler, hacceptor⟩] at hview
    rw [post_self, links, links, hview.1, hview.2, hunread, List.append_assoc]
    rfl
  · rw [if_neg fun hsame => hpair ⟨hdialler.symm.trans hsame.1, hacceptor.symm.trans hsame.2⟩]
      at hview
    rw [post_of_ne net.links node peer fun hsame => hpair ⟨hsame.1.symm, hsame.2.symm⟩, links,
      links, hview]
    rfl

/-- A reader moves a message from a connection to an inbox, which leaves it on its way. -/
theorem Tidy.links_read (h : net.Tidy) (hsound : net.Sound) (handle : Handle) :
    (net.read handle).links = net.links := by
  rw [TransportNetwork.read]
  cases hconn : net.connections[handle.conn]? with
  | none => rfl
  | some conn =>
      dsimp only
      cases hnext : conn.nextData handle.side with
      | none => rfl
      | some data =>
          obtain ⟨hside, msg, hmsg, hunread⟩ :=
            (hsound.connections hconn).take_of_whole (h.whole hconn) hnext
          have hothers : ∀ {other found}, other ≠ handle.conn →
              net.connections[other]? = some found → conn.dialler = found.dialler →
              conn.acceptor = found.acceptor → found.unread = [] := by
            intro other found hother hfound hd ha
            rcases Nat.lt_or_gt_of_ne hother with hlt | hgt
            · exact h.drained hlt hfound hconn hd.symm ha.symm
            · have hnone := h.drained hgt hconn hfound hd ha
              rw [hunread] at hnone
              cases hnone
          dsimp only
          rw [hmsg]
          funext src dst
          have hview := @unreadFor_setConnection net _ conn (conn.take handle.side) hconn rfl rfl
            hothers src dst
          rw [links, nodes_setNode]
          show (((if dst = conn.node handle.side.other then _ else net.nodes dst).inbox.filter
            fun arrival => arrival.peer = src).map Arrival.msg ++
              (net.setConnection handle.conn (conn.take handle.side)).connections.flatMap
                (unreadFor src dst)) = _
          rw [hside] at hview hunread ⊢
          by_cases hpair : conn.dialler = src ∧ conn.acceptor = dst
          · obtain ⟨rfl, rfl⟩ := hpair
            rw [if_pos ⟨rfl, rfl⟩] at hview
            rw [links, hview.1, hview.2, hunread,
              if_pos (show conn.acceptor = conn.node Side.dialler.other from rfl)]
            show (((net.nodes conn.acceptor).inbox ++ [_]).filter _).map _ ++ _ = _
            rw [List.filter_append, List.map_append, List.append_assoc]
            simp [Connection.node]
          · rw [if_neg hpair] at hview
            rw [links, hview]
            split
            · rename_i hdst
              replace hdst : dst = conn.acceptor := hdst
              have hsrc : conn.dialler ≠ src := fun hsrc => hpair ⟨hsrc, hdst.symm⟩
              subst hdst
              show (((net.nodes conn.acceptor).inbox ++ [_]).filter _).map _ ++ _ = _
              rw [List.filter_append]
              simp [Connection.node, hsrc]
            · rfl

/-- What is received leaves a link. -/
theorem links_recv {node : NodeId} {arrival : Arrival} {inbox : List Arrival}
    (hinbox : (net.nodes node).inbox = arrival :: inbox) :
    ∃ rest, net.links arrival.peer node = arrival.msg :: rest ∧
      (net.setNode node (net.nodes node).recv).links =
        setLink net.links arrival.peer node rest := by
  have hrecv : (net.nodes node).recv.inbox = inbox := by
    rw [QuicTransport.recv, hinbox]
  refine ⟨(inbox.filter fun other => other.peer = arrival.peer).map Arrival.msg ++
    net.connections.flatMap (unreadFor arrival.peer node), ?_, ?_⟩
  · rw [links, hinbox]
    simp
  · funext src dst
    rw [links, nodes_setNode]
    by_cases hpair : src = arrival.peer ∧ dst = node
    · obtain ⟨rfl, rfl⟩ := hpair
      rw [setLink_self, if_pos rfl, hrecv]
      rfl
    · rw [setLink_of_ne net.links _ _ hpair, links]
      split
      · rename_i hdst
        subst hdst
        have hsrc : arrival.peer ≠ src := fun hsrc => hpair ⟨hsrc.symm, rfl⟩
        rw [hrecv, hinbox]
        simp [hsrc]
        rfl
      · rfl

/-- A new connection has no messages. -/
theorem links_connect (caller peer : NodeId) (hardware : Discovery.HardwareProfile UInt64) :
    (net.connect caller peer hardware).links = net.links := by
  by_cases hanswers : net.Answers caller peer hardware
  · rw [connect_of_answers hanswers]
    refine links_congr ?_ ?_
    · intro node
      refine Eq.trans (kept_setNode QuicTransport.inbox (by rfl) node) ?_
      exact kept_setNode QuicTransport.inbox (by rfl) node
    · intro src dst
      show (net.connections ++ [Connection.opened caller peer]).flatMap _ = _
      rw [List.flatMap_append, List.flatMap_singleton, unreadFor]
      split <;> exact List.append_nil _
  · rw [connect_of_not_answers hanswers]

theorem links_ends (handle : Handle) (index written : ℕ) :
    (net.ends handle index written).links = net.links := by
  rw [ends]
  cases hconn : net.connections[handle.conn]? with
  | none => rfl
  | some conn =>
      refine links_congr (fun _ => rfl) fun src dst => flatMap_setConnection hconn ?_
      show (if _ then _ else _) = (if _ then _ else _)
      rw [Connection.unread_endStream]
      rfl

/-- A connection that is closed can still be read. -/
theorem links_disconnect (node peer : NodeId) : (net.disconnect node peer).links = net.links := by
  rw [disconnect]
  cases (net.nodes node).connections peer with
  | none => rfl
  | some handle =>
      have hremoved : (net.setNode node ((net.nodes node).remove peer)).links = net.links :=
        links_congr (kept_setNode QuicTransport.inbox rfl) fun _ _ => rfl
      dsimp only
      cases hconn : net.connections[handle.conn]? with
      | none => exact hremoved
      | some conn =>
          refine Eq.trans ?_ hremoved
          refine links_congr (fun _ => rfl) fun src dst => ?_
          exact @flatMap_setConnection (net.setNode node ((net.nodes node).remove peer)) _ conn
            { conn with closed := true } hconn (unreadFor src dst) rfl

/-- An event is what the links allow. -/
theorem Tidy.links_next (h : net.Tidy) (hsound : net.Sound) (event : TransportEvent) :
    Run Step net.links (net.moves event) (net.next event).links := by
  have hstay : (net.next event).links = net.links → net.moves event = [] →
      Run Step net.links (net.moves event) (net.next event).links := by
    intro hlinks hmoves
    rw [hlinks, hmoves]
    exact .nil _
  cases event with
  | listen node =>
      exact hstay (links_congr (kept_setNode QuicTransport.inbox rfl) fun _ _ => rfl) rfl
  | connect caller peer hardware => exact hstay (links_connect caller peer hardware) rfl
  | ends handle index written => exact hstay (links_ends handle index written) rfl
  | read handle => exact hstay (h.links_read hsound handle) rfl
  | disconnect node peer => exact hstay (links_disconnect node peer) rfl
  | send node peer msg =>
      show Run Step net.links (net.moves (.send node peer msg)) (net.send node peer msg).links
      rw [TransportNetwork.send, moves]
      cases hsend : net.sendTo node peer msg with
      | error e => exact .nil _
      | ok result =>
          obtain ⟨handle, conn, data⟩ := result
          dsimp only
          rw [h.links_send hsound hsend]
          exact Run.single (.send net.links node peer msg.message)
  | recv node =>
      show Run Step net.links (net.moves (.recv node))
        (net.setNode node (net.nodes node).recv).links
      rw [moves]
      cases hinbox : (net.nodes node).inbox with
      | nil =>
          have hsame : (net.nodes node).recv = net.nodes node := by
            rw [QuicTransport.recv, hinbox]
          rw [links_congr (kept_setNode QuicTransport.inbox (congrArg _ hsame)) fun _ _ => rfl]
          exact .nil _
      | cons arrival inbox =>
          obtain ⟨rest, hhead, hlinks⟩ := links_recv hinbox
          rw [hlinks]
          exact Run.single (.receive hhead)

/-- What has moved over the links. -/
def movesOf (events : List TransportEvent) : List (Move NodeId MeshMessage) :=
  (outputs next moves TransportNetwork.fresh events).flatten

/-- Every event of a run is careful. -/
def CarefulRun (events : List TransportEvent) : Prop :=
  ∀ before event, before ++ [event] <+: events → (after before).Careful event

theorem carefulRun_nil : CarefulRun [] := fun before event hpart => by
  simp at hpart

theorem carefulRun_snoc_iff {events : List TransportEvent} {last : TransportEvent} :
    CarefulRun (events ++ [last]) ↔ CarefulRun events ∧ (after events).Careful last := by
  constructor
  · exact fun h => ⟨fun before event hpart => h before event
      (hpart.trans (List.prefix_append events [last])), h events last (List.prefix_refl _)⟩
  · rintro ⟨h, hlast⟩ before event hpart
    rcases append_singleton_prefix_iff.mp hpart with ⟨rfl, rfl⟩ | hearlier
    · exact hlast
    · exact h before event hearlier

/-- Messages are short enough to be written in whole. -/
theorem careful_ends (events : List TransportEvent) (handle : Handle) (index : ℕ) :
    (after events).Careful (.ends handle index WireMessage.maxMessageSize) := by
  intro stream hstream _
  rw [streamsOf] at hstream
  cases hconn : (after events).connections[handle.conn]? with
  | none =>
      rw [hconn] at hstream
      cases hstream
  | some conn =>
      rw [hconn] at hstream
      have hhonest : stream.Honest := ((Sound.after events).connections hconn).honest handle.side
        stream (List.mem_of_getElem? hstream)
      exact (WireMessage.eq_of_encode hhonest).2

theorem CarefulRun.tidy {events : List TransportEvent} (h : CarefulRun events) :
    (after events).Tidy := by
  induction events using List.reverseRecOn with
  | nil => exact .fresh
  | append_singleton events last ih =>
      obtain ⟨hearlier, hlast⟩ := carefulRun_snoc_iff.mp h
      rw [after_snoc]
      exact (ih hearlier).next (Sound.after events) hlast

theorem movesOf_snoc (events : List TransportEvent) (last : TransportEvent) :
    movesOf (events ++ [last]) = movesOf events ++ (after events).moves last := by
  rw [movesOf, outputs_append, List.flatten_append]
  show _ ++ [(after events).moves last].flatten = _
  rw [List.flatten_singleton]
  rfl

/-- A careful run is a run of the links. -/
theorem CarefulRun.run {events : List TransportEvent} (h : CarefulRun events) :
    Run Step (fun _ _ => []) (movesOf events) (after events).links := by
  induction events using List.reverseRecOn with
  | nil => exact .nil _
  | append_singleton events last ih =>
      obtain ⟨hearlier, -⟩ := carefulRun_snoc_iff.mp h
      rw [after_snoc, movesOf_snoc]
      exact (ih hearlier).append (hearlier.tidy.links_next (Sound.after events) last)

/-- **Reliable links.** In a run in which nobody dials a peer again while something is unread,
and no write is given up, connections and inboxes together are first-in first-out links: for any
two nodes, what the one has sent is what the other has received and what is on its way, in this
order. -/
theorem reliable_links (events : List TransportEvent) (hcareful : CarefulRun events) :
    Run Step (fun _ _ => []) (movesOf events) (after events).links ∧
      ∀ src dst, (movesOf events).flatMap (Move.sent src dst) =
        (movesOf events).flatMap (Move.received src dst) ++ (after events).links src dst := by
  have hrun := hcareful.run
  exact ⟨hrun, fun src dst => conservation hrun src dst⟩

/-- A node listens, another one dials it and sends a heartbeat. -/
def heartbeatRun (dialler acceptor : NodeId) : List TransportEvent :=
  [] ++ [.listen acceptor] ++
    [.connect dialler acceptor
      ⟨⟨"", 1, 1, [], 0⟩, ⟨0, 0, 0⟩, [], ⟨0, 0⟩, ⟨"", "", false, .unknown⟩⟩] ++
    [.send dialler acceptor ⟨.ping, (7 : UInt64)⟩] ++
    [.ends ⟨0, .dialler⟩ 0 WireMessage.maxMessageSize] ++ [.read ⟨0, .dialler⟩] ++
    [.recv acceptor]

theorem carefulRun_heartbeat (dialler acceptor : NodeId) :
    CarefulRun (heartbeatRun dialler acceptor) := by
  simp only [heartbeatRun, carefulRun_snoc_iff]
  refine ⟨⟨⟨⟨⟨⟨carefulRun_nil, trivial⟩, ?_⟩, trivial⟩, careful_ends _ _ _⟩, trivial⟩, trivial⟩
  intro conn hmem
  cases hmem

theorem reliable_links_heartbeat :
    let dialler : NodeId := ⟨List.replicate 32 1, List.length_replicate⟩
    let acceptor : NodeId := ⟨List.replicate 32 2, List.length_replicate⟩
    let moves := movesOf (heartbeatRun dialler acceptor)
    moves = [.send dialler acceptor (.ping 7), .receive dialler acceptor (.ping 7)] ∧
      Run Step (fun _ _ => []) moves (after (heartbeatRun dialler acceptor)).links :=
  ⟨rfl, (reliable_links _ (carefulRun_heartbeat _ _)).1⟩

end TransportNetwork

end HiveBear.Mesh
