/-
# Connections between pinning nodes

A node's endpoint has a certificate of its own, generated when the node starts to listen, or
when it first connects without listening. It connects to every peer under one and the same
server name, and its verifier pins what that name shows.

So the first certificate a node has seen, of whichever peer, is the only one it accepts from
then on, and no certificate outlives the process it was generated in: a node's key file
keeps its identity, but not its certificate. No attempt is refused if and only if each node
only ever reaches one certificate.
-/

import HiveBear.Library.Run
import HiveBear.Mesh.Identity
import HiveBear.Mesh.Transport.Tofu

namespace HiveBear.Mesh.Quic

open LabelledRun TofuVerifier

/-- The name under which a node connects to any peer. -/
def serverName : String := "hivebear-mesh"

/-- A certificate in its encoded form. -/
abbrev Cert := List UInt8

/-- A node: its files, the identity of its process, and the verifier of its endpoint, once it
has one. -/
structure QuicNode (F : Type) (verifyingKey : SigningKey → NodeId) where
  identityFile : Option (List UInt8)
  identity : NodeIdentity verifyingKey
  tofuPinsPath : String
  disk : Json.Disk F
  verifier : Option TofuVerifier

/-- An attempt to connect: who tried, the peer whose endpoint was reached and the identity it
has, the certificate it showed, and the answer to it. -/
structure Attempt (N : Type) where
  caller : N
  peer : N
  peerId : NodeId
  cert : Cert
  answer : Except String Unit

/-- Nodes on a network: the endpoints that listen, the certificates generated so far, and the
attempts so far, first to last. -/
structure Network (N F : Type) (verifyingKey : SigningKey → NodeId) where
  nodes : N → QuicNode F verifyingKey
  listening : List (N × Cert)
  generated : List Cert
  attempts : List (Attempt N)

variable {N F : Type} [DecidableEq N] {verifyingKey : SigningKey → NodeId}

namespace QuicNode

variable (node : QuicNode F verifyingKey)

/-- A verifier with the pins of the node's file. -/
def makeVerifier : TofuVerifier := TofuVerifier.new (some node.tofuPinsPath) node.disk

/-- Start to listen: the endpoint gets a new verifier. -/
def listen : QuicNode F verifyingKey := { node with verifier := some node.makeVerifier }

/-- Check the certificate of a peer, with the verifier of the endpoint: the answer, and the
node afterwards. Without an endpoint the node first gets one. -/
def connect (sha256 : List UInt8 → List UInt8) (cert : Cert) :
    Except String Unit × QuicNode F verifyingKey :=
  let checked := (node.verifier.getD node.makeVerifier).verifyServerCert sha256 node.disk
    serverName cert
  (checked.1, { node with verifier := some checked.2.1, disk := checked.2.2 })

/-- Stop and start again: what is left are the files. -/
def restart (generated : SigningKey) : QuicNode F verifyingKey :=
  let loaded := NodeIdentity.loadOrGenerate node.identityFile generated
  { node with identityFile := loaded.2, identity := loaded.1, verifier := none }

/-- A node that starts for the first time. -/
def first (signingKey : SigningKey) (tofuPinsPath : String) : QuicNode F verifyingKey where
  identityFile := some (NodeIdentity.ofKey signingKey : NodeIdentity verifyingKey).save
  identity := NodeIdentity.ofKey signingKey
  tofuPinsPath := tofuPinsPath
  disk := fun _ => .missing
  verifier := none

end QuicNode

/-- What a node does, with the certificate that is generated for its endpoint. -/
inductive Label (N : Type)
  | listen (n : N) (cert : Cert)
  | connect (caller peer : N) (cert own : Cert)
  | restart (n : N) (generated : SigningKey)

/-- Steps of honest nodes: they reach endpoints that listen, and every certificate that is
generated is a new one. -/
inductive Step (sha256 : List UInt8 → List UInt8) :
    Network N F verifyingKey → Label N → Network N F verifyingKey → Prop
  | listen {s : Network N F verifyingKey} {n : N} {cert : Cert} (fresh : cert ∉ s.generated) :
      Step sha256 s (.listen n cert)
        { s with
          nodes := Function.update s.nodes n (s.nodes n).listen
          listening := (n, cert) :: s.listening
          generated := cert :: s.generated }
  | connect {s : Network N F verifyingKey} {caller peer : N} {cert own : Cert}
      (reached : (peer, cert) ∈ s.listening) (fresh : own ∉ s.generated) :
      Step sha256 s (.connect caller peer cert own)
        { s with
          nodes := Function.update s.nodes caller ((s.nodes caller).connect sha256 cert).2
          generated := if (s.nodes caller).verifier.isSome then s.generated else own :: s.generated
          attempts := s.attempts ++ [⟨caller, peer, (s.nodes peer).identity.nodeId, cert,
            ((s.nodes caller).connect sha256 cert).1⟩] }
  | restart {s : Network N F verifyingKey} {n : N} {generated : SigningKey} :
      Step sha256 s (.restart n generated)
        { s with
          nodes := Function.update s.nodes n ((s.nodes n).restart generated)
          listening := s.listening.filter fun endpoint => endpoint.1 ≠ n }

/-- All nodes start for the first time. -/
def Network.initial (keys : N → SigningKey) (paths : N → String) : Network N F verifyingKey where
  nodes n := QuicNode.first (keys n) (paths n)
  listening := []
  generated := []
  attempts := []

/-! ## What is pinned -/

section Pinned

variable {sha256 : List UInt8 → List UInt8} {s t : Network N F verifyingKey}

/-- The fingerprint a node has seen first. -/
def firstSeen (sha256 : List UInt8 → List UInt8) (attempts : List (Attempt N)) (n : N) :
    Option (List UInt8) :=
  (attempts.find? fun attempt => attempt.caller = n).map fun attempt => sha256 attempt.cert

/-- What a node has seen first behind one more attempt. -/
theorem firstSeen_append (attempts : List (Attempt N)) (attempt : Attempt N) (n : N) :
    firstSeen sha256 (attempts ++ [attempt]) n =
      if attempt.caller = n then
        some ((firstSeen sha256 attempts n).getD (sha256 attempt.cert))
      else firstSeen sha256 attempts n := by
  rw [firstSeen, firstSeen, List.find?_append]
  cases attempts.find? fun attempt => attempt.caller = n with
  | some earlier => simp
  | none =>
      by_cases hcaller : attempt.caller = n
      · simp [hcaller]
      · simp [hcaller]

/-- Who has tried has seen something, in an attempt of its own. -/
theorem exists_firstSeen (sha256 : List UInt8 → List UInt8) {attempts : List (Attempt N)}
    {attempt : Attempt N} (h : attempt ∈ attempts) :
    ∃ earlier, firstSeen sha256 attempts attempt.caller = some (sha256 earlier.cert) ∧
      earlier ∈ attempts ∧ earlier.caller = attempt.caller := by
  have hfound : (attempts.find? fun other => other.caller = attempt.caller).isSome := by
    rw [List.find?_isSome]
    exact ⟨attempt, h, decide_eq_true rfl⟩
  obtain ⟨earlier, hearlier⟩ := Option.isSome_iff_exists.mp hfound
  refine ⟨earlier, ?_, List.mem_of_find?_eq_some hearlier, ?_⟩
  · rw [firstSeen, hearlier]
    rfl
  · have hcaller := List.find?_some hearlier
    exact of_decide_eq_true hcaller

/-- An endpoint's verifier has the pins of the file. -/
def QuicNode.Stored (node : QuicNode F verifyingKey) : Prop :=
  ∀ verifier, node.verifier = some verifier → verifier = node.makeVerifier

/-- A node that connects keeps the first fingerprint it has seen, and accepts a certificate
exactly if it has that one. -/
theorem QuicNode.Stored.connect {node : QuicNode F verifyingKey} (h : node.Stored) (cert : Cert) :
    let seen := (node.makeVerifier.pinned.lookup serverName).getD (sha256 cert)
    (node.connect sha256 cert).2.Stored ∧
      (node.connect sha256 cert).2.makeVerifier.pinned.lookup serverName = some seen ∧
      ((node.connect sha256 cert).1 = .ok () ↔ seen = sha256 cert) := by
  have hverifier : node.verifier.getD node.makeVerifier = node.makeVerifier := by
    cases hnode : node.verifier with
    | none => rfl
    | some verifier => exact h verifier hnode
  rw [QuicNode.connect, hverifier]
  rcases @verifyServerCert_cases F sha256 node.makeVerifier node.disk serverName cert with
    ⟨hpin, hanswer⟩ | ⟨existing, message, hpin, hother, hanswer⟩ | ⟨hfresh, hanswer⟩
  · rw [hanswer, hpin]
    refine ⟨?_, hpin, ?_⟩
    · intro verifier hstored
      cases hstored
      rfl
    · exact ⟨fun _ => rfl, fun _ => rfl⟩
  · rw [hanswer, hpin]
    refine ⟨?_, hpin, ?_⟩
    · intro verifier hstored
      cases hstored
      rfl
    · constructor
      · intro hok
        cases hok
      · intro hsame
        exact absurd hsame hother
  · rw [hanswer, hfresh]
    have hsaved := @TofuVerifier.new_savePins F
      { node.makeVerifier with
        pinned := node.makeVerifier.pinned.insert serverName (sha256 cert) }
      node.tofuPinsPath node.disk rfl
    refine ⟨?_, ?_, ?_⟩
    · intro verifier hstored
      cases hstored
      exact hsaved.symm
    · show (TofuVerifier.new _ _).pinned.lookup serverName = _
      rw [hsaved]
      exact AList.lookup_insert _
    · exact ⟨fun _ => rfl, fun _ => rfl⟩

/-- What holds of every network: the pins of every node are what it has seen first, and every
answer is by them. -/
structure Pinned (sha256 : List UInt8 → List UInt8) (s : Network N F verifyingKey) : Prop where
  stored : ∀ n, (s.nodes n).Stored
  pinned : ∀ n, (s.nodes n).makeVerifier.pinned.lookup serverName =
    firstSeen sha256 s.attempts n
  answers : ∀ attempt ∈ s.attempts, attempt.answer = .ok () ↔
    firstSeen sha256 s.attempts attempt.caller = some (sha256 attempt.cert)

theorem pinned_initial (keys : N → SigningKey) (paths : N → String) :
    Pinned sha256 (Network.initial keys paths : Network N F verifyingKey) where
  stored := fun n verifier hverifier => by cases hverifier
  pinned := fun n => rfl
  answers := fun attempt hattempt => by cases hattempt

/-- What a node does without connecting leaves its pins alone. -/
theorem Pinned.update (h : Pinned sha256 s) {n : N} {node : QuicNode F verifyingKey}
    {listening : List (N × Cert)} {generated : List Cert} (hstored : node.Stored)
    (hsame : node.makeVerifier = (s.nodes n).makeVerifier) :
    Pinned sha256 { s with
      nodes := Function.update s.nodes n node
      listening := listening
      generated := generated } where
  stored := fun other => by
    by_cases hother : other = n
    · subst hother
      show (Function.update s.nodes other node other).Stored
      rw [Function.update_self]
      exact hstored
    · show (Function.update s.nodes n node other).Stored
      rw [Function.update_of_ne hother]
      exact h.stored other
  pinned := fun other => by
    by_cases hother : other = n
    · subst hother
      show (Function.update s.nodes other node other).makeVerifier.pinned.lookup _ = _
      rw [Function.update_self, hsame]
      exact h.pinned other
    · show (Function.update s.nodes n node other).makeVerifier.pinned.lookup _ = _
      rw [Function.update_of_ne hother]
      exact h.pinned other
  answers := h.answers

/-- An attempt is answered by what its caller has seen first, and pins that. -/
theorem Pinned.connect (h : Pinned sha256 s) (caller peer : N) (cert : Cert) {peerId : NodeId}
    {generated : List Cert} :
    Pinned sha256 { s with
      nodes := Function.update s.nodes caller ((s.nodes caller).connect sha256 cert).2
      generated := generated
      attempts := s.attempts ++ [⟨caller, peer, peerId, cert,
        ((s.nodes caller).connect sha256 cert).1⟩] } := by
  have hconnect := @QuicNode.Stored.connect F verifyingKey sha256 _ (h.stored caller) cert
  rw [h.pinned caller] at hconnect
  obtain ⟨hstored, hpinned, hanswer⟩ := hconnect
  refine ⟨?_, ?_, ?_⟩
  · intro other
    show (Function.update s.nodes caller _ other).Stored
    by_cases hother : other = caller
    · subst hother
      rw [Function.update_self]
      exact hstored
    · rw [Function.update_of_ne hother]
      exact h.stored other
  · intro other
    show (Function.update s.nodes caller _ other).makeVerifier.pinned.lookup _ = firstSeen _ (_ ++ _) _
    rw [firstSeen_append]
    by_cases hother : other = caller
    · subst hother
      rw [Function.update_self, hpinned, if_pos rfl]
    · rw [Function.update_of_ne hother, h.pinned other, if_neg fun h => hother h.symm]
  · intro attempt hattempt
    show _ ↔ firstSeen _ (_ ++ _) _ = _
    rw [firstSeen_append]
    rcases List.mem_append.mp hattempt with hold | hnew
    · obtain ⟨earlier, hearlier, -⟩ := exists_firstSeen sha256 hold
      rw [h.answers attempt hold, hearlier]
      split <;> exact Iff.rfl
    · obtain rfl := List.mem_singleton.mp hnew
      rw [if_pos rfl, hanswer, Option.some_inj]

/-- Every step keeps it so. -/
theorem Pinned.step (h : Pinned sha256 s) {label : Label N} (step : Step sha256 s label t) :
    Pinned sha256 t := by
  cases step with
  | @listen n cert fresh =>
      apply h.update
      · intro verifier hverifier
        cases hverifier
        rfl
      · rfl
  | @connect caller peer cert own reached fresh => exact h.connect caller peer cert
  | @restart n generated =>
      apply h.update
      · intro verifier hverifier
        cases hverifier
      · rfl

omit [DecidableEq N] in
/-- The peers and certificates of the endpoints that listen or have been reached. -/
def endpoints (s : Network N F verifyingKey) : List (N × Cert) :=
  s.listening ++ s.attempts.map fun attempt => (attempt.peer, attempt.cert)

omit [DecidableEq N] in
/-- An endpoint that is reached listens. -/
theorem mem_endpoints_append {attempt : Attempt N} {e : N × Cert}
    (reached : (attempt.peer, attempt.cert) ∈ s.listening)
    (he : e ∈ s.listening ++ (s.attempts ++ [attempt]).map fun attempt =>
      (attempt.peer, attempt.cert)) : e ∈ endpoints s := by
  rw [List.map_append, ← List.append_assoc] at he
  rcases List.mem_append.mp he with he | he
  · exact he
  · obtain rfl := List.mem_singleton.mp he
    exact List.mem_append_left _ reached

/-- No certificate is of two peers. -/
structure Owned (s : Network N F verifyingKey) : Prop where
  generated : ∀ e ∈ endpoints s, e.2 ∈ s.generated
  owner : ∀ e ∈ endpoints s, ∀ e' ∈ endpoints s, e.2 = e'.2 → e.1 = e'.1

/-- Every step keeps it so, since certificates are new. -/
theorem Owned.step (h : Owned s) {label : Label N} (step : Step sha256 s label t) : Owned t := by
  cases step with
  | @listen n cert fresh =>
      have hnew : ∀ e ∈ endpoints s, e.2 ≠ cert := by
        rintro e he rfl
        exact fresh (h.generated e he)
      constructor
      · intro e he
        rcases List.mem_cons.mp he with rfl | he
        · exact List.mem_cons_self ..
        · exact List.mem_cons_of_mem _ (h.generated e he)
      · intro e he e' he' hsame
        rcases List.mem_cons.mp he with rfl | he <;> rcases List.mem_cons.mp he' with rfl | he'
        · rfl
        · exact absurd hsame.symm (hnew e' he')
        · exact absurd hsame (hnew e he)
        · exact h.owner e he e' he' hsame
  | @connect caller peer cert own reached fresh =>
      constructor
      · intro e he
        have hgenerated := h.generated e (mem_endpoints_append reached he)
        show e.2 ∈ if _ then _ else _
        split
        · exact hgenerated
        · exact List.mem_cons_of_mem _ hgenerated
      · intro e he e' he' hsame
        exact h.owner e (mem_endpoints_append reached he) e' (mem_endpoints_append reached he') hsame
  | @restart n generated =>
      have hold : ∀ e, e ∈ s.listening.filter (fun endpoint => endpoint.1 ≠ n) ++
          s.attempts.map (fun attempt => (attempt.peer, attempt.cert)) → e ∈ endpoints s := by
        intro e he
        rcases List.mem_append.mp he with he | he
        · exact List.mem_append_left _ (List.mem_filter.mp he).1
        · exact List.mem_append_right _ he
      constructor
      · intro e he
        exact h.generated e (hold e he)
      · intro e he e' he' hsame
        exact h.owner e (hold e he) e' (hold e' he') hsame

/-- **No attempt is refused exactly if every node has only ever reached one certificate**, up to
its fingerprint; and a certificate is of one peer. -/
theorem pinning_accepts_iff {keys : N → SigningKey} {paths : N → String}
    {labels : List (Label N)} (run : Run (Step sha256) (Network.initial keys paths) labels t) :
    ((∀ attempt ∈ t.attempts, attempt.answer = .ok ()) ↔
      ∀ attempt ∈ t.attempts, ∀ other ∈ t.attempts, other.caller = attempt.caller →
        sha256 other.cert = sha256 attempt.cert) ∧
    ∀ attempt ∈ t.attempts, ∀ other ∈ t.attempts, other.cert = attempt.cert →
      other.peer = attempt.peer := by
  have hpinned : Pinned sha256 t :=
    run.invariant (fun h step => h.step step) (pinned_initial keys paths)
  have hnobody : Owned (Network.initial keys paths : Network N F verifyingKey) := by
    constructor <;> intro e he <;> cases he
  have howned : Owned t := run.invariant (fun h step => h.step step) hnobody
  refine ⟨⟨?_, ?_⟩, ?_⟩
  · intro haccepted attempt hattempt other hother hcaller
    have hfirst := (hpinned.answers attempt hattempt).mp (haccepted attempt hattempt)
    have hfirst' := (hpinned.answers other hother).mp (haccepted other hother)
    rw [hcaller, hfirst] at hfirst'
    injection hfirst' with hsame
    exact hsame.symm
  · intro hone attempt hattempt
    obtain ⟨earlier, hearlier, hmem, hcaller⟩ := exists_firstSeen sha256 hattempt
    rw [hpinned.answers attempt hattempt, hearlier,
      hone attempt hattempt earlier hmem hcaller]
  · intro attempt hattempt other hother hsame
    have hreached : ∀ attempt ∈ t.attempts, (attempt.peer, attempt.cert) ∈ endpoints t :=
      fun attempt h => List.mem_append_right _ (List.mem_map.mpr ⟨attempt, h, rfl⟩)
    exact howned.owner _ (hreached other hother) _ (hreached attempt hattempt) hsame

end Pinned

/-! ## A peer that restarts -/

/-- The public keys of two signing keys. -/
def publicKey (key : SigningKey) : NodeId :=
  if key.val = List.replicate 32 0 then
    ⟨[59, 106, 39, 188, 206, 182, 164, 45, 98, 163, 168, 208, 42, 111, 13, 115, 101, 50, 21, 119, 29,
      226, 67, 166, 58, 192, 72, 161, 139, 89, 218, 41], rfl⟩
  else
    ⟨[138, 136, 227, 221, 116, 9, 241, 149, 253, 82, 219, 45, 60, 186, 93, 114, 202, 103, 9, 191, 29,
      148, 18, 27, 243, 116, 136, 1, 180, 15, 111, 92], rfl⟩

/-- The key of the caller, and that of its peer. -/
def keyOf (isPeer : Bool) : SigningKey :=
  ⟨List.replicate 32 (if isPeer then 1 else 0), List.length_replicate⟩

/-- Two nodes that start for the first time. -/
def pair : Network Bool ℚ publicKey := Network.initial keyOf fun _ => "pins.json"

/-- The caller accepts its peer as often as it reaches the same process. -/
theorem pinning_accepts_iff_same_process :
    ∃ t, Run (Step digest) pair
        [.listen true [1], .connect false true [1] [3], .connect false true [1] [4]] t ∧
      ∀ attempt ∈ t.attempts, attempt.answer = .ok () := by
  have run := @Run.nil _ _ (Step digest) pair
    |>.snoc (@Step.listen _ _ _ _ _ _ true [1] (by decide))
    |>.snoc (@Step.connect _ _ _ _ _ _ false true [1] [3] (by decide) (by decide))
    |>.snoc (@Step.connect _ _ _ _ _ _ false true [1] [4] (by decide) (by decide))
  refine ⟨_, run, (pinning_accepts_iff run).1.mpr ?_⟩
  intro attempt hattempt other hother _
  change attempt ∈ [_, _] at hattempt
  change other ∈ [_, _] at hother
  rcases List.mem_pair.mp hattempt with rfl | rfl <;>
    rcases List.mem_pair.mp hother with rfl | rfl <;> rfl

/-- It refuses the peer behind a restart, though the peer's identity is still the same. -/
theorem restarted_peer_is_refused :
    ∃ t first second message, Run (Step digest) pair
        [.listen true [1], .connect false true [1] [3], .restart true (keyOf false),
          .listen true [2], .connect false true [2] [4]] t ∧
      t.attempts = [first, second] ∧ first.answer = .ok () ∧ second.answer = .error message ∧
      second.peerId = first.peerId := by
  have run := @Run.nil _ _ (Step digest) pair
    |>.snoc (@Step.listen _ _ _ _ _ _ true [1] (by decide))
    |>.snoc (@Step.connect _ _ _ _ _ _ false true [1] [3] (by decide) (by decide))
    |>.snoc (@Step.restart _ _ _ _ _ _ true (keyOf false))
    |>.snoc (@Step.listen _ _ _ _ _ _ true [2] (by decide))
    |>.snoc (@Step.connect _ _ _ _ _ _ false true [2] [4] (by decide) (by decide))
  exact ⟨_, _, _, _, run, rfl, rfl, rfl, rfl⟩

end HiveBear.Mesh.Quic
