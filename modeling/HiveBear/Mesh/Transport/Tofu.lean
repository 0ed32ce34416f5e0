/-
# Trust on first use

A verifier accepts the first certificate that a server name shows and keeps its fingerprint;
from then on that name must show a certificate with the same fingerprint. The pins are kept
in memory, and in a file if the verifier has a path for one. The file is a JSON map from
names to fingerprints in hexadecimal, written behind every new pin and read when a verifier
is made.

With a file, making a new verifier changes nothing: it has the pins of the one before it, so
that a pin holds for good. Without one it holds as long as the verifier does.

The hash function is a parameter, and writing a file is taken to succeed.
-/

import HiveBear.Library.Json
import HiveBear.Mesh.Peer

namespace HiveBear.Mesh

open Json

/-! ## Hexadecimal -/

/-- The value of a hexadecimal digit of either case. -/
def hexValue (digit : Char) : Option ℕ :=
  if '0' ≤ digit ∧ digit ≤ '9' then some (digit.toNat - '0'.toNat)
  else if 'a' ≤ digit ∧ digit ≤ 'f' then some (digit.toNat - 'a'.toNat + 10)
  else if 'A' ≤ digit ∧ digit ≤ 'F' then some (digit.toNat - 'A'.toNat + 10)
  else none

/-- The bytes of pairs of digits. -/
def hexPairs : List Char → Option (List UInt8)
  | [] => some []
  | [_] => none
  | high :: low :: rest => do
      let h ← hexValue high
      let l ← hexValue low
      let bytes ← hexPairs rest
      return UInt8.ofNat (16 * h + l) :: bytes

/-- The bytes that a text in hexadecimal stands for. -/
def hexDecode (text : String) : Option (List UInt8) := hexPairs text.toList

theorem hexValue_digit : ∀ n < 16,
    hexValue ("0123456789abcdef".toList.getD n '0') = some n := by decide

/-- What is written in hexadecimal is read back. -/
theorem hexDecode_hexEncode (bytes : List UInt8) : hexDecode (hexEncode bytes) = some bytes := by
  rw [hexDecode, hexEncode, String.toList_ofList]
  induction bytes with
  | nil => rfl
  | cons b bytes ih =>
      have hb := b.toNat_lt
      rw [List.flatMap_cons, List.cons_append, List.cons_append, List.nil_append, hexPairs,
        hexValue_digit _ (by omega), hexValue_digit _ (by omega), ih]
      have hbyte : 16 * (b.toNat / 16) + b.toNat % 16 = b.toNat := Nat.div_add_mod b.toNat 16
      simp only [Option.bind_eq_bind, Option.bind_some]
      rw [hbyte, UInt8.ofNat_toNat]
      rfl

/-! ## The verifier -/

variable {F : Type}

/-- A verifier of server certificates. -/
structure TofuVerifier where
  /-- The fingerprint of the pinned certificate of each server name. -/
  pinned : AList fun _ : String => List UInt8
  /-- Optional path for keeping pins across restarts. -/
  storagePath : Option String

namespace TofuVerifier

/-- The pins in a file. -/
def loadPins (file : Json.File F) : Option (AList fun _ : String => String) :=
  file.value.bind (Codec.string : Codec F String).textMap.read

/-- A verifier with the pins that are stored. A pin that is not hexadecimal is skipped. -/
def new (storagePath : Option String) (disk : Disk F) : TofuVerifier where
  pinned :=
    match storagePath.bind fun path => loadPins (disk path) with
    | none => ∅
    | some loaded =>
        AList.ofPairs (loaded.pairs.filterMap fun e => (hexDecode e.2).map (Prod.mk e.1))
  storagePath := storagePath

variable (verifier : TofuVerifier)

/-- The pins as they are stored. -/
def storedPins : AList fun _ : String => String :=
  AList.ofPairs (verifier.pinned.pairs.map fun e => (e.1, hexEncode e.2))

/-- Store the pins. -/
def savePins (disk : Disk F) : Disk F :=
  match verifier.storagePath with
  | none => disk
  | some path =>
      match (Codec.string : Codec F String).textMap.write verifier.storedPins with
      | some value => Function.update disk path (.holds value)
      | none => disk

section Verify

variable (sha256 : List UInt8 → List UInt8)

/-- Check the certificate that a server name shows: the answer, the verifier afterwards, and
the disk. -/
def verifyServerCert (disk : Disk F) (name : String) (cert : List UInt8) :
    Except String Unit × TofuVerifier × Disk F :=
  let fp := sha256 cert
  match verifier.pinned.lookup name with
  | some existing =>
      if existing ≠ fp then
        (.error s!"TOFU certificate mismatch for '{name}': pinned fingerprint does not match",
          verifier, disk)
      else (.ok (), verifier, disk)
  | none =>
      let pinning := { verifier with pinned := verifier.pinned.insert name fp }
      (.ok (), pinning, pinning.savePins disk)

end Verify

/-! ## What a file keeps -/

variable {verifier} {path : String} {disk : Disk F}

/-- **What is stored is loaded.** -/
theorem new_savePins (hpath : verifier.storagePath = some path) :
    new (some path) (verifier.savePins disk) = verifier := by
  obtain ⟨value, hwrite, hread⟩ := Codec.readsBack_iff.mp
    (@Codec.readsBack_textMap F _ Codec.string verifier.storedPins
      fun _ _ => Codec.readsBack_string _)
  have hfile : verifier.savePins disk path = .holds value := by
    rw [savePins, hpath]
    simp only [hwrite]
    exact Function.update_self ..
  have hloaded : loadPins (verifier.savePins disk path) = some verifier.storedPins := by
    rw [loadPins, hfile]
    exact hread
  have hpairs : verifier.storedPins.pairs =
      verifier.pinned.pairs.map fun e => (e.1, hexEncode e.2) := by
    apply AList.pairs_ofPairs
    rw [List.map_map]
    exact AList.nodup_pairs verifier.pinned
  have hdecoded : verifier.storedPins.pairs.filterMap
      (fun e => (hexDecode e.2).map (Prod.mk e.1)) = verifier.pinned.pairs := by
    rw [hpairs, List.filterMap_map]
    simp only [Function.comp_def, hexDecode_hexEncode, Option.map_some]
    exact List.filterMap_some
  rw [new, Option.bind_some, hloaded]
  simp only
  rw [hdecoded, AList.ofPairs_pairs, ← hpath]

/-! ## Runs -/

section Runs

variable (sha256 : List UInt8 → List UInt8)

/-- A handshake, or a restart. A process that starts to listen makes a new verifier, too. -/
inductive TofuEvent
  | handshake (name : String) (cert : List UInt8)
  | restart

/-- A verifier with its disk, and the certificates accepted so far with their names. -/
structure TofuState (F : Type) where
  verifier : TofuVerifier
  disk : Disk F
  accepted : List (String × List UInt8)

/-- A process that has just started. -/
def TofuState.start (storagePath : Option String) (disk : Disk F) : TofuState F :=
  ⟨new storagePath disk, disk, []⟩

def TofuState.step (s : TofuState F) : TofuEvent → TofuState F
  | .handshake name cert =>
      match s.verifier.verifyServerCert sha256 s.disk name cert with
      | (.ok _, verifier, disk) => ⟨verifier, disk, s.accepted ++ [(name, cert)]⟩
      | (.error _, verifier, disk) => ⟨verifier, disk, s.accepted⟩
  | .restart => ⟨new s.verifier.storagePath s.disk, s.disk, s.accepted⟩

def TofuState.run (s : TofuState F) (events : List TofuEvent) : TofuState F :=
  events.foldl (TofuState.step sha256) s

/-- The answer to a certificate. -/
def TofuState.accepts (s : TofuState F) (name : String) (cert : List UInt8) : Prop :=
  (s.verifier.verifyServerCert sha256 s.disk name cert).1 = .ok ()

variable {sha256}

/-- What a check does. -/
theorem verifyServerCert_cases (verifier : TofuVerifier) (disk : Disk F) (name : String)
    (cert : List UInt8) :
    (verifier.pinned.lookup name = some (sha256 cert) ∧
      verifier.verifyServerCert sha256 disk name cert = (.ok (), verifier, disk)) ∨
    (∃ existing message, verifier.pinned.lookup name = some existing ∧ existing ≠ sha256 cert ∧
      verifier.verifyServerCert sha256 disk name cert = (.error message, verifier, disk)) ∨
    (verifier.pinned.lookup name = none ∧
      verifier.verifyServerCert sha256 disk name cert =
        (.ok (), { verifier with pinned := verifier.pinned.insert name (sha256 cert) },
          { verifier with pinned := verifier.pinned.insert name (sha256 cert) }.savePins disk)) := by
  cases hpin : verifier.pinned.lookup name with
  | none =>
      refine Or.inr (Or.inr ⟨rfl, ?_⟩)
      simp only [verifyServerCert, hpin]
  | some existing =>
      by_cases hsame : existing = sha256 cert
      · subst hsame
        refine Or.inl ⟨rfl, ?_⟩
        simp only [verifyServerCert, hpin, ne_eq, not_true_eq_false, if_false]
      · refine Or.inr (Or.inl ⟨existing,
          s!"TOFU certificate mismatch for '{name}': pinned fingerprint does not match", rfl, hsame,
          ?_⟩)
        simp only [verifyServerCert, hpin, ne_eq, if_pos hsame]

/-- What a handshake does. -/
theorem step_handshake_cases (s : TofuState F) (name : String) (cert : List UInt8) :
    (s.verifier.pinned.lookup name = some (sha256 cert) ∧
      s.step sha256 (.handshake name cert) = { s with accepted := s.accepted ++ [(name, cert)] }) ∨
    s.step sha256 (.handshake name cert) = s ∨
    (s.verifier.pinned.lookup name = none ∧
      ∃ pinning : TofuVerifier, pinning.storagePath = s.verifier.storagePath ∧
        pinning.pinned = s.verifier.pinned.insert name (sha256 cert) ∧
        s.step sha256 (.handshake name cert) =
          ⟨pinning, pinning.savePins s.disk, s.accepted ++ [(name, cert)]⟩) := by
  rw [TofuState.step]
  rcases verifyServerCert_cases s.verifier s.disk name cert with ⟨hpin, hanswer⟩ |
    ⟨existing, message, -, -, hanswer⟩ | ⟨hfresh, hanswer⟩
  · rw [hanswer]
    exact Or.inl ⟨hpin, rfl⟩
  · rw [hanswer]
    exact Or.inr (Or.inl rfl)
  · rw [hanswer]
    exact Or.inr (Or.inr ⟨hfresh,
      { s.verifier with pinned := s.verifier.pinned.insert name (sha256 cert) }, rfl, rfl, rfl⟩)

/-- Trust is kept: a name that has had a certificate accepted is pinned to its fingerprint,
and the file, if there is one, has the same pins. -/
structure Trusts (sha256 : List UInt8 → List UInt8) (s : TofuState F) : Prop where
  pinned : ∀ {name cert}, (name, cert) ∈ s.accepted →
    s.verifier.pinned.lookup name = some (sha256 cert)
  stored : ∀ {path}, s.verifier.storagePath = some path → new (some path) s.disk = s.verifier

/-- A handshake keeps trust. -/
theorem Trusts.handshake {s : TofuState F} (h : Trusts sha256 s) (name : String)
    (cert : List UInt8) : Trusts sha256 (s.step sha256 (.handshake name cert)) := by
  rcases @step_handshake_cases F sha256 s name cert with ⟨hpin, hnext⟩ | hnext |
    ⟨hfresh, pinning, hpath, hpinned, hnext⟩
  · rw [hnext]
    refine ⟨?_, h.stored⟩
    intro name' cert' haccepted
    rcases List.mem_append.mp haccepted with hold | hnew
    · exact h.pinned hold
    · cases List.mem_singleton.mp hnew
      exact hpin
  · rw [hnext]
    exact h
  · rw [hnext]
    refine ⟨?_, new_savePins⟩
    intro name' cert' haccepted
    show pinning.pinned.lookup name' = _
    rw [hpinned]
    rcases List.mem_append.mp haccepted with hold | hnew
    · have hpin := h.pinned hold
      have hother : name' ≠ name := by
        rintro rfl
        rw [hfresh] at hpin
        cases hpin
      exact (AList.lookup_insert_ne hother).trans hpin
    · cases List.mem_singleton.mp hnew
      exact AList.lookup_insert _

/-- A restart changes nothing if there is a file. -/
theorem Trusts.restart {s : TofuState F} (h : Trusts sha256 s)
    (hpath : s.verifier.storagePath ≠ none) : s.step sha256 .restart = s := by
  obtain ⟨path, hpath⟩ := Option.ne_none_iff_exists'.mp hpath
  show (⟨new s.verifier.storagePath s.disk, s.disk, s.accepted⟩ : TofuState F) = s
  rw [hpath, h.stored hpath]

/-- A verifier keeps its path. -/
theorem storagePath_step (s : TofuState F) (event : TofuEvent) :
    (s.step sha256 event).verifier.storagePath = s.verifier.storagePath := by
  cases event with
  | restart => rfl
  | handshake name cert =>
      rcases @step_handshake_cases F sha256 s name cert with ⟨-, hnext⟩ | hnext |
        ⟨-, pinning, hpath, -, hnext⟩
      · rw [hnext]
      · rw [hnext]
      · rw [hnext]
        exact hpath

theorem storagePath_run (s : TofuState F) (events : List TofuEvent) :
    (s.run sha256 events).verifier.storagePath = s.verifier.storagePath := by
  induction events generalizing s with
  | nil => rfl
  | cons event events ih => exact (ih (s.step sha256 event)).trans (storagePath_step s event)

/-- Trust is kept by runs that restart only with a file. -/
theorem Trusts.run {s : TofuState F} (h : Trusts sha256 s) {events : List TofuEvent}
    (hkept : s.verifier.storagePath ≠ none ∨ .restart ∉ events) :
    Trusts sha256 (s.run sha256 events) := by
  induction events generalizing s with
  | nil => exact h
  | cons event events ih =>
      have hnext : Trusts sha256 (s.step sha256 event) := by
        cases event with
        | handshake name cert => exact h.handshake name cert
        | restart =>
            have hpath := hkept.resolve_right fun h => h (List.mem_cons_self ..)
            rw [h.restart hpath]
            exact h
      apply ih hnext
      rw [storagePath_step]
      exact hkept.imp_right fun h hlater => h (List.mem_cons_of_mem _ hlater)

theorem trusts_start (storagePath : Option String) (disk : Disk F) :
    Trusts sha256 (TofuState.start storagePath disk) where
  pinned := fun haccepted => by cases haccepted
  stored := fun {path} hpath => by
    obtain rfl : storagePath = some path := hpath
    rfl

/-- **Trust on first use is kept** by every run with a pin file, and by every run without a
restart: all certificates accepted for a name have one fingerprint, a certificate with
another one is refused, and with a file a restart does not forget the pin. -/
theorem trust_kept (sha256 : List UInt8 → List UInt8) {storagePath : Option String}
    {disk : Disk F} {events : List TofuEvent}
    (hkept : storagePath ≠ none ∨ .restart ∉ events) :
    let s := (TofuState.start storagePath disk).run sha256 events
    (∀ {name cert cert'}, (name, cert) ∈ s.accepted → (name, cert') ∈ s.accepted →
      sha256 cert' = sha256 cert) ∧
    (∀ {name cert cert'}, (name, cert) ∈ s.accepted → sha256 cert' ≠ sha256 cert →
      ¬ s.accepts sha256 name cert') ∧
    (storagePath ≠ none → ∀ {name cert}, (name, cert) ∈ s.accepted →
      (s.step sha256 .restart).verifier.pinned.lookup name = some (sha256 cert)) := by
  intro s
  have htrusts : Trusts sha256 s := (trusts_start storagePath disk).run hkept
  refine ⟨?_, ?_, ?_⟩
  · intro name cert cert' hcert hcert'
    have hsame := (htrusts.pinned hcert').symm.trans (htrusts.pinned hcert)
    injection hsame
  · intro name cert cert' hcert hother haccepts
    rw [TofuState.accepts] at haccepts
    rcases @verifyServerCert_cases F sha256 s.verifier s.disk name cert' with ⟨hpin, -⟩ |
      ⟨existing, message, -, -, hanswer⟩ | ⟨hfresh, -⟩
    · rw [htrusts.pinned hcert] at hpin
      injection hpin with hsame
      exact hother hsame.symm
    · rw [hanswer] at haccepts
      cases haccepts
    · rw [htrusts.pinned hcert] at hfresh
      cases hfresh
  · intro hpath name cert hcert
    have hkeeps : s.verifier.storagePath = storagePath := storagePath_run _ _
    rw [htrusts.restart (by rw [hkeeps]; exact hpath)]
    exact htrusts.pinned hcert

end Runs

/-! ## A restart -/

/-- The digests of two certificates of a single byte. -/
def digest : List UInt8 → List UInt8
  | [1] => [75, 245, 18, 47, 52, 69, 84, 197, 59, 222, 46, 187, 140, 210, 183, 227, 209, 96, 10, 214,
      49, 195, 133, 165, 215, 204, 226, 60, 119, 133, 69, 154]
  | [2] => [219, 193, 180, 201, 0, 255, 228, 141, 87, 91, 93, 165, 198, 56, 4, 1, 37, 246, 93, 176,
      254, 62, 36, 73, 75, 118, 234, 152, 100, 87, 217, 134]
  | _ => []

/-- A name that shows one certificate, and another one behind a restart. -/
def swapped : List TofuEvent := [.handshake "mesh" [1], .restart, .handshake "mesh" [2]]

/-- With a pin file the second certificate is refused. -/
theorem trust_kept_swapped :
    let s := (TofuState.start (some "pins.json") (fun _ => (.missing : Json.File ℚ))).run digest
      swapped
    ("mesh", [1]) ∈ s.accepted ∧ ¬ s.accepts digest "mesh" [2] := by
  intro s
  have haccepted : ("mesh", [1]) ∈ s.accepted := List.mem_singleton.mpr rfl
  have hother : digest [2] ≠ digest [1] := by decide
  exact ⟨haccepted,
    (trust_kept digest (Or.inl (Option.some_ne_none "pins.json"))).2.1 haccepted hother⟩

/-- Without one it is accepted. -/
theorem restart_forgets_pins :
    let s := (TofuState.start none (fun _ => (.missing : Json.File ℚ))).run digest swapped
    s.accepted = [("mesh", [1]), ("mesh", [2])] ∧ digest [1] ≠ digest [2] := by
  refine ⟨rfl, ?_⟩
  decide

end TofuVerifier

end HiveBear.Mesh
