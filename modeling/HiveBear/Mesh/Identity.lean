/-
# Node identities

A node's identity is a key pair, kept in a file of its own: the secret key and the public key
behind it, 64 bytes. A file that is missing or damaged is replaced by that of a new identity.

Deriving a public key is a parameter. A file is taken to be written whenever it is to be.
-/

import HiveBear.Mesh.Peer

namespace HiveBear.Mesh

/-- A signing key. -/
abbrev SigningKey := {bytes : List UInt8 // bytes.length = 32}

/-- A node identity: a signing key with the public key that is derived from it. -/
structure NodeIdentity (verifyingKey : SigningKey → NodeId) where
  nodeId : NodeId
  signingKey : SigningKey
  derived : nodeId = verifyingKey signingKey

namespace NodeIdentity

variable {verifyingKey : SigningKey → NodeId}

/-- The identity of a signing key. -/
def ofKey (signingKey : SigningKey) : NodeIdentity verifyingKey :=
  ⟨verifyingKey signingKey, signingKey, rfl⟩

/-- Load an identity from the bytes of a file. -/
def load (bytes : List UInt8) : Except String (NodeIdentity verifyingKey) :=
  if h : bytes.length = 64 then
    let signingKey : SigningKey := ⟨bytes.take 32, by rw [List.length_take, h]; rfl⟩
    if (verifyingKey signingKey).bytes = bytes.drop 32 then .ok (ofKey signingKey)
    else .error "Identity file corrupted: public key does not match secret key"
  else .error s!"Identity file has invalid size: expected 64 bytes, got {bytes.length}"

/-- The bytes of an identity's file. -/
def save (identity : NodeIdentity verifyingKey) : List UInt8 :=
  identity.signingKey.val ++ identity.nodeId.bytes

/-- Load the identity of a file, or save one with this key: the identity, and the file
afterwards. -/
def loadOrGenerate (file : Option (List UInt8)) (generated : SigningKey) :
    NodeIdentity verifyingKey × Option (List UInt8) :=
  match file with
  | some bytes =>
      match load bytes with
      | .ok identity => (identity, file)
      | .error _ => (ofKey generated, some (save (ofKey generated : NodeIdentity verifyingKey)))
  | none => (ofKey generated, some (save (ofKey generated : NodeIdentity verifyingKey)))

/-- What is saved is loaded. -/
theorem load_save (identity : NodeIdentity verifyingKey) : load identity.save = .ok identity := by
  obtain ⟨nodeId, ⟨secret, hsecret⟩, rfl⟩ := identity
  have hlength : (save ⟨verifyingKey ⟨secret, hsecret⟩, ⟨secret, hsecret⟩, rfl⟩).length = 64 := by
    rw [save, List.length_append, NodeId.length_bytes]
    show secret.length + 32 = 64
    omega
  rw [load, dif_pos hlength]
  have htake : (save ⟨verifyingKey ⟨secret, hsecret⟩, ⟨secret, hsecret⟩, rfl⟩).take 32 = secret :=
    List.take_left' hsecret
  have hdrop : (save ⟨verifyingKey ⟨secret, hsecret⟩, ⟨secret, hsecret⟩, rfl⟩).drop 32 =
      (verifyingKey ⟨secret, hsecret⟩).bytes := List.drop_left' hsecret
  simp only [htake, hdrop]
  exact if_pos trivial

/-- An identity that has been saved is the one of its file. -/
theorem loadOrGenerate_save (identity : NodeIdentity verifyingKey) (generated : SigningKey) :
    loadOrGenerate (some identity.save) generated = (identity, some identity.save) := by
  simp only [loadOrGenerate, load_save]

/-- **An identity survives a restart.** -/
theorem loadOrGenerate_again (file : Option (List UInt8)) (first later : SigningKey) :
    loadOrGenerate (loadOrGenerate file first : NodeIdentity verifyingKey × _).2 later =
      (loadOrGenerate file first : NodeIdentity verifyingKey × _) := by
  cases file with
  | none => exact loadOrGenerate_save _ later
  | some bytes =>
      cases hload : (load bytes : Except String (NodeIdentity verifyingKey)) with
      | ok identity => simp only [loadOrGenerate, hload]
      | error message =>
          have hfirst : (loadOrGenerate (some bytes) first : NodeIdentity verifyingKey × _) =
              (ofKey first, some (save (ofKey first : NodeIdentity verifyingKey))) := by
            simp only [loadOrGenerate, hload]
          rw [hfirst]
          exact loadOrGenerate_save _ later

end NodeIdentity

end HiveBear.Mesh
