import Mathlib.Data.List.Basic

/-!
Sealing and opening secrets with authenticated encryption. The stored form is
`[12-byte nonce][ciphertext‖tag]`; the cipher is a parameter.
-/
namespace OmsSecrets

abbrev Bytes := List UInt8

def nonceLen : Nat := 12
def tagLen : Nat := 16

structure MasterKey where
  bytes : Bytes
  size : bytes.length = 32
  deriving DecidableEq

structure Nonce where
  bytes : Bytes
  size : bytes.length = nonceLen
  deriving DecidableEq

inductive SecretError where
  | badKey (reason : String)
  | decrypt
  | malformed
  deriving DecidableEq, Repr

def SecretError.display : SecretError → String
  | .badKey reason => "invalid master key: " ++ reason
  | .decrypt => "could not decrypt (wrong key, wrong connection, or corrupted data)"
  | .malformed => "stored value is too short to be a sealed secret"

/-- The cipher: key, nonce, associated data and the text. -/
structure Aead where
  encrypt : MasterKey → Bytes → String → Bytes → Bytes
  decrypt : MasterKey → Bytes → String → Bytes → Option Bytes

/-- It opens exactly what was sealed with the same key and associated data. -/
structure Aead.Lawful (aead : Aead) : Prop where
  opens : ∀ key nonce aad plain,
    aead.decrypt key nonce aad (aead.encrypt key nonce aad plain) = some plain
  sealed : ∀ key nonce aad cipher plain, aead.decrypt key nonce aad cipher = some plain →
    cipher = aead.encrypt key nonce aad plain
  bound : ∀ key key' nonce aad aad' plain plain',
    aead.encrypt key nonce aad plain = aead.encrypt key' nonce aad' plain' →
      key = key' ∧ aad = aad'
  tagged : ∀ key nonce aad plain, tagLen ≤ (aead.encrypt key nonce aad plain).length

def sealWith (aead : Aead) (key : MasterKey) (nonce : Nonce) (aad : String) (plain : Bytes) :
    Bytes :=
  nonce.bytes ++ aead.encrypt key nonce.bytes aad plain

def openSealed (aead : Aead) (key : MasterKey) (aad : String) (stored : Bytes) :
    Except SecretError Bytes :=
  if stored.length < nonceLen + tagLen then .error .malformed
  else
    let (nonce, cipher) := stored.splitAt nonceLen
    match aead.decrypt key nonce aad cipher with
    | some plain => .ok plain
    | none => .error .decrypt

variable {aead : Aead}

theorem open_seal (lawful : aead.Lawful) (key : MasterKey) (nonce : Nonce) (aad : String)
    (plain : Bytes) : openSealed aead key aad (sealWith aead key nonce aad plain) = .ok plain := by
  have tagged := lawful.tagged key nonce.bytes aad plain
  have long : ¬ (sealWith aead key nonce aad plain).length < nonceLen + tagLen := by
    simp only [sealWith, List.length_append, nonce.size]
    omega
  have parts : (sealWith aead key nonce aad plain).splitAt nonceLen =
      (nonce.bytes, aead.encrypt key nonce.bytes aad plain) := by
    rw [List.splitAt_eq, sealWith, ← nonce.size, List.take_left, List.drop_left]
  simp only [openSealed, long, if_false, parts, lawful.opens]

theorem open_ok (lawful : aead.Lawful) {key : MasterKey} {aad : String} {stored plain : Bytes}
    (opens : openSealed aead key aad stored = .ok plain) :
    stored = stored.take nonceLen ++ aead.encrypt key (stored.take nonceLen) aad plain := by
  simp only [openSealed, List.splitAt_eq] at opens
  split at opens
  · cases opens
  · split at opens
    · rename_i found
      cases opens
      rw [← lawful.sealed _ _ _ _ _ found, List.take_append_drop]
    · cases opens

theorem open_one_key (lawful : aead.Lawful) {key key' : MasterKey} {aad : String}
    {stored plain plain' : Bytes} (opens : openSealed aead key aad stored = .ok plain)
    (opens' : openSealed aead key' aad stored = .ok plain') : key = key' := by
  have one := open_ok lawful opens
  have other := open_ok lawful opens'
  exact (lawful.bound _ _ _ _ _ _ _ (List.append_cancel_left (one.symm.trans other))).1

end OmsSecrets
