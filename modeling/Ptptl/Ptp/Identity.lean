import Ptptl.Ptp.Types

set_option autoImplicit false

namespace Ptp

/-- The X.509 and RSA functions of OpenSSL; `none` is their failure. -/
structure Pki where
  Cert : Type
  PublicKey : Type
  PrivateKey : Type
  publicKey : Cert → Option PublicKey
  notAfter : Cert → Nat
  verify : Cert → PublicKey → Bool
  publicEncrypt : PublicKey → Bytes → Option Bytes

structure Identity (pki : Pki) where
  cert : Option pki.Cert
  key : Option pki.PrivateKey

namespace Identity

def plaintextSize : Nat := publicKeySize - 11
def ciphertextSize : Nat := publicKeySize

variable {pki : Pki}

/-- `Encrypt` with a buffer for the ciphertext. -/
def encrypt (identity : Identity pki) (plain : Bytes) : Int × Option Bytes :=
  match identity.cert.bind pki.publicKey with
  | none => (-1, none)
  | some key =>
      if plain.length = 0 ∨ plain.length > plaintextSize then (-1, none)
      else
        match pki.publicEncrypt key plain with
        | none => (-1, none)
        | some cipher => (ciphertextSize, some cipher)

/-- `Decrypt` with a buffer for the plaintext. `RSA_private_decrypt` reads `ciphertextSize` bytes. -/
def decrypt (privateDecrypt : pki.PrivateKey → Bytes → Option Bytes) (identity : Identity pki)
    (cipher : Bytes) : Int × Option Bytes :=
  match identity.cert, identity.key with
  | some _, some key =>
      match privateDecrypt key (cipher.take ciphertextSize) with
      | none => (-1, none)
      | some plain => if plain.length = 0 then (-1, none) else (plain.length, some plain)
  | _, _ => (-1, none)

/-- `Verify(subj)`: 0 when this certificate has not expired and signed the subject's. -/
def verify (issuer : Identity pki) (now : Nat) (subject : pki.Cert) : Int :=
  match issuer.cert with
  | none => -1
  | some cert =>
      match pki.publicKey cert with
      | none => -1
      | some key =>
          if pki.notAfter cert ≤ now then -1
          else if pki.verify subject key then 0 else -1

end Identity

def Signs {pki : Pki} (issuer subject : pki.Cert) : Prop :=
  ∃ key, pki.publicKey issuer = some key ∧ pki.verify subject key = true

theorem Identity.verify_iff {pki : Pki} (issuer : Identity pki) (now : Nat) (subject : pki.Cert) :
    issuer.verify now subject = 0 ↔
      ∃ cert, issuer.cert = some cert ∧ Signs cert subject ∧ now < pki.notAfter cert := by
  cases held : issuer.cert with
  | none => simp [Identity.verify, held]
  | some cert =>
    cases key : pki.publicKey cert with
    | none => simp [Identity.verify, held, key, Signs]
    | some key' =>
      by_cases expired : pki.notAfter cert ≤ now
      next => simp [Identity.verify, held, key, expired, Nat.not_lt.2 expired]
      next =>
        by_cases good : pki.verify subject key' = true <;>
          simp [Identity.verify, held, key, expired, good, Signs, Nat.lt_of_not_le]

def plainPki : Pki where
  Cert := Unit
  PublicKey := Unit
  PrivateKey := Unit
  publicKey := some
  notAfter _ := 0
  verify _ _ := true
  publicEncrypt _ plain := some plain

end Ptp
