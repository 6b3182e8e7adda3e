import Ptptl.Library.Bounded
import Ptptl.Ptp.Identity

set_option autoImplicit false

/-! # Session keys that an identity exports and imports -/

namespace Ptp

namespace Identity

open Bounded

variable {pki : Pki} (privateDecrypt : pki.PrivateKey → Bytes → Option Bytes)

/-- `Encrypt` into a buffer: its result, and the buffer then. -/
def encryptIn (identity : Identity pki) (plain cipher : Bytes) : Except Fault (Int × Bytes) :=
  match identity.encrypt plain with
  | (size, none) => .ok (size, cipher)
  | (size, some data) => (store cipher data).map fun cipher => (size, cipher)

/-- `Decrypt` into a buffer: its result, and the buffer then. -/
def decryptIn (identity : Identity pki) (cipher plain : Bytes) : Except Fault (Int × Bytes) :=
  match identity.decrypt privateDecrypt cipher with
  | (size, none) => .ok (size, plain)
  | (size, some data) => (store plain data).map fun plain => (size, plain)

/-- `ExportKey`: its result, and `data` then. -/
def exportKey (identity : Identity pki) (key : Option SessionKey) (data : Option Bytes) :
    Except Fault (Int × Option Bytes) :=
  match key, data with
  | some key, some data =>
    (identity.encryptIn key.val data).map fun encrypted =>
      ((ciphertextSize : Int), some encrypted.2)
  | _, data => .ok (ciphertextSize, data)

/-- `ImportKey`; `keydata` is what its buffer holds before it is decrypted into. -/
def importKey (identity : Identity pki) (data : Option Bytes) (size : Int) (keydata : SessionKey) :
    Except Fault (Option SessionKey) :=
  match data with
  | none => .ok none
  | some data =>
    if size ≠ ciphertextSize then .ok none
    else
      -- the result of `Decrypt` is not looked at
      (decryptIn privateDecrypt identity data keydata.val).map fun decrypted =>
        some (Block.ofBytes sessionKeySize decrypted.2)

def Plaintext (identity : Identity pki) (block : Block ciphertextSize) (plain : Bytes) : Prop :=
  ∃ cert key, identity.cert = some cert ∧ identity.key = some key ∧
    privateDecrypt key block.val = some plain

/-- A certificate and its private key, of `publicKeySize` bytes. -/
def Paired (identity : Identity pki) : Prop :=
  ∃ cert publicKey key, identity.cert = some cert ∧ pki.publicKey cert = some publicKey ∧
    identity.key = some key ∧
      ∀ plain cipher, pki.publicEncrypt publicKey plain = some cipher →
        cipher.length = ciphertextSize ∧ privateDecrypt key cipher = some plain

/-- What `ImportKey` is to do with a block, whatever its own buffer holds. -/
structure ImportsKey (identity : Identity pki) (block : Block ciphertextSize) : Prop where
  key : ∀ keydata key : SessionKey,
    importKey privateDecrypt identity (some block.val) ciphertextSize keydata = .ok (some key) ↔
      Plaintext privateDecrypt identity block key.val
  rejects : (∀ key : SessionKey, ¬ Plaintext privateDecrypt identity block key.val) →
    ∀ keydata : SessionKey,
      importKey privateDecrypt identity (some block.val) ciphertextSize keydata = .ok none
  exported : Paired privateDecrypt identity → ∀ (key : SessionKey) (data : Block ciphertextSize),
    (identity.encrypt key.val).1 = ciphertextSize →
      identity.exportKey (some key) (some data.val) = .ok (ciphertextSize, some block.val) →
        ∀ keydata : SessionKey,
          importKey privateDecrypt identity (some block.val) ciphertextSize keydata =
            .ok (some key)

variable {privateDecrypt}

theorem Plaintext.unique {identity : Identity pki} {block : Block ciphertextSize}
    {plain other : Bytes} (first : Plaintext privateDecrypt identity block plain)
    (second : Plaintext privateDecrypt identity block other) : plain = other := by
  obtain ⟨cert, key, -, held, decrypted⟩ := first
  obtain ⟨cert', key', -, held', decrypted'⟩ := second
  rw [held, Option.some.injEq] at held'
  rw [held', decrypted', Option.some.injEq] at decrypted
  exact decrypted.symm

theorem decrypt_plaintext {identity : Identity pki} {block : Block ciphertextSize} {plain : Bytes}
    (plaintext : Plaintext privateDecrypt identity block plain) :
    identity.decrypt privateDecrypt block.val =
      if plain.length = 0 then (-1, none) else ((plain.length : Int), some plain) := by
  obtain ⟨cert, key, certified, held, decrypted⟩ := plaintext
  have whole : block.val.take ciphertextSize = block.val :=
    List.take_of_length_le (Nat.le_of_eq block.property)
  simp only [decrypt, certified, held, whole, decrypted]

theorem decrypt_sealed {identity : Identity pki} {block : Block ciphertextSize}
    (unreadable : ∀ plain, ¬ Plaintext privateDecrypt identity block plain) :
    identity.decrypt privateDecrypt block.val = (-1, none) := by
  have whole : block.val.take ciphertextSize = block.val :=
    List.take_of_length_le (Nat.le_of_eq block.property)
  rw [decrypt, whole]
  split
  next cert key certified held =>
    cases decrypted : privateDecrypt key block.val with
    | none => rfl
    | some plain => exact absurd ⟨cert, key, certified, held, decrypted⟩ (unreadable plain)
  next => rfl

theorem decryptIn_plaintext {identity : Identity pki} {block : Block ciphertextSize}
    {plain : Bytes} (plaintext : Plaintext privateDecrypt identity block plain) (buffer : Bytes) :
    ∃ size, decryptIn privateDecrypt identity block.val buffer =
      (store buffer plain).map fun buffer => (size, buffer) := by
  have result := decrypt_plaintext plaintext
  by_cases empty : plain.length = 0
  next =>
    refine ⟨-1, ?_⟩
    rw [if_pos empty] at result
    rw [List.length_eq_zero_iff] at empty
    simp [decryptIn, result, store, empty, Except.map]
  next =>
    refine ⟨plain.length, ?_⟩
    rw [if_neg empty] at result
    simp only [decryptIn, result]

theorem importKey_fits {identity : Identity pki} {block : Block ciphertextSize} {plain : Bytes}
    (plaintext : Plaintext privateDecrypt identity block plain)
    (fits : plain.length ≤ sessionKeySize) (keydata : SessionKey) :
    importKey privateDecrypt identity (some block.val) ciphertextSize keydata =
      .ok (some (Block.ofBytes sessionKeySize (plain ++ keydata.val.drop plain.length))) := by
  obtain ⟨size, decrypted⟩ := decryptIn_plaintext plaintext keydata.val
  have inside : plain.length ≤ keydata.val.length := by
    rw [keydata.property]
    exact fits
  rw [store, if_pos inside] at decrypted
  simp [importKey, decrypted, Except.map]

theorem importKey_outside {identity : Identity pki} {block : Block ciphertextSize} {plain : Bytes}
    (plaintext : Plaintext privateDecrypt identity block plain)
    (long : sessionKeySize < plain.length) (keydata : SessionKey) :
    importKey privateDecrypt identity (some block.val) ciphertextSize keydata =
      .error .outside := by
  obtain ⟨size, decrypted⟩ := decryptIn_plaintext plaintext keydata.val
  have overrun : ¬ plain.length ≤ keydata.val.length := by
    rw [keydata.property]
    exact Nat.not_le.2 long
  rw [store, if_neg overrun] at decrypted
  simp [importKey, decrypted, Except.map]

theorem importKey_sealed {identity : Identity pki} {block : Block ciphertextSize}
    (unreadable : ∀ plain, ¬ Plaintext privateDecrypt identity block plain)
    (keydata : SessionKey) :
    importKey privateDecrypt identity (some block.val) ciphertextSize keydata =
      .ok (some keydata) := by
  have same := Block.ofBytes_append keydata []
  rw [List.append_nil] at same
  simp [importKey, decryptIn, decrypt_sealed unreadable, Except.map, same]

theorem importKey_plaintext {identity : Identity pki} {block : Block ciphertextSize}
    {key : SessionKey} (plaintext : Plaintext privateDecrypt identity block key.val)
    (keydata : SessionKey) :
    importKey privateDecrypt identity (some block.val) ciphertextSize keydata = .ok (some key) := by
  rw [importKey_fits plaintext (Nat.le_of_eq key.property), Block.ofBytes_append]

theorem importKey_unchecked (identity : Identity pki) (block : Block ciphertextSize)
    (keydata : SessionKey) :
    importKey privateDecrypt identity (some block.val) ciphertextSize keydata ≠ .ok none := by
  intro rejected
  by_cases readable : ∃ plain, Plaintext privateDecrypt identity block plain
  next =>
    obtain ⟨plain, plaintext⟩ := readable
    by_cases fits : plain.length ≤ sessionKeySize
    next =>
      rw [importKey_fits plaintext fits] at rejected
      cases rejected
    next =>
      rw [importKey_outside plaintext (Nat.not_le.1 fits)] at rejected
      cases rejected
  next =>
    rw [importKey_sealed (not_exists.1 readable)] at rejected
    cases rejected

theorem Paired.exported {identity : Identity pki} (paired : Paired privateDecrypt identity)
    {key : SessionKey} {data block : Block ciphertextSize}
    (encrypted : (identity.encrypt key.val).1 = ciphertextSize)
    (exports : identity.exportKey (some key) (some data.val) =
      .ok (ciphertextSize, some block.val)) :
    Plaintext privateDecrypt identity block key.val := by
  obtain ⟨cert, publicKey, privateKey, certified, certifies, held, decrypts⟩ := paired
  have allowed : ¬ (key.val.length = 0 ∨ key.val.length > plaintextSize) := by
    rw [key.property]
    decide
  have result : identity.encrypt key.val = match pki.publicEncrypt publicKey key.val with
      | none => (-1, none)
      | some cipher => ((ciphertextSize : Int), some cipher) := by
    rw [encrypt, certified, Option.bind_some, certifies]
    exact if_neg allowed
  refine ⟨cert, privateKey, certified, held, ?_⟩
  cases cipher : pki.publicEncrypt publicKey key.val with
  | none =>
    simp only [cipher] at result
    rw [result] at encrypted
    cases encrypted
  | some cipher' =>
    simp only [cipher] at result
    obtain ⟨filled, decrypted⟩ := decrypts _ _ cipher
    have same : cipher'.length = data.val.length := filled.trans data.property.symm
    have rest : data.val.drop cipher'.length = [] :=
      List.drop_of_length_le (Nat.le_of_eq same.symm)
    have stored : store data.val cipher' = .ok cipher' := by
      rw [store, if_pos (Nat.le_of_eq same), rest, List.append_nil]
    simp only [exportKey, encryptIn, result, stored, Except.map, Except.ok.injEq, Prod.mk.injEq,
      Option.some.injEq, true_and] at exports
    rw [← exports]
    exact decrypted

theorem importsKey_iff (identity : Identity pki) (block : Block ciphertextSize) :
    ImportsKey privateDecrypt identity block ↔
      ∃ plain, Plaintext privateDecrypt identity block plain ∧ plain.length = sessionKeySize := by
  constructor
  next =>
    intro imports
    by_contra absent
    have rejected := imports.rejects fun key plaintext =>
      absent ⟨key.val, plaintext, key.property⟩
    exact importKey_unchecked identity block (Block.zero sessionKeySize) (rejected _)
  next =>
    rintro ⟨plain, plaintext, sized⟩
    obtain ⟨key, rfl⟩ : ∃ key : SessionKey, key.val = plain := ⟨⟨plain, sized⟩, rfl⟩
    constructor
    next =>
      intro keydata other
      rw [importKey_plaintext plaintext, Except.ok.injEq, Option.some.injEq]
      constructor
      next =>
        rintro rfl
        exact plaintext
      next =>
        intro same
        exact Subtype.ext (plaintext.unique same)
    next =>
      intro absent
      exact absurd plaintext (absent key)
    next =>
      intro paired other data encrypted exports keydata
      exact importKey_plaintext (paired.exported encrypted exports) keydata

def pad (plain : Bytes) : Option Bytes :=
  -- with 1 for every random byte
  if plain.length > plaintextSize then none
  else some (0 :: 2 :: (List.replicate (ciphertextSize - 3 - plain.length) 1 ++ 0 :: plain))

def unpad : Bytes → Option Bytes
  | 0 :: 2 :: rest =>
    let padding := rest.takeWhile fun byte => byte ≠ 0
    if padding.length < 8 ∨ padding.length = rest.length then none
    else some (rest.drop (padding.length + 1))
  | _ => none

def paddedPki : Pki where
  Cert := Unit
  PublicKey := Unit
  PrivateKey := Unit
  publicKey := some
  notAfter _ := 0
  verify _ _ := true
  publicEncrypt _ := pad

def paddedIdentity : Identity paddedPki := ⟨some (), some ()⟩

theorem unpad_pad {plain cipher : Bytes} (padded : pad plain = some cipher) :
    unpad cipher = some plain := by
  rw [pad] at padded
  split at padded
  next => cases padded
  next fits =>
    have room : plain.length ≤ 117 := Nat.not_lt.1 fits
    have large : 8 ≤ ciphertextSize - 3 - plain.length := by
      change 8 ≤ 128 - 3 - plain.length
      omega
    have front : (List.replicate (ciphertextSize - 3 - plain.length) (1 : Byte) ++
        0 :: plain).takeWhile (fun byte => byte ≠ 0) =
          List.replicate (ciphertextSize - 3 - plain.length) 1 := by
      rw [List.takeWhile_append_of_pos (by simp), List.takeWhile_cons_of_neg (by simp),
        List.append_nil]
    rw [← Option.some.inj padded]
    simp only [unpad, front, List.length_replicate, List.length_append, List.length_cons]
    rw [if_neg (by omega), ← List.drop_drop, List.drop_left' List.length_replicate]
    rfl

theorem pad_length {plain cipher : Bytes} (padded : pad plain = some cipher) :
    cipher.length = ciphertextSize := by
  rw [pad] at padded
  split at padded
  next => cases padded
  next fits =>
    have room : plain.length ≤ 117 := Nat.not_lt.1 fits
    rw [← Option.some.inj padded]
    simp only [List.length_cons, List.length_append, List.length_replicate]
    change 128 - 3 - plain.length + (plain.length + 1) + 1 + 1 = 128
    omega

theorem paired_padded : Paired (fun _ => unpad) paddedIdentity :=
  ⟨(), (), (), rfl, rfl, rfl, fun _ _ padded => ⟨pad_length padded, unpad_pad padded⟩⟩

theorem importsKey_padded : ∃ block : Block ciphertextSize,
    ImportsKey (fun _ => unpad) paddedIdentity block ∧
      paddedIdentity.exportKey (some (Block.zero sessionKeySize))
        (some (Block.zero ciphertextSize).val) = .ok (ciphertextSize, some block.val) ∧
      ∀ keydata : SessionKey,
        importKey (fun _ => unpad) paddedIdentity (some block.val) ciphertextSize keydata =
          .ok (some (Block.zero sessionKeySize)) := by
  obtain ⟨cipher, padded⟩ : ∃ cipher, pad (Block.zero sessionKeySize).val = some cipher :=
    ⟨_, rfl⟩
  have filled := pad_length padded
  have imports := (@importsKey_iff paddedPki (fun _ => unpad) paddedIdentity ⟨cipher, filled⟩).2
    ⟨_, ⟨(), (), rfl, rfl, unpad_pad padded⟩, List.length_replicate⟩
  have exports : paddedIdentity.exportKey (some (Block.zero sessionKeySize))
      (some (Block.zero ciphertextSize).val) = .ok (ciphertextSize, some cipher) := by
    cases padded
    decide +kernel
  exact ⟨_, imports, exports,
    imports.exported paired_padded _ (Block.zero ciphertextSize) (by decide +kernel) exports⟩

/-- Zeros are no ciphertext, and a whole plaintext is larger than a key. -/
theorem importKey_unread :
    ¬ ImportsKey (fun _ => unpad) paddedIdentity (Block.zero ciphertextSize) ∧
      importKey (fun _ => unpad) paddedIdentity (some (Block.zero ciphertextSize).val)
        ciphertextSize ⟨List.replicate sessionKeySize 165, List.length_replicate⟩ =
          .ok (some ⟨List.replicate sessionKeySize 165, List.length_replicate⟩) ∧
      importKey (fun _ => unpad) paddedIdentity (pad (List.replicate plaintextSize 7))
        ciphertextSize (Block.zero sessionKeySize) = .error .outside := by
  have unread (plain : Bytes) :
      ¬ Plaintext (fun _ => unpad) paddedIdentity (Block.zero ciphertextSize) plain := by
    rintro ⟨cert, key, -, -, decrypted⟩
    cases decrypted
  refine ⟨?_, importKey_sealed unread _, by decide +kernel⟩
  intro imports
  have rejected := imports.rejects (fun key => unread key.val) (Block.zero sessionKeySize)
  exact importKey_unchecked _ _ _ rejected

end Identity

end Ptp
