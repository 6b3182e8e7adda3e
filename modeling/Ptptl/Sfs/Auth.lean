import Ptptl.Sfs.Insert
import Ptptl.Sfs.Share

set_option autoImplicit false

/-! # Session keys of a client -/

namespace Sfs

open Ptp Ptp.Store

variable {pki : Pki}

/-- What a client runs on besides the libraries of a server. -/
structure Library (env : Env pki) where
  name : pki.Cert → Option CString
  issuerName : pki.Cert → Option CString
  privateDecrypt : pki.PrivateKey → Bytes → Option Bytes
  -- ExportEnvelope of data for a recipient by a signer, with random bytes for its key
  exportEnvelope : Bytes → Certified pki → Certified pki → Bytes → Option Bytes

variable {env : Env pki}

def Library.names (lib : Library env) : Names pki := ⟨lib.name, lib.issuerName, env.modulus⟩

/-- `Net::Set32` as bytes. -/
def store32 (value : Nat) : Bytes :=
  [(value / 16777216).toUInt8, (value / 65536).toUInt8, (value / 256).toUInt8, value.toUInt8]

def Shared.bytes (shared : Shared) : Bytes :=
  store32 shared.keyid ++ store32 shared.shadow ++ shared.key.val

def sharedSize : Nat := 4 + 4 + sessionKeySize

/-- `sharedSize` bytes as a `Key::Shared`. -/
def Shared.ofBytes (data : Bytes) : Shared :=
  { keyid := get32 data
    shadow := get32 (data.drop 4)
    key := Block.ofBytes sessionKeySize (data.drop 8) }

/-- `FindKey` without an identity. -/
def findAddress (keys : List Key) (ip port : Nat) : Option Key :=
  keys.find? fun key => key.ip == ip && key.port == port

def importKey (env : Env pki) (keys : List Key) (remote : Certified pki) (ip port : Nat)
    (flags : Byte) (shared : Shared) : Option (Key × List Key) := do
  let id ← getKey env remote
  let old := keys.find? (isPeer id ip port)
  let key :=
    { old.getD { id := id, ip := ip, port := port } with
      keyid := shared.keyid
      shadow := shared.shadow
      shared := shared
      flags := flags &&& ~~~rollFlag }
  let keys := if old.isNone then key :: keys else updateFirst (isPeer id ip port) key keys
  some (key, keys)

/-- `store->Find(NULL, 1)` of a client. -/
def ownIdent (store : List (Entry pki)) : Option (Certified pki) :=
  (idents store).find? fun certified => certified.key.isSome

/-- The place of the entry that `Remove` takes out. -/
def removedPlace (names : Names pki) (pointer : Nat) (modulus : Block publicKeySize)
    (place : Nat) : List (Entry pki) → Option Nat
  | [] => none
  | entry :: rest =>
    match entry.payload.certified with
    | none => removedPlace names pointer modulus (place + 1) rest
    | some ident =>
      if place = pointer ∨ names.getKey ident.cert = some modulus then some place
      else removedPlace names pointer modulus (place + 1) rest

/-- Whether `Insert` frees the certificate that `Auth` still points to: `Remove` stops at any
certificate with the key of the one that is replaced. -/
def freesOwn (names : Names pki) (list : List (Entry pki)) (remote : Certified pki) : Bool :=
  match findIdent names list none true none,
      findIdent names list (names.name remote.cert) false none with
  | some (some (place, _)), some (some (pointer, old)) =>
    match names.getKey old.cert with
    | some modulus => removedPlace names pointer modulus 0 list == some place
    | none => false
  | _, _ => false

def insertRemote (names : Names pki) (list : List (Entry pki)) (now : Nat) (remote : Certified pki) :
    Option (Int × List (Entry pki)) := do
  let (status, next) ← insert names list now remote
  if status = 0 ∧ Cert.isLocal names list remote = some false ∧ freesOwn names list remote then none
  else some (status, next)

/-- What the world adds to a step: the time, random bytes, and what uninitialised buffers hold. -/
structure Chance where
  now : Nat
  nonce : Block Identity.plaintextSize
  coins : Bytes
  response : Digest
  challenge : Block Authenticator.challengeSize

def exportCert (env : Env pki) (certified : Certified pki) : env.pkcs12.File :=
  exportFile [⟨.identity certified false, none, none⟩] none none

inductive Reply (env : Env pki) where
  | challenge (chal : Block Authenticator.challengeSize) (file : env.pkcs12.File)
  | response (data : Bytes)

def authReply (env : Env pki) (data : env.pkcs12.File) (chance : Chance) :
    Option (Option (Reply env)) := do
  match ← importData env.pointerSize data none none with
  | (.null, _) => some none
  | (.identity remote, _) =>
    let localId ← localId env
    let chal := Authenticator.challengeData (toIdentity remote) chance.nonce chance.challenge
    some (some (.challenge chal (exportCert env localId)))
  | _ => none

/-- The reply of `HandleResp` with a key. -/
def respReply (lib : Library env) (data : Bytes) (remote : Certified pki) (key : Key)
    (chance : Chance) : Option (Reply env) := do
  let localId ← localId env
  -- without an envelope the buffer would not hold a response
  let envelope ← lib.exportEnvelope key.shared.bytes remote localId chance.coins
  let chal := Block.ofBytes Authenticator.challengeSize (data.drop responseSize)
  let resp := Authenticator.responseData env.sha1 lib.privateDecrypt (some (toIdentity localId))
    chal chance.response
  some (.response (resp.val ++ envelope))

/-- A turn of `Share` with its reply to `SFS_AUTH_URL` and `SFS_RESP_URL`. -/
def serve (lib : Library env) (server : Server pki) (turn : Turn env) (chance : Chance) :
    Option (Server pki × Option (Reply env)) := do
  let (next, events) ← step env server turn
  match turn.request, events with
  | .auth data, _ => (authReply env data chance).map fun reply => (next, reply)
  | .resp data, [.issued _ remote key] =>
    (respReply lib data remote key chance).map fun reply => (next, some reply)
  | _, _ => some (next, none)

/-- `Auth` after the answer of `SFS_AUTH_URL`, up to the request of `SFS_RESP_URL`: the store and,
unless NULL is returned, the request and what is remembered. -/
def authRespond (lib : Library env) (store : List (Entry pki)) (localId : Certified pki)
    (flags : Byte) (chal : Block Authenticator.challengeSize) (file : env.pkcs12.File)
    (chance : Chance) :
    Option (List (Entry pki) × Option (Bytes × Certified pki × Authenticator (Certified pki))) := do
  match ← importData env.pointerSize file none none with
  | (.null, _) => some (store, none)
  | (.identity remote, _) =>
    let (status, store) ← insertRemote lib.names store chance.now remote
    if status ≠ 0 then some (store, none)
    else
      -- without an envelope the buffer would not hold a challenge
      let envelope ← lib.exportEnvelope [flags] remote localId chance.coins
      let resp := Authenticator.responseData env.sha1 lib.privateDecrypt
        ((ownIdent store).map toIdentity) chal chance.response
      let (_, auth) := ({} : Authenticator (Certified pki)).challenge env.sha1 env.ulong
        (some (toIdentity remote)) 60 (some remote) true chance.nonce chance.now
      let chal := Authenticator.challengeData (toIdentity remote) chance.nonce chance.challenge
      some (store, some (resp.val ++ chal.val ++ envelope, remote, auth))
  | _ => none

/-- The end of `Auth`, with the answer of `SFS_RESP_URL` from an address. -/
def authFinish (env : Env pki) (keys : List Key) (localId remoteId : Certified pki)
    (auth : Authenticator (Certified pki)) (ip port : Nat) (flags : Byte) (data : Bytes)
    (now : Nat) : Option (Option Key × List Key) :=
  if data.length ≤ responseSize then some (none, keys)
  else
    -- the only context is remoteId
    match (auth.verifyContext (some (Block.ofBytes digestSize data)) now),
        env.importEnvelope (data.drop responseSize) localId remoteId with
    | some _, some shared =>
      if shared.length ≠ sharedSize then some (none, keys)
      else (importKey env keys remoteId ip port flags (Shared.ofBytes shared)).map fun imported =>
        (some imported.1, imported.2)
    | _, _ => some (none, keys)

end Sfs
