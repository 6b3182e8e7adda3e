import Ptptl.Ptp.Authenticator
import Ptptl.Ptp.Collection
import Ptptl.Ptp.Key
import Ptptl.Ptp.StoreImport

set_option autoImplicit false

/-! # The server of the file sharing application -/

namespace Sfs

open Ptp

/-- `Key::Shared`; the four bytes of `Net::Set32` are a number. -/
structure Shared where
  keyid : Nat := 0
  shadow : Nat := 0
  key : SessionKey := Block.zero sessionKeySize
deriving DecidableEq

structure Key where
  id : Block publicKeySize
  ip : Nat
  port : Nat := 0
  keyid : Nat := 0
  shadow : Nat := 0
  flags : Byte := 0
  shared : Shared := {}
deriving DecidableEq

def rollFlag : Byte := 1

def set32 (value : Nat) : Nat := value % 4294967296

variable {pki : Pki}

/-- What the server runs on and does not change: libraries, its store and what it shares. -/
structure Env (pki : Pki) where
  pkcs12 : Pkcs12 pki
  pointerSize : Nat
  ulong : Nat
  sha1 : Bytes → Digest
  cipher : Cipher
  -- BN_bn2bin of the RSA modulus
  modulus : pki.PublicKey → Block publicKeySize
  -- ImportEnvelope for a recipient and a signer
  importEnvelope : Bytes → Certified pki → Certified pki → Option Bytes
  store : List (Certified pki)
  collect : Collection
  opens : CString → Bool

structure Server (pki : Pki) where
  auth : Authenticator (Certified pki) := {}
  keys : List Key := []
  -- the static counter of CreateKey
  keyid : Nat := 0

inductive Request (env : Env pki) where
  | get (hdr : Bytes)
  | search (data : Bytes)
  | auth (data : env.pkcs12.File)
  | resp (data : Bytes)
  | other

/-- One turn of the loop: a client's request, the time, and what `Random::Fill` returns. -/
structure Turn (env : Env pki) where
  ip : Nat
  now : Nat
  request : Request env
  nonce : Block Identity.plaintextSize
  shadow : Nat
  key : SessionKey
  shadow2 : Nat

inductive Event (pki : Pki) where
  -- HandleResp returns a session key to a peer
  | issued (now : Nat) (remote : Certified pki) (key : Key)
  -- a search or a get is answered under a session key
  | answered (key : Key)

def toIdentity (certified : Certified pki) : Identity pki := ⟨some certified.cert, certified.key⟩

def getKey (env : Env pki) (certified : Certified pki) : Option (Block publicKeySize) :=
  (pki.publicKey certified.cert).map env.modulus

/-- `store->Find(NULL, 1)`. -/
def localId (env : Env pki) : Option (Certified pki) :=
  env.store.find? fun certified => certified.key.isSome

/-- `FindKey` of a peer. -/
def isPeer (id : Block publicKeySize) (ip port : Nat) (key : Key) : Bool :=
  key.ip == ip && key.port == port && key.id == id

/-- `FindKey` of a key number. -/
def findKey (keys : List Key) (keyid : Nat) : Option Key := keys.find? fun key => key.keyid == keyid

def updateFirst (which : Key → Bool) (new : Key) : List Key → List Key
  | [] => []
  | key :: rest => if which key then new :: rest else key :: updateFirst which new rest

/-- The key number, shadow and session key that `CreateKey` rolls. -/
def Key.roll {env : Env pki} (key : Key) (keyid : Nat) (turn : Turn env) : Key :=
  { key with
    keyid := keyid
    shadow := turn.shadow ^^^ turn.shadow2
    shared := { keyid := set32 keyid, shadow := set32 turn.shadow, key := turn.key } }

/-- `CreateKey`; a certificate without an RSA key leaves its `id` unset. -/
def createKey (env : Env pki) (server : Server pki) (remote : Certified pki) (turn : Turn env)
    (flags : Byte) : Option (Key × Server pki) := do
  let id ← getKey env remote
  let old := server.keys.find? (isPeer id turn.ip 0)
  let key := old.getD { id := id, ip := turn.ip }
  let flags := if old.isNone then flags ||| rollFlag else flags
  let roll := flags &&& rollFlag ≠ 0
  let key := if roll then key.roll server.keyid turn else key
  let key := { key with flags := flags &&& ~~~rollFlag }
  let keys :=
    if old.isNone then key :: server.keys
    else updateFirst (isPeer id turn.ip 0) key server.keys
  some (key, { server with
    keys := keys
    keyid := if roll then (server.keyid + 1) % env.ulong else server.keyid })

/-- `HandleAuth`: the certificate that a client sends becomes the context of a challenge. -/
def handleAuth (env : Env pki) (server : Server pki) (turn : Turn env)
    (data : env.pkcs12.File) : Option (Server pki) := do
  match ← Store.importData env.pointerSize data none none with
  | (.null, _) => some server
  | (.identity remote, _) =>
    -- without a local certificate the size is that of a challenge less 1
    if (localId env).isNone then none
    else
      let (_, auth) := server.auth.challenge env.sha1 env.ulong (some (toIdentity remote)) 60
        (some remote) true turn.nonce turn.now
      some { server with auth := auth }
  | _ => none

def responseSize : Nat := digestSize

/-- `HandleResp`: a right response to a challenge gets a session key. -/
def handleResp (env : Env pki) (server : Server pki) (turn : Turn env) (data : Bytes) :
    Option (Server pki × List (Event pki)) :=
  if data.length ≤ responseSize + Authenticator.challengeSize then some (server, [])
  else
    let resp := Block.ofBytes digestSize data
    let (found, auth) := server.auth.verify (some resp) turn.now
    let server := { server with auth := auth }
    match found.bind Pending.context with
    | none => some (server, [])
    | some remote =>
      let envelope := data.drop (responseSize + Authenticator.challengeSize)
      match (localId env).bind fun recipient => env.importEnvelope envelope recipient remote with
      | none => some (server, [])
      | some [flags] => do
        let (key, server) ← createKey env server remote turn flags
        some (server, [.issued turn.now remote key])
      | some [] => some (server, [])
      -- ImportEnvelope copies past the variable `fl`
      | some _ => none

/-- `Net::Get32`; whatever key a shorter request names, `Decrypt` refuses it. -/
def get32 (data : Bytes) : Nat := (data.take 4).foldl (fun value byte => 256 * value + byte.toNat) 0

/-- `HandleSearch` up to its reply. -/
def handleSearch (env : Env pki) (server : Server pki) (data : Bytes) :
    Option (List (Event pki)) :=
  match findKey server.keys (get32 data) with
  | none => some []
  | some key => do
    let (size, _) ← Key.decrypt env.cipher key.shared.key (some (data.drop 4))
      ((data.length : Int) - 4) true true true
    if size ≤ 0 then some [] else some [.answered key]

/-- `HandleGet` up to the file. -/
def handleGet (env : Env pki) (server : Server pki) (hdr : Bytes) : Option (List (Event pki)) :=
  -- the text after "GET /"
  if hdr.length < 5 then none
  else
    let start := hdr.drop 5
    match strtoulHexEnd start with
    | [] => none
    | _ :: rest =>
      match findKey server.keys (strtoulHex env.ulong start) with
      | none => some []
      | some key =>
        match env.collect.find (strtoulHex env.ulong rest ^^^ key.shadow) with
        | none => some []
        | some entry =>
          match entry.content with
          | .data _ _ => none
          | .file path _ => if env.opens path then some [.answered key] else some []

def step (env : Env pki) (server : Server pki) (turn : Turn env) :
    Option (Server pki × List (Event pki)) :=
  match turn.request with
  | .get hdr => (handleGet env server hdr).map fun events => (server, events)
  | .search data => (handleSearch env server data).map fun events => (server, events)
  | .auth data => (handleAuth env server turn data).map fun server => (server, [])
  | .resp data => handleResp env server turn data
  | .other => some (server, [])

def share (env : Env pki) (server : Server pki) : List (Turn env) →
    Option (Server pki × List (Event pki))
  | [] => some (server, [])
  | turn :: rest => do
    let (server, events) ← step env server turn
    let (server, later) ← share env server rest
    some (server, events ++ later)

end Sfs
