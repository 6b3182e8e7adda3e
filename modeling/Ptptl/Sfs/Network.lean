import Mathlib.Logic.Function.Basic
import Ptptl.Library.Runs
import Ptptl.Sfs.Auth

set_option autoImplicit false

/-! # Clients and a server -/

namespace Sfs

open Ptp Ptp.Store

variable {pki : Pki}

-- where an Auth waits for an answer
inductive Stage (pki : Pki) where
  | idle
  | asked (exchange : Nat) (localId : Certified pki)
  | responded (exchange : Nat) (localId remoteId : Certified pki)
    (auth : Authenticator (Certified pki))

structure Client (pki : Pki) where
  store : List (Entry pki)
  keys : List Key
  stage : Stage pki := .idle

structure Exchange (env : Env pki) where
  client : Nat
  request : Request env
  served : Bool := false
  reply : Option (Reply env) := none

structure Network (env : Env pki) where
  server : Server pki
  clients : Nat → Client pki
  exchanges : List (Exchange env) := []

-- the addresses of the clients, as the server sees them, and of the server
structure Site where
  ip : Nat → Nat
  serverIp : Nat
  serverPort : Nat

inductive Op (env : Env pki) where
  | auth (client : Nat)
  | serve (exchange : Nat) (chance : Chance) (shadow : Nat) (key : SessionKey) (shadow2 : Nat)
  -- a search or a get of anyone
  | visit (turn : Turn env)
  | receive (client : Nat) (chance : Chance)
  -- a connection fails and Auth returns NULL
  | fail (client : Nat)
  -- a client gets a key of another server
  | elsewhere (client : Nat) (now : Nat) (remote : Certified pki) (ip port : Nat) (flags : Byte)
    (shared : Shared)

inductive Output where
  | returned (client : Nat) (key : Key)
deriving DecidableEq

inductive Fault where
  | undefined
  -- not an operation of this state
  | refused
deriving DecidableEq

variable {env : Env pki}

def Network.setClient (net : Network env) (who : Nat) (client : Client pki) : Network env :=
  { net with clients := Function.update net.clients who client }

-- a client opens a connection and waits
def Network.send (net : Network env) (who : Nat) (client : Client pki) (request : Request env) :
    Network env :=
  { net.setClient who client with exchanges := net.exchanges ++ [{ client := who, request := request }] }

def Network.reply (net : Network env) (exchange : Nat) : Option (Reply env) :=
  net.exchanges[exchange]?.bind Exchange.reply

def orUndefined {A : Type} (value : Option A) : Except Fault A :=
  match value with
  | some value => .ok value
  | none => .error .undefined

def startAuth (site : Site) (net : Network env) (who : Nat) :
    Except Fault (Network env × List Output) := do
  let client := net.clients who
  match client.stage, findAddress client.keys site.serverIp site.serverPort with
  | .idle, some key => pure (net, [.returned who key])
  | .idle, none =>
    -- a buffer of size -1 without a certificate
    let localId ← orUndefined (ownIdent client.store)
    let client := { client with stage := .asked net.exchanges.length localId }
    pure (net.send who client (.auth (exportCert env localId)), [])
  | _, _ => .error .refused

def serveExchange (lib : Library env) (site : Site) (net : Network env) (place : Nat)
    (chance : Chance) (shadow : Nat) (key : SessionKey) (shadow2 : Nat) :
    Except Fault (Network env × List Output) := do
  match net.exchanges[place]? with
  | some ⟨client, request, false, _⟩ =>
    let turn : Turn env :=
      ⟨site.ip client, chance.now, request, chance.nonce, shadow, key, shadow2⟩
    let (server, reply) ← orUndefined (serve lib net.server turn chance)
    let exchanges := net.exchanges.set place ⟨client, request, true, reply⟩
    pure ({ net with server := server, exchanges := exchanges }, [])
  | _ => .error .refused

def serveOther (net : Network env) (turn : Turn env) : Except Fault (Network env × List Output) := do
  match turn.request with
  | .auth _ => .error .refused
  | .resp _ => .error .refused
  | _ =>
    let (server, _) ← orUndefined (step env net.server turn)
    pure ({ net with server := server }, [])

def receiveReply (lib : Library env) (site : Site) (net : Network env) (who : Nat) (chance : Chance) :
    Except Fault (Network env × List Output) := do
  let client := net.clients who
  match client.stage with
  -- the clients ask for flags 0
  | .idle => .error .refused
  | .asked exchange localId =>
    match net.reply exchange with
    | some (.challenge chal file) =>
      match ← orUndefined (authRespond lib client.store localId 0 chal file chance) with
      | (store, none) => pure (net.setClient who { client with store := store, stage := .idle }, [])
      | (store, some (data, remoteId, auth)) =>
        let stage := .responded net.exchanges.length localId remoteId auth
        pure (net.send who { client with store := store, stage := stage } (.resp data), [])
    | _ => .error .refused
  | .responded exchange localId remoteId auth =>
    match net.reply exchange with
    | some (.response data) =>
      let (key, keys) ← orUndefined (authFinish env client.keys localId remoteId auth
        site.serverIp site.serverPort 0 data chance.now)
      pure (net.setClient who { client with keys := keys, stage := .idle },
        key.toList.map (.returned who))
    | _ => .error .refused

def fromElsewhere (lib : Library env) (site : Site) (net : Network env) (who now : Nat)
    (remote : Certified pki) (ip port : Nat) (flags : Byte) (shared : Shared) :
    Except Fault (Network env × List Output) := do
  let client := net.clients who
  match client.stage with
  | .idle =>
    if ip = site.serverIp ∧ port = site.serverPort then .error .refused
    else
      let (_, store) ← orUndefined (insertRemote lib.names client.store now remote)
      let (_, keys) ← orUndefined (importKey env client.keys remote ip port flags shared)
      pure (net.setClient who { client with store := store, keys := keys }, [])
  | _ => .error .refused

def act (lib : Library env) (site : Site) (net : Network env) :
    Op env → Except Fault (Network env × List Output)
  | .auth who => startAuth site net who
  | .serve place chance shadow key shadow2 =>
    serveExchange lib site net place chance shadow key shadow2
  | .visit turn => serveOther net turn
  | .receive who chance => receiveReply lib site net who chance
  | .fail who => pure (net.setClient who { net.clients who with stage := .idle }, [])
  | .elsewhere who now remote ip port flags shared =>
    fromElsewhere lib site net who now remote ip port flags shared

/-- The keys of a process that has been a client: `Connect` refuses port 0. -/
inductive Imported (env : Env pki) : List Key → Prop
  | nil : Imported env []
  | cons {keys next : List Key} {remote : Certified pki} {ip port : Nat} {flags : Byte}
      {shared : Shared} {key : Key} (imported : Imported env keys) (connected : port ≠ 0)
      (imports : importKey env keys remote ip port flags shared = some (key, next)) :
      Imported env next

structure Start (site : Site) (net : Network env) : Prop where
  keys : Imported env net.server.keys
  keyid : net.server.keyid = 0
  exchanges : net.exchanges = []
  idle : ∀ who, (net.clients who).stage = .idle
  unknown : ∀ who, findAddress (net.clients who).keys site.serverIp site.serverPort = none

/-- Only the recipient opens an envelope, and finds in it what was put there. -/
def Sealed (lib : Library env) : Prop :=
  ∀ data recipient signer coins envelope,
    lib.exportEnvelope data recipient signer coins = some envelope →
      ∀ reader writer found, env.importEnvelope envelope reader writer = some found →
        found = data ∧ getKey env reader = getKey env recipient

-- CreateKey alone makes entries for port 0
def Server.created (server : Server pki) : Nat := server.keys.countP fun key => key.port == 0

end Sfs
