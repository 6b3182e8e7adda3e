import Ptptl.Sfs.Auth
import Ptptl.Sfs.Browse

set_option autoImplicit false

/-! # The server over its connections -/

namespace Sfs

open Ptp Ptp.Collection CInt Chunked

/-- What `Share` has besides `Env`: files of certificates are bytes, and it has an address. -/
structure Host {pki : Pki} (env : Env pki) where
  lib : Library env
  file : Bytes → env.pkcs12.File
  bytes : env.pkcs12.File → Bytes
  disk : CString → Option (Source Byte)
  ip : Nat
  port : Nat

/-- A client that `Share` accepts, and what the world adds to the turn. -/
structure Visit where
  ip : Nat
  conn : Connection
  chance : Chance
  shadow : Nat
  key : SessionKey
  shadow2 : Nat
  first : Iv
  second : Iv

variable {pki : Pki} {env : Env pki}

def Visit.turn (visit : Visit) (request : Request env) : Turn env :=
  ⟨visit.ip, visit.chance.now, request, visit.chance.nonce, visit.shadow, visit.key, visit.shadow2⟩

/-- What `BIO_new_mem_buf` makes of a body: one that broke off has the size -1 of a string. -/
def certData (request : Http.Message) : Option Bytes :=
  if request.contentSize < 0 then
    if 0 ∈ request.data then some (cString request.data) else none
  else some request.data

section

variable (host : Host env)

def Host.data : Reply env → Bytes
  | .challenge chal file => chal.val ++ host.bytes file
  | .response data => data

/-- The end of `HandleAuth` and `HandleResp`, with their reply if they have one. -/
def Host.reply (conn : Connection) (reply : Option (Reply env)) : Option Connection :=
  match reply with
  | none => some conn
  | some reply => do
    let size ← checked (host.data reply).length
    let (_, conn) ← Http.writeResponse conn Http.ok none (some (host.data reply)) none size
    return conn

def Host.request (handler : Handler) (request : Http.Message) : Request env :=
  match handler with
  | .get => .other
  | .search => if request.contentSize < 0 then .other else .search request.data
  | .auth => (certData request).elim .other fun data => .auth (host.file data)
  | .resp => if request.contentSize < 0 then .other else .resp request.data

def Host.bodyRequest (handler : Handler) (conn : Connection) : Request env :=
  match Http.readHttp env.ulong conn (-1) with
  | some (some request, _) => host.request handler request
  | _ => .other

def headerRequest (conn : Connection) : Request env :=
  match Http.readHttpHdr env.ulong conn false (-1) with
  | some (some hdr, _) => .get hdr.text
  | _ => .other

def Visit.request (visit : Visit) : Request env :=
  match chooseHandler visit.conn with
  | some (some .get, conn) => headerRequest conn
  | some (some handler, conn) => host.bodyRequest handler conn
  | _ => .other

inductive Writes (visit : Visit) : List (Event pki) → Bytes → Prop
  | nothing : Writes visit [] []
  | challenge (remote own : Certified pki) (found : localId env = some own) :
      Writes visit [] (message replyStart ((Authenticator.challengeData (toIdentity remote)
        visit.chance.nonce visit.chance.challenge).val ++ host.bytes (exportCert env own)))
  | issued (remote own : Certified pki) (key : Key) (chal : Block Authenticator.challengeSize)
      (envelope : Bytes) (found : localId env = some own)
      (exported : host.lib.exportEnvelope key.shared.bytes remote own visit.chance.coins =
        some envelope) :
      Writes visit [.issued visit.chance.now remote key]
        (message replyStart ((Authenticator.responseData env.sha1 host.lib.privateDecrypt
          (some (toIdentity own)) chal visit.chance.response).val ++ envelope))
  | page (key : Key) (pattern : Bytes) :
      Writes visit [.answered key] (message replyStart (Key.cipherText env.cipher
        key.shared.key true true visit.first
        (pageText host.ip host.port key (env.collect.findPat pattern))))
  | file (key : Key) (entry : Entry) (path : CString) (scanned : Nat) (source : Source Byte)
      (size : Int) (body : Bytes) (collected : entry ∈ env.collect.entries)
      (content : entry.content = .file path scanned) (opened : host.disk path = some source)
      (made : bodyBytes env.cipher key source visit.second = some body) :
      Writes visit [.answered key] (answerHeader size ++ body)

/-- A turn over a connection refines one that is given its request. -/
def Host.Refines (server : Server pki) (visit : Visit) (request : Request env)
    (next : Server pki) (conn : Connection) : Prop :=
  ∃ events written, step env server (visit.turn request) = some (next, events) ∧
    conn.sent.accepted = visit.conn.sent.accepted ++ written ∧ Writes host visit events written

end

section

variable {host : Host env} {server next : Server pki} {visit : Visit} {conn last : Connection}

theorem Host.Refines.silent {request : Request env} (kept : conn.sent = visit.conn.sent)
    (stepped : step env server (visit.turn request) = some (next, [])) :
    host.Refines server visit request next conn :=
  ⟨[], [], stepped, by rw [kept, List.append_nil], .nothing⟩

end

/-! ## Runs -/

section

variable {host : Host env} {start : List Key} {server next final : Server pki} {turn : Turn env}
  {rest : List (Turn env)} {past events : List (Event pki)} {visits : List Visit}
  {conns : List Connection}

theorem Accounted.peer (started : ∀ key ∈ start, ∃ since, Peer env since key)
    (invariant : Invariant start server past rest) {key : Key}
    (accounted : Accounted start past key) :
    ∃ since, Peer env since key := by
  rcases accounted with known | ⟨now, remote, issued⟩
  · exact started key known
  · exact ⟨now, remote, invariant.issued now remote key issued⟩

end

end Sfs
