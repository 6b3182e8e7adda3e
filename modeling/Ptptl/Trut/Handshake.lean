import Ptptl.Ptp.Exchange
import Ptptl.Ptp.HttpRoundTrip
import Ptptl.Ptp.StoreFind
import Ptptl.Trut.Auth
import Ptptl.Trut.AuthText
import Ptptl.Trut.Put

set_option autoImplicit false

/-! # The authentication over connections -/

namespace Trut

open Ptp Ptp.Http Ptp.Store Search

def headerSize : Nat := 1024

def challengeTime : Nat := 10 * 60

structure Crypto (pki : Pki) where
  names : Names pki
  sha1 : Bytes → Digest
  privateDecrypt : pki.PrivateKey → Bytes → Option Bytes
  ulong : Nat

/-- `m_store` and `m_local`. -/
structure Party (pki : Pki) where
  store : List (Entry pki)
  own : Certified pki
  found : (idents store).find? (fun certified => certified.key.isSome) = some own

-- the time, and what uninitialised buffers hold
structure Moment where
  now : Nat
  challenge : Block Authenticator.challengeSize
  response : Digest

/-! # Headers -/

def isSecure (hdr : Bytes) : Bool := (ascii "GET /gets/").isPrefixOf hdr

abbrev Values := Fields (Block publicKeySize) (Block Authenticator.challengeSize) Digest

def putValues (hdr : Bytes) : Option Values :=
  if !isSecure hdr then some {}
  else do
    match ← getAuthValue hdr identity publicKeySize with
    | some rkey => some { secure := true, identity := some rkey }
    | none =>
      match ← getAuthValue hdr response digestSize with
      | none => some { secure := true }
      | some rresp =>
        let rchal ← getAuthValue hdr challenge Authenticator.challengeSize
        some { secure := true, response := some rresp, challenge := rchal }

/-- The values that `GetAuth` reads in the first answer. -/
def getValues (hdr : Bytes) : Option Values := do
  match ← getAuthValue hdr identity publicKeySize with
  | none => some {}
  | some rkey =>
    let rchal ← getAuthValue hdr challenge Authenticator.challengeSize
    some { identity := some rkey, challenge := rchal }

-- the first request of `GetAuth`
def identityRequest (rqst : Bytes) (key : Block publicKeySize) : Bytes :=
  appendAuthValue rqst identity key.val ++ crlf

-- its second request
def responseRequest (rqst : Bytes) (chal : Block Authenticator.challengeSize) (resp : Digest) :
    Bytes :=
  appendAuthValue (appendAuthValue rqst challenge chal.val) response resp.val ++ crlf

def unauthorizedText : Bytes := ascii "HTTP/1.1 401 Unauthorized" ++ crlf ++ keepAlive ++ crlf

-- the answer of `PutAuth`
def challengeReply (key : Block publicKeySize) (chal : Block Authenticator.challengeSize) : Bytes :=
  appendAuthValue (appendAuthValue unauthorizedText identity key.val) challenge chal.val ++ crlf

def notFoundHeader : Bytes :=
  ascii "HTTP 404" ++ crlf ++ ascii "Content-type: text/html" ++ crlf ++ crlf

def Reply.header {Id : Type} : Reply Id → Bytes
  | .notFound => notFoundHeader
  | .ok header _ _ => header
  | .cut header => header

-- a header that its buffer holds
def fitting (hdr : Bytes) : Option Bytes := if hdr.length < headerSize then some hdr else none

/-! # `GetAuth` and `PutAuth` -/

section

variable {pki : Pki} (crypto : Crypto pki) (party : Party pki) (moment : Moment)

def Party.auth : Auth (Authenticator (Certified pki)) (Block publicKeySize) (Certified pki)
    (Block Identity.plaintextSize) (Block Authenticator.challengeSize) Digest where
  find rkey := (findIdent crypto.names party.store none false (some rkey)).join.map Prod.snd
  challenge auth rid nonce :=
  -- a certificate without an RSA key cannot be compared, and is taken for no match
    ((auth.challenge crypto.sha1 crypto.ulong (some rid.identity) challengeTime (some rid) true nonce
        moment.now).2,
      Authenticator.challengeData rid.identity nonce moment.challenge)
  respond chal := Authenticator.responseData crypto.sha1 crypto.privateDecrypt
    (some party.own.identity) chal moment.response
  verify auth resp :=
    let (found, auth) := auth.verify (some resp) moment.now
    (auth, found.bind Pending.context)

/-- A result of `PutAuth`, with what it wrote. -/
structure Put (pki : Pki) where
  status : Int
  auth : Authenticator (Certified pki)
  conn : Connection
  sent : Bytes := []
  id : Option (Certified pki) := none
  rsp : Bytes := []

def Party.putAuth (nonce : Block Identity.plaintextSize) (auth : Authenticator (Certified pki))
    (conn : Connection) : Option (Put pki) := do
  let (hdr, conn) ← readHttpHdr crypto.ulong conn true headerSize
  match hdr with
  | none => some { status := -1, auth := auth, conn := conn }
  | some hdr =>
    let values ← putValues hdr.text
    match Trut.putAuth (party.auth crypto moment) auth values nonce with
    | (auth, .unsecured) => some { status := 0, auth := auth, conn := conn.putBack hdr.text }
    | (auth, .refused) => some { status := -1, auth := auth, conn := conn }
    | (auth, .challenged chal) =>
      let key ← crypto.names.getKey party.own.cert
      let reply ← fitting (challengeReply key chal)
      some { status := -1, auth := auth, conn := conn, sent := reply }
    | (auth, .accepted rid resp) =>
      some { status := 0, auth := auth, conn := conn.putBack hdr.text, id := some rid,
             rsp := appendAuthValue [] response resp.val }

def Party.firstRequest (rqst : Bytes) : Option Bytes := do
  let key ← crypto.names.getKey party.own.cert
  fitting (if isSecure rqst then identityRequest rqst key else rqst ++ crlf)

/-- `GetAuth` has a result, or waits for the answer to its second request. -/
inductive Got (pki : Pki) where
  | result (status : Int) (auth : Authenticator (Certified pki)) (conn : Connection)
  | waits (request : Bytes) (auth : Authenticator (Certified pki))

def Party.getAuth (nonce : Block Identity.plaintextSize) (auth : Authenticator (Certified pki))
    (rqst : Bytes) (conn : Connection) : Option (Got pki) := do
  let (hdr, conn) ← readHttpHdr crypto.ulong conn true headerSize
  match hdr with
  | none => some (.result (-1) auth conn)
  | some hdr =>
    if !isSecure rqst then some (.result 0 auth (conn.putBack hdr.text))
    else
      let values ← getValues hdr.text
      match Trut.getAuth (party.auth crypto moment) auth values nonce with
      | (auth, none) => some (.result (-1) auth conn)
      | (auth, some (_, chal, resp)) =>
        -- the second request goes over a new connection
        let request ← fitting (responseRequest rqst chal resp)
        some (.waits request auth)

def Party.getAuthEnd (auth : Authenticator (Certified pki)) (conn : Connection) :
    Option (Int × Authenticator (Certified pki) × Connection) := do
  let (hdr, conn) ← readHttpHdr crypto.ulong conn true headerSize
  match hdr with
  | none => some (-1, auth, conn)
  | some hdr =>
    let rresp ← getAuthValue hdr.text response digestSize
    match Trut.getAuthEnd (party.auth crypto moment) auth ({ response := rresp } : Values) with
    | (auth, true) => some (0, auth, conn.putBack hdr.text)
    | (auth, false) => some (-1, auth, conn)

end

/-! # Lines of the headers -/

theorem appendAuthValue_lines (lines : List Bytes) (name value : Bytes) :
    appendAuthValue (linesText lines) name value = linesText (lines ++ [field name value]) := by
  simp [appendAuthValue, linesText]

theorem getsRequest_lines (group : CString) (ref : Nat) :
    getsRequest group ref = linesText [getsLine group ref, keepAlive] := by
  simp [getsRequest, linesText]

theorem unauthorizedText_lines :
    unauthorizedText = linesText [ascii "HTTP/1.1 401 Unauthorized", keepAlive] := rfl

theorem okHeader_lines {rsp : Bytes} (clean : (0 : Byte) ∉ rsp) :
    okHeader Identity.ciphertextSize rsp = linesText [ascii "HTTP 200",
      ascii "Content-type:application/binary", ascii "Content-length:128"] ++ rsp ++ crlf := by
  rw [okHeader, cString_eq clean]
  rfl

theorem notFoundHeader_lines : notFoundHeader =
    linesText [ascii "HTTP 404", ascii "Content-type: text/html"] ++ crlf := rfl

section

variable {name : Bytes} {size : Nat}

theorem field_plain (member : name ∈ fieldNames) (value : Block size) (positive : 0 < size) :
    Plain (field name value.val) ∧ field name value.val ≠ [] := by
  have names : ∀ name ∈ fieldNames, Plain (name ++ ascii ": ") ∧ name ≠ [] := by decide
  refine ⟨(names name member).1.append ?_, by simp [field, (names name member).2]⟩
  intro char member
  exact (valueText_char (block_present value positive) char member).1

theorem getsLine_plain {group : CString} (nameable : Nameable group) (ref : Nat) :
    Plain (getsLine group ref) ∧ getsLine group ref ≠ [] := by
  have name : Plain group.val := by
    intro char member
    have visible := (nameable.plain char member).1
    refine ⟨?_, ?_, ?_⟩ <;>
      · rintro rfl
        exact absurd visible (by decide)
  have number : Plain (hexText ref) := by
    intro char member
    exact (hexText_char ref char member).1
  refine ⟨?_, by simp [getsLine, ascii]⟩
  exact ((((by decide : Plain (ascii "GET /gets/")).append name).append (by decide)).append
    number).append (by decide)

theorem getsLine_secure (group : CString) (ref : Nat) (rest : Bytes) :
    isSecure (getsLine group ref ++ rest) = true := by
  rw [isSecure, List.isPrefixOf_iff_prefix]
  simp only [getsLine, List.append_assoc]
  exact List.prefix_append _ _

end

/-! # Values of the headers -/

theorem clear_end {name hdr : Bytes} (clear : Clear colon name [] hdr) :
    Clear colon name [] (hdr ++ crlf) :=
  clear.append (clear_of_not_mem (by decide))

section

variable {name : Bytes} (member : name ∈ fieldNames)

include member

theorem clear_append {hdr other : Bytes} (clear : Clear colon name [] hdr)
    (named : other ∈ fieldNames) (differ : other ≠ name) {size : Nat} (value : Block size)
    (positive : 0 < size) : Clear colon name [] (appendAuthValue hdr other value.val) := by
  have apart : ∀ first ∈ fieldNames, ∀ second ∈ fieldNames, second ≠ first →
      ¬ (first <:+ second ∨ second <:+ first) := by decide
  exact clear.append (clear_field (apart name member other named differ)
    (unbordered_names other named).2.2 (block_present value positive))

theorem clear_unauthorized : Clear colon name [] unauthorizedText := by
  have apart : ∀ name ∈ fieldNames,
      ¬ (name <:+ ascii "HTTP/1.1 401 Unauthorized" ++ crlf ++ ascii "Connection" ∨
        ascii "HTTP/1.1 401 Unauthorized" ++ crlf ++ ascii "Connection" <:+ name) := by decide
  exact clear_line (apart name member) (by decide) (by decide)

theorem clear_ok : Clear colon name [] (linesText [ascii "HTTP 200",
    ascii "Content-type:application/binary", ascii "Content-length:128"]) := by
  have first : ∀ name ∈ fieldNames, ¬ (name <:+ ascii "HTTP 200" ++ crlf ++ ascii "Content-type" ∨
      ascii "HTTP 200" ++ crlf ++ ascii "Content-type" <:+ name) := by decide
  have second : ∀ name ∈ fieldNames,
      ¬ (name <:+ ascii "Content-length" ∨ ascii "Content-length" <:+ name) := by decide
  have type : Clear colon name [] (ascii "HTTP 200" ++ crlf ++ ascii "Content-type" ++
      colon :: (ascii "application/binary" ++ crlf)) :=
    clear_line (first name member) (by decide) (by decide)
  have length (before : Bytes) : Clear colon name before (ascii "Content-length" ++
      colon :: (ascii "128" ++ crlf)) :=
    clear_line (second name member) (by decide) (by decide)
  exact type.append (length _)

theorem clear_notFound : Clear colon name [] notFoundHeader := by
  have apart : ∀ name ∈ fieldNames, ¬ (name <:+ ascii "HTTP 404" ++ crlf ++ ascii "Content-type" ∨
      ascii "HTTP 404" ++ crlf ++ ascii "Content-type" <:+ name) := by decide
  exact clear_line (apart name member) (by decide) (by decide)

end

section

variable {group : CString} (nameable : Nameable group) (ref : Nat)
  (key : Block publicKeySize) (chal : Block Authenticator.challengeSize) (resp : Digest)

include nameable

theorem putValues_identity :
    putValues (identityRequest (getsRequest group ref) key) =
      some { secure := true, identity := some key } := by
  have secure : isSecure (identityRequest (getsRequest group ref) key) = true := by
    simp only [identityRequest, appendAuthValue, getsRequest, List.append_assoc]
    exact getsLine_secure group ref _
  have found := getAuthValue_found (by decide) key (by decide)
    (clear_getsRequest nameable ref (by decide : identity ∈ fieldNames)) crlf
  rw [← identityRequest] at found
  simp [putValues, secure, found]

theorem putValues_response :
    putValues (responseRequest (getsRequest group ref) chal resp) =
      some { secure := true, response := some resp, challenge := some chal } := by
  have secure : isSecure (responseRequest (getsRequest group ref) chal resp) = true := by
    simp only [responseRequest, appendAuthValue, getsRequest, List.append_assoc]
    exact getsLine_secure group ref _
  have front {name : Bytes} (member : name ∈ fieldNames) :=
    clear_getsRequest nameable ref member
  have absent := getAuthValue_absent (by decide : identity ∈ fieldNames)
    (clear_end (clear_append (by decide)
      (clear_append (by decide) (front (by decide : identity ∈ fieldNames))
        (by decide : challenge ∈ fieldNames) (by decide) chal (by decide))
      (by decide : response ∈ fieldNames) (by decide) resp (by decide)))
    publicKeySize
  have answered := getAuthValue_found (by decide) resp (by decide)
    (clear_append (by decide) (front (by decide : response ∈ fieldNames))
      (by decide : challenge ∈ fieldNames) (by decide) chal (by decide)) crlf
  have challenged := getAuthValue_found (by decide) chal (by decide)
    (front (by decide : challenge ∈ fieldNames)) (field response resp.val ++ crlf ++ crlf)
  rw [← List.append_assoc, ← appendAuthValue, ← responseRequest] at challenged
  rw [← responseRequest] at absent answered
  simp [putValues, secure, absent, answered, challenged]

end

theorem getValues_challenge (key : Block publicKeySize)
    (chal : Block Authenticator.challengeSize) :
    getValues (challengeReply key chal) = some { identity := some key, challenge := some chal } := by
  have identified := getAuthValue_found (by decide) key (by decide)
    (clear_unauthorized (by decide : identity ∈ fieldNames)) (field challenge chal.val ++ crlf ++ crlf)
  have challenged := getAuthValue_found (by decide) chal (by decide)
    (clear_append (by decide) (clear_unauthorized (by decide : challenge ∈ fieldNames))
      (by decide : identity ∈ fieldNames) (by decide) key (by decide)) crlf
  rw [← List.append_assoc, ← appendAuthValue, ← challengeReply] at identified
  rw [← challengeReply] at challenged
  simp [getValues, identified, challenged]

end Trut
