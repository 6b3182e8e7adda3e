import Ptptl.Ptp.Accept
import Ptptl.Ptp.HexText
import Ptptl.Ptp.HttpSent
import Ptptl.Ptp.Received
import Ptptl.Trut.Completes
import Ptptl.Trut.PutAnswers
import Ptptl.Trut.PutLength

set_option autoImplicit false

/-! # The two ends of a download -/

namespace Trut

open Ptp Ptp.Http Ptp.Collection CInt Chunked

/-! ## The server -/

def notFoundPage : Bytes := ascii "<B>404 NOT FOUND</B>\n"

def Body.key {Id : Type} : Body Id → Option SessionKey
  | .encrypted key _ => some key
  | _ => none

def Body.client {Id : Type} : Body Id → Option Id
  | .sealed client _ => some client
  | _ => none

section

variable {Id : Type} (evp : Cipher) (disk : Disk)
  (sealed : Id → Bytes → Block Identity.ciphertextSize)

/-- What `PutThread` writes behind the header of a reply. -/
def Reply.written (iv : Iv) : Reply Id → Option Bytes
  | .notFound => some notFoundPage
  | .cut _ => some (notFoundHeader ++ notFoundPage)
  | .ok _ entry body =>
    bodyBytes evp disk entry body.key body.client sealed
      ((contentLength disk entry body.key body.client).getD 0) iv

/-- `PutThread` over a connection, with the results of `PutAuth`; what its writes return is not
looked at. -/
def servePut (getName : Id → Option CString) (ulong : Nat) (trut : Trut) (resp : Bytes)
    (id : Option Id) (iv : Iv) (conn : Connection) : Option Connection := do
  let (hdr, conn) ← readHttpHdr ulong conn true headerSize
  match hdr with
  | none => return conn
  | some hdr =>
    let reply ← putThread getName disk ulong trut hdr.text resp id
    let body ← reply.written evp disk sealed iv
    let (_, conn) ← conn.writeAll reply.header reply.header.length
    let (_, conn) ← conn.writeAll body body.length
    return conn

end

section

variable {pki : Pki} (crypto : Crypto pki) (party : Party pki) (evp : Cipher) (disk : Disk)
  (sealed : Certified pki → Bytes → Block Identity.ciphertextSize)

/-- What `PortThread` does with a connection of HTTP type. The context of `PutThread` is a variable in
the loop of `PortThread`, and is read here as it was when the thread was started. -/
def Party.serve (trut : Trut) (moment : Moment) (nonce : Block Identity.plaintextSize) (iv : Iv)
    (auth : Authenticator (Certified pki)) (conn : Connection) :
    Option (Authenticator (Certified pki) × Connection) := do
  let put ← party.putAuth crypto moment nonce auth conn
  let (_, conn) ← put.conn.writeAll put.sent put.sent.length
  if put.status ≠ 0 then return (put.auth, conn)
  else
    let conn ← servePut evp disk sealed (fun id => crypto.names.name id.cert) crypto.ulong trut
      put.rsp put.id iv conn
    return (put.auth, conn)

/-- What becomes of a client in `PortThread`. -/
inductive Ported (Id : Type) where
  | host (conn : Connection)
  | put (auth : Authenticator Id) (conn : Connection)

/-- A turn of the loop of `PortThread` over its port `m_conn`. -/
def Party.port (trut : Trut) (moment : Moment) (nonce : Block Identity.plaintextSize) (iv : Iv)
    (auth : Authenticator (Certified pki)) (type : ConnectionType) (client : Client)
    (stack : Block Accept.bufferSize) : Option (Option (Ported (Certified pki))) :=
  match Accept.accepts type client stack with
  | none => some none
  | some accepted =>
    match accepted.type with
    | .http => do
      let (auth, conn) ← party.serve crypto evp disk sealed trut moment nonce iv auth accepted.conn
      return some (.put auth conn)
    | .raw => some (some (.host accepted.conn))

end

/-! ## The client -/

/-- The last status that a callback of `Get` is given. -/
inductive GetStatus where
  | done
  | error
deriving DecidableEq

/-- The end of a `Get` to a path, what is at the path, and what its two connections took. -/
structure Fetched where
  status : GetStatus
  size : Int
  file : Option Bytes
  asked : Bytes
  again : Bytes := []
deriving DecidableEq

def getLine (ref : Nat) (name : Bytes) : Bytes :=
  ascii "GET /get/" ++ decimal ref ++ ascii "/" ++ name ++ ascii " HTTP/1.0"

def getRequest (ref : Nat) (name : Bytes) : Bytes := getLine ref name ++ crlf ++ keepAlive ++ crlf

section

variable (evp : Cipher) (key : Option SessionKey)

def Fetched.failed (before : Option Bytes) (asked again : Bytes) : Fetched :=
  ⟨.error, 0, before, asked, again⟩

def Fetched.ofStream (asked again : Bytes) (final : Key.StreamResult) : Fetched :=
  ⟨if final.result < 0 then .error else .done, final.result, some final.written, asked, again⟩

/-- `GetThread` with a path; without its file it ends with GET_ERROR. -/
def receiveFile (before : Option Bytes) (opened : Option (List Chunked.Response)) (asked again : Bytes)
    (conn : Connection) : Option Fetched :=
  match opened, key with
  | none, _ => some (.failed before asked again)
  | some plan, some key =>
    (Key.decryptStream evp key (some conn.arrivals) (some ⟨[], plan⟩) true true
      Key.defaultReadSize).map (.ofStream asked again)
  | some plan, none =>
    (Key.transfer Key.defaultReadSize conn.arrivals (some ⟨[], plan⟩)).map (.ofStream asked again)

/-- `Get` behind `GetAuth`, with its thread. -/
def getFile (ulong : Nat) (before : Option Bytes) (opened : Option (List Chunked.Response))
    (asked again : Bytes) (conn : Connection) : Option Fetched := do
  let (hdr, conn) ← readHttpHdr ulong conn true headerSize
  match hdr with
  | none => return .failed before asked again
  | some hdr =>
    if hdr.status ≠ ok ∨ hdr.contentSize ≤ 0 then return .failed before asked again
    else receiveFile evp key before opened asked again conn

end

/-- What a `Get` runs with: its file, and what the world adds to it. -/
structure Chances (pki : Pki) where
  first : Moment
  last : Moment
  nonce : Block Identity.plaintextSize
  -- what other threads do to the authenticator between the two connections
  others : Authenticator (Certified pki) → Authenticator (Certified pki)

section

variable {pki : Pki} (crypto : Crypto pki) (party : Party pki) (evp : Cipher)

/-- `Get` to a path: `before` is there, `opened` says how the file takes what is written. A request
that its buffer does not hold leaves the language. -/
def Party.get (chances : Chances pki) (auth : Authenticator (Certified pki)) (rqst : Bytes)
    (key : Option SessionKey) (before : Option Bytes) (opened : Option (List Chunked.Response))
    (conn again : Connection) : Option Fetched := do
  let rqst ← fitting rqst
  let request ← party.firstRequest crypto rqst
  let (_, conn) ← conn.writeAll request request.length
  let asked := conn.sent.accepted
  match ← party.getAuth crypto chances.first chances.nonce auth rqst conn with
  | .result status _ conn =>
    if status ≠ 0 then return .failed before asked []
    else getFile evp key crypto.ulong before opened asked [] conn
  | .waits request auth =>
    let (_, again) ← again.writeAll request request.length
    let second := again.sent.accepted
    let (status, _, again) ← party.getAuthEnd crypto chances.last (chances.others auth) again
    if status ≠ 0 then return .failed before asked second
    else getFile evp key crypto.ulong before opened asked second again

end

/-! ## The texts of the two ends -/

theorem getRequest_header {name : Bytes} (plain : Plain name) (ref : Nat) :
    IsHeader (getRequest ref name ++ crlf) := by
  refine ⟨[getLine ref name, keepAlive], ?_, by simp, by simp [getRequest, linesText]⟩
  simp only [PlainLines, List.forall_mem_cons]
  refine ⟨⟨?_, by simp [getLine, ascii]⟩, keepAlive_plain, by simp⟩
  exact ((((by decide : Plain (ascii "GET /get/")).append (.decimal ref)).append (by decide)).append
    plain).append (by decide)

theorem parseRequest_getRequest {ulong ref : Nat} (number : ref < ulong) (name : Bytes) :
    parseRequest ulong (getRequest ref name ++ crlf) = some (.get ref) := by
  obtain ⟨rest, split⟩ : ∃ rest, getRequest ref name ++ crlf =
      ascii "GET /get/" ++ (decimal ref ++ (slash :: rest)) :=
    ⟨name ++ ascii " HTTP/1.0" ++ crlf ++ keepAlive ++ crlf ++ crlf, by
      simp [getRequest, getLine, slash, ascii]⟩
  have ended : (slash :: rest).takeWhile isdigit = [] := rfl
  rw [parseRequest, split, if_pos (List.prefix_append _ _), List.drop_left,
    strtoul_decimal number ended]

theorem hexValue_zeros (count : Nat) (digits : Bytes) :
    hexValue (List.replicate count 48 ++ digits) = hexValue digits := by
  induction count with
  | zero => rfl
  | succ count ih =>
    have zero : hexDigit 48 = some 0 := by decide
    rw [List.replicate_succ, List.cons_append, ← ih]
    simp [hexValue, zero]

theorem hexValue_hexText (value : Nat) :
    (∀ char ∈ hexText value, isxdigit char = true) ∧ hexValue (hexText value) = value := by
  have known : ∀ digit < 16,
      hexDigit ((if digit < 10 then 48 + digit else 87 + digit).toUInt8) = some digit := by decide
  have digits : (∀ char ∈ (Nat.digits 16 value).reverse.map fun digit =>
        (if digit < 10 then 48 + digit else 87 + digit).toUInt8, isxdigit char = true) ∧
      hexValue ((Nat.digits 16 value).reverse.map fun digit =>
        (if digit < 10 then 48 + digit else 87 + digit).toUInt8) = value := by
    induction value using Nat.strongRecOn with
    | ind value ih =>
      by_cases zero : value = 0
      · subst zero
        simp [hexValue]
      · have last := known (value % 16) (Nat.mod_lt _ (by decide))
        obtain ⟨all, valued⟩ := ih (value / 16) (by omega)
        rw [Nat.digits_def' (by decide) (Nat.pos_of_ne_zero zero), List.reverse_cons,
          List.map_append]
        constructor
        · intro char member
          rcases List.mem_append.1 member with member | member
          · exact all char member
          · obtain rfl := List.mem_singleton.1 member
            rw [isxdigit, last]
            rfl
        · rw [List.map_singleton, hexValue_append _ last, valued]
          exact Nat.div_add_mod value 16
  constructor
  · intro char member
    rcases List.mem_append.1 member with member | member
    · rw [List.eq_of_mem_replicate member]
      decide
    · exact digits.1 char member
  · rw [hexText, hexValue_zeros, digits.2]

theorem parseRequest_getsLine {ulong ref : Nat} (number : ref < ulong) {group : CString}
    (single : slash ∉ group.val) {hdr : Bytes} (starts : getsLine group ref ++ crlf <+: hdr) :
    parseRequest ulong hdr = some (.gets group.val ref) := by
  obtain ⟨rest, rfl⟩ := starts
  have split : getsLine group ref ++ crlf ++ rest = ascii "GET /gets/" ++ (group.val ++
      (slash :: (hexText ref ++ (ascii " HTTP/1.0" ++ crlf ++ rest)))) := by
    simp [getsLine, slash, ascii]
  have several : 2 ≤ (hexText ref).length := by
    rw [hexText, List.length_append, List.length_replicate]
    omega
  obtain ⟨all, valued⟩ := hexValue_hexText ref
  have ended : (ascii " HTTP/1.0" ++ crlf ++ rest).takeWhile isxdigit = [] := rfl
  have read := (strtoulHex_digits all several ended (by rw [valued]; exact number)).1
  have name : (group.val ++ (slash :: (hexText ref ++ (ascii " HTTP/1.0" ++ crlf ++ rest)))).takeWhile
      (· ≠ slash) = group.val := by
    rw [List.takeWhile_append_of_pos]
    · simp
    · intro char member
      have other : char ≠ slash := fun same => single (same ▸ member)
      simpa using other
  have gets : isGets (getsLine group ref ++ crlf ++ rest) := ⟨_, split.symm⟩
  have start : getsStart (getsLine group ref ++ crlf ++ rest) =
      group.val ++ (slash :: (hexText ref ++ (ascii " HTTP/1.0" ++ crlf ++ rest))) := by
    rw [getsStart, split, List.drop_left]
  rw [parseRequest_gets gets, if_pos (by rw [start]; simp), getsName, getsRef, getsName, start, name]
  have behind : (group.val ++ (slash :: (hexText ref ++ (ascii " HTTP/1.0" ++ crlf ++ rest)))).drop
      (group.val.length + 1) = hexText ref ++ (ascii " HTTP/1.0" ++ crlf ++ rest) := by
    rw [← List.drop_drop, List.drop_left]
    rfl
  rw [behind, read, valued]

theorem okHeader_status {ulong : Nat} (wide : 4294967296 ≤ ulong) (size : Int) (resp : Bytes) :
    status ulong (okHeader size resp) = ok := by
  obtain ⟨rest, split⟩ : ∃ rest, okHeader size resp = ascii "HTTP" ++ 32 :: (decimal 200 ++
      (crlf ++ rest)) := ⟨_, by simp only [okHeader, List.append_assoc]; rfl⟩
  have ended : (crlf ++ rest).takeWhile isdigit = [] := rfl
  have parsed := strtoul_decimal (by omega : 200 < ulong) ended
  have digits : decimal 200 = [50, 48, 48] := by decide +kernel
  rw [digits] at split parsed
  have skipped : ((ascii "HTTP" ++ 32 :: ([50, 48, 48] ++ (crlf ++ rest))).dropWhile
      (· ≠ 32)).dropWhile (· = 32) = 50 :: ([48, 48] ++ (crlf ++ rest)) := by
    have http : ascii "HTTP" = [72, 84, 84, 80] := rfl
    simp [http]
  have digit : isdigit 50 = true := by decide
  rw [List.cons_append] at parsed
  rw [split, status, if_pos (List.prefix_append _ _)]
  simp only [skipped, digit, if_true, parsed]
  decide

theorem okHeader_contentSize {ulong size : Nat} (wide : 4294967296 ≤ ulong)
    (small : (size : Int) ≤ intMax) (resp : Bytes) :
    contentSize ulong (okHeader size resp) = size := by
  have short : size < ulong := by
    unfold intMax at small
    omega
  have printed : printInt (size : Int) = decimal size := by
    have nonneg : ¬ (size : Int) < 0 := by omega
    simp [printInt, nonneg]
  have split : okHeader size resp = linesText [ascii "HTTP 200",
      ascii "Content-type:application/binary"] ++ (lengthField ++ (decimal size ++
        (crlf ++ (cString resp ++ crlf)))) := by
    simp [okHeader, printed, linesText, lengthField]
  have found : strstr (okHeader size resp) (lf :: ascii "Content-length:") = some 42 := by
    rw [split]
    exact find_field (by decide) (by simp only [PlainLines, List.forall_mem_cons]; decide)
      (by simp) (by decide) (List.prefix_append _ _)
  have ended : (crlf ++ (cString resp ++ crlf)).takeWhile isdigit = [] := rfl
  have value : (okHeader size resp).drop (42 + 16) =
      decimal size ++ (crlf ++ (cString resp ++ crlf)) := by
    rw [split, ← List.append_assoc]
    exact List.drop_left' rfl
  simp only [contentSize, found, value, strtoul_decimal short ended]
  rw [wrap_of_le (by unfold intMin; omega) small]

/-! ## What is received -/

theorem Receives.read {text after : Bytes} {conn : Connection}
    (receives : Receives conn (text ++ after)) (header : IsHeader text)
    (short : text.length < headerSize) (ulong : Nat) :
    ∃ next, readHttpHdr ulong conn true headerSize =
        some (some ⟨text, status ulong text, contentSize ulong text⟩, next) ∧
      Receives next after ∧ next.sent = conn.sent := by
  obtain ⟨lines, plain, some', rfl⟩ := header
  obtain ⟨next, found, rest, clean⟩ :=
    readHttpHdr_given ulong plain some' short conn after receives.same receives.clean
  exact ⟨next, found, ⟨rest, clean⟩, readHttpHdr_sent found⟩

theorem Receives.writeAll {text data : Bytes} {conn : Connection} (receives : Receives conn text)
    (willing : conn.sent.Willing) : ∃ next written,
      conn.writeAll data data.length = some (written, next) ∧ Receives next text ∧
        next.sent.Willing ∧ next.sent.accepted = conn.sent.accepted ++ data := by
  obtain ⟨next, written, kept, -, accepted⟩ := Key.writeAll_taking conn willing data
  obtain ⟨unget, socket⟩ := Connection.writeAll_reads written
  refine ⟨next, _, written, ⟨?_, ?_⟩, kept, accepted⟩
  · rw [← receives.same, Connection.remaining, Connection.remaining, unget, socket]
  · rw [socket]
    exact receives.clean

/-- A client sends a request, and the first part of it is long enough to tell its method. -/
structure Calls (client : Client) (text : Bytes) : Prop where
  sends : Accept.Sends client text
  method : 4 ≤ client.socket.available
  willing : client.sent.Willing

section

variable {evp : Cipher} {data before : Bytes} {previous : Option Bytes} {asked again : Bytes}
  {conn : Connection}

theorem Fetched.ofStream_all {final : Key.StreamResult} (result : final.result = data.length)
    (written : final.written = data) : Fetched.ofStream asked again final =
      ⟨.done, data.length, some data, asked, again⟩ := by
  have valid : ¬ (data.length : Int) < 0 := by omega
  rw [Fetched.ofStream, result, written, if_neg valid]

theorem receiveFile_secure {key : SessionKey} {fill : Iv}
    (receives : Receives conn (Key.cipherText evp key true true fill data)) (present : data ≠ [])
    (fits : ((data.length + Key.overhead true true : Nat) : Int) ≤ intMax) :
    receiveFile evp (some key) previous (some []) asked again conn =
      some ⟨.done, data.length, some data, asked, again⟩ := by
  obtain ⟨final, run, -, all⟩ := Key.decryptStream_all (Connection.arrivals_clean.2 receives.clean)
    fits (show conn.arrivals.contents = _ by rw [Connection.arrivals_contents, receives.same])
  obtain ⟨result, written⟩ := all present
  rw [← Fetched.ofStream_all result written]
  exact congrArg (Option.map _) run

end

section

variable {Id : Type} {evp : Cipher} {disk : Disk}
  {sealed : Id → Bytes → Block Identity.ciphertextSize} {getName : Id → Option CString}
  {ulong : Nat} {trut : Trut} {resp text body : Bytes} {id : Option Id} {reply : Reply Id} {iv : Iv}
  {conn : Connection}

theorem servePut_sends (receives : Receives conn text) (header : IsHeader text)
    (short : text.length < headerSize)
    (replies : putThread getName disk ulong trut text resp id = some reply)
    (writes : reply.written evp disk sealed iv = some body) (willing : conn.sent.Willing) :
    ∃ next, servePut evp disk sealed getName ulong trut resp id iv conn = some next ∧
      next.sent.accepted = conn.sent.accepted ++ (reply.header ++ body) := by
  rw [← List.append_nil text] at receives
  obtain ⟨middle, read, receives, kept⟩ := receives.read header short ulong
  obtain ⟨first, _, started, receives, willing, accepted⟩ :=
    @Receives.writeAll _ reply.header _ receives (kept ▸ willing)
  obtain ⟨last, _, ended, -, -, accepted'⟩ := @Receives.writeAll _ body _ receives willing
  refine ⟨last, ?_, by rw [accepted', accepted, kept, List.append_assoc]⟩
  simp only [servePut, read, Option.bind_eq_bind, Option.bind_some, replies, writes, started, ended]
  rfl

end

section

variable {pki : Pki} {crypto : Crypto pki} {party : Party pki} {evp : Cipher} {disk : Disk}
  {sealed : Certified pki → Bytes → Block Identity.ciphertextSize} {trut : Trut}

theorem putAuth_sent {moment : Moment} {nonce : Block Identity.plaintextSize}
    {auth : Authenticator (Certified pki)} {conn : Connection} {put : Put pki}
    (puts : party.putAuth crypto moment nonce auth conn = some put) : put.conn.sent = conn.sent := by
  obtain ⟨⟨hdr, next⟩, read, rest⟩ := Option.bind_eq_some_iff.1 puts
  have kept := readHttpHdr_sent read
  cases hdr with
  | none =>
    obtain rfl := Option.some.inj rest
    exact kept
  | some hdr =>
    obtain ⟨values, -, rest⟩ := Option.bind_eq_some_iff.1 rest
    split at rest
    · obtain rfl := Option.some.inj rest
      exact kept
    · obtain rfl := Option.some.inj rest
      exact kept
    · obtain ⟨_, -, rest⟩ := Option.bind_eq_some_iff.1 rest
      obtain ⟨_, -, rest⟩ := Option.bind_eq_some_iff.1 rest
      obtain rfl := Option.some.inj rest
      exact kept
    · obtain rfl := Option.some.inj rest
      exact kept

theorem serve_accepted {moment : Moment} {nonce : Block Identity.plaintextSize} {iv : Iv}
    {auth : Authenticator (Certified pki)} {conn : Connection} {put : Put pki} {text body : Bytes}
    {reply : Reply (Certified pki)}
    (puts : party.putAuth crypto moment nonce auth conn = some put) (accepted : put.status = 0)
    (nothing : put.sent = []) (receives : Receives put.conn text) (header : IsHeader text)
    (short : text.length < headerSize)
    (replies : putThread (fun id => crypto.names.name id.cert) disk crypto.ulong trut text put.rsp
      put.id = some reply)
    (writes : reply.written evp disk sealed iv = some body) (willing : conn.sent.Willing) :
    ∃ next, party.serve crypto evp disk sealed trut moment nonce iv auth conn =
        some (put.auth, next) ∧
      next.sent.accepted = conn.sent.accepted ++ (reply.header ++ body) := by
  have kept := putAuth_sent puts
  obtain ⟨next, served, sent⟩ := servePut_sends receives header short replies writes (kept ▸ willing)
  refine ⟨next, ?_, by rw [sent, kept]⟩
  have none : put.conn.writeAll put.sent put.sent.length = some (0, put.conn) := by
    rw [nothing]
    rfl
  simp only [Party.serve, puts, Option.bind_eq_bind, Option.bind_some, none, accepted, ne_eq,
    not_true, if_false, served]
  rfl

end

end Trut
