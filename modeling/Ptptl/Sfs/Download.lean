import Ptptl.Ptp.HttpSent
import Ptptl.Ptp.Received
import Ptptl.Sfs.Fetch
import Ptptl.Sfs.GetLength

set_option autoImplicit false

/-! # A download, from the request to the file -/

namespace Sfs

open Ptp Ptp.Collection CInt Chunked

/-- What the client's `Get` returns and puts into `*total`, and what is at its path then. -/
structure Got where
  result : Int
  total : Option Int
  file : Option Bytes
deriving DecidableEq

/-- The end of `Get`: a file of no bytes is removed. -/
def Got.ofStream (final : Key.StreamResult) : Got :=
  if final.result ≤ 0 then ⟨-1, none, none⟩ else ⟨0, some final.result, some final.written⟩

section

variable (evp : Cipher) (ulong : Nat) (key : Key)

/-- `Get` behind its `fopen`: reads of the connection are reads of what arrives over it. -/
def receiveFile (conn : Connection) (sink : Sink Byte) : Option Got :=
  if key.flags &&& plaintextFlag = 0 then
    -- the read size stands where `iv` is expected
    (Key.decryptStream evp key.shared.key (some conn.arrivals) (some sink) (readSize ≠ 0) true
      Key.defaultReadSize).map Got.ofStream
  else (Key.transfer readSize conn.arrivals (some sink)).map Got.ofStream

/-- `Get`: `before` is at its path, `opened` says how the file takes what is written. -/
def get (proxy : Option (Nat × Nat)) (url : Bytes) (before : Option Bytes)
    (opened : Option (List Chunked.Response)) (conn : Connection) : Option Got := do
  let (status, conn) ←
    Http.writeRequest conn proxy (some (ascii "GET")) (urlPath url) none none none 0
  if status ≠ 0 then return ⟨-1, none, before⟩
  let (hdr, conn) ← Http.readHttpHdr ulong conn false (-1)
  match hdr with
  -- `status` has no value
  | none => none
  | some hdr =>
    if hdr.status ≠ Http.ok then return ⟨-1, none, before⟩
    match opened with
    | none => return ⟨-1, none, before⟩
    | some plan => receiveFile evp key conn ⟨[], plan⟩

end

inductive Handler where
  | get
  | search
  | auth
  | resp
deriving DecidableEq

/-- `STRNCMP_CONST(buf, text) == 0`, where only `buf` was read. -/
def strncmpConst (buf text : Bytes) : Option Bool :=
  if text <+: buf then some true
  else if buf <+: text then none
  else some false

def handlerOf (buf : Bytes) : Option (Option Handler) := do
  if ← strncmpConst buf (ascii "GET ") then return some .get
  if ← strncmpConst buf (ascii "PUT /search") then return some .search
  if ← strncmpConst buf (ascii "PUT /auth") then return some .auth
  if ← strncmpConst buf (ascii "PUT /resp") then return some .resp
  return none

/-- A turn of `Share` up to its handler: what was read to choose it is put back. -/
def chooseHandler (conn : Connection) : Option (Option Handler × Connection) :=
  match conn.read 64 with
  | (some (head :: tail), conn) =>
    (handlerOf (head :: tail)).map fun handler => (handler, conn.putBack (head :: tail))
  | (_, conn) => some (none, conn)

variable {pki : Pki}

/-- `HandleGet` from the connection on. -/
def serveGet (env : Env pki) (disk : CString → Option (Source Byte)) (server : Server pki)
    (first second : Iv) (conn : Connection) : Option (Option Connection) := do
  let (hdr, conn) ← Http.readHttpHdr env.ulong conn false (-1)
  match hdr with
  | none => return none
  | some hdr => handleGetSends env disk server hdr.text conn first second

section

variable {evp : Cipher} {ulong : Nat} {key : Key} {proxy : Option (Nat × Nat)} {url : Bytes}
  {before : Option Bytes} {opened : Option (List Chunked.Response)} {conn : Connection} {got : Got}

theorem writeRequest_events {status : Int} {next : Connection} {method url : Option Bytes}
    (sent : Http.writeRequest conn proxy method url none none none 0 = some (status, next)) :
    next.events = conn.events := by
  obtain ⟨unget, socket⟩ := Http.sendHttp_reads sent
  rw [Connection.events, Connection.arrivals, unget, socket]
  rfl

theorem readHttpHdr_behind {hdr : Http.Header} {next : Connection}
    (read : Http.readHttpHdr ulong conn false (-1) = some (some hdr, next)) :
    ∃ raw, hdr.text = cString raw ∧ conn.events = raw.map some ++ next.events := by
  rw [Http.readHttpHdr_unlimited, Option.map_eq_some_iff] at read
  obtain ⟨⟨buffer, last⟩, looped, same⟩ := read
  obtain ⟨given, rfl⟩ := Prod.mk.inj same
  obtain ⟨raw, rfl, header⟩ := Option.bind_eq_some_iff.1 given
  by_cases present : raw = []
  next => simp [Http.headerOf, present] at header
  next =>
    rw [Http.headerOf, if_neg present] at header
    obtain rfl := Option.some.inj header
    have found := Http.readHdrLoop_found 512 [] conn
      (by rw [Http.Sized, if_neg (by decide)]; exact ⟨⟨0, rfl⟩, by decide, rfl⟩) rfl (by decide)
      (.inl rfl) present looped
    exact ⟨raw, rfl, found.whole⟩

theorem get_cases (ran : get evp ulong key proxy url before opened conn = some got) :
    got = ⟨-1, none, before⟩ ∨ ∃ asked hdr next plan,
      Http.writeRequest conn proxy (some (ascii "GET")) (urlPath url) none none none 0 =
        some (0, asked) ∧
      Http.readHttpHdr ulong asked false (-1) = some (some hdr, next) ∧ hdr.status = Http.ok ∧
      receiveFile evp key next ⟨[], plan⟩ = some got := by
  simp only [get, Option.bind_eq_bind, Option.bind_eq_some_iff] at ran
  obtain ⟨⟨status, asked⟩, sent, ran⟩ := ran
  dsimp only at ran
  split at ran
  next => exact .inl (Option.some.inj ran).symm
  next done =>
    obtain rfl := not_not.1 done
    obtain ⟨⟨hdr, next⟩, read, ran⟩ := Option.bind_eq_some_iff.1 ran
    cases hdr with
    | none => contradiction
    | some hdr =>
      dsimp only at ran
      split at ran
      next => exact .inl (Option.some.inj ran).symm
      next accepted =>
        cases opened with
        | none => exact .inl (Option.some.inj ran).symm
        | some plan => exact .inr ⟨asked, hdr, next, plan, sent, read, not_not.1 accepted, ran⟩

end

/-- What `Get` leaves of a file that it received whole: nothing of an empty one. -/
def Got.all (data : Bytes) : Got :=
  if data = [] then ⟨-1, none, none⟩ else ⟨0, some data.length, some data⟩

theorem Got.ofStream_all {final : Key.StreamResult} {data : Bytes}
    (none : data = [] → final.result ≤ 0)
    (all : data ≠ [] → final.result = data.length ∧ final.written = data) :
    Got.ofStream final = .all data := by
  unfold Got.ofStream Got.all
  by_cases empty : data = []
  next => rw [if_pos (none empty), if_pos empty]
  next =>
    obtain ⟨result, written⟩ := all empty
    have present := List.length_pos_of_ne_nil empty
    rw [if_neg (by omega), if_neg empty, result, written]

/-- Both ends of a session encrypt under one secret, and agree on whether files are encrypted. -/
structure Agrees (key remote : Key) : Prop where
  secret : remote.shared.key = key.shared.key
  plain : remote.flags &&& plaintextFlag = key.flags &&& plaintextFlag

section

variable {evp : Cipher} {key remote : Key} {source : Source Byte} {fill : Iv} {body : Bytes}
  {conn : Connection}

theorem receiveFile_body (agrees : Agrees key remote) (whole : source.Clean)
    (made : bodyBytes evp key source fill = some body) (clean : conn.socket.Clean)
    (same : conn.remaining = body) :
    receiveFile evp remote conn Key.taking = some (.all source.contents) := by
  have arrives : conn.arrivals.contents = body := by rw [Connection.arrivals_contents, same]
  have clean' := Connection.arrivals_clean.2 clean
  rw [bodyBytes_eq whole] at made
  rw [receiveFile, agrees.plain, agrees.secret]
  split at made
  next encrypted =>
    obtain ⟨rfl, fits⟩ := made
    obtain ⟨final, run, none, all⟩ := Key.decryptStream_all clean' fits arrives
    rw [if_pos encrypted]
    change (Key.decryptStream evp key.shared.key (some conn.arrivals) (some Key.taking) true true
      Key.defaultReadSize).map _ = _
    rw [run, Option.map_some, Got.ofStream_all none all]
  next plain =>
    obtain ⟨rfl, fits⟩ := made
    obtain ⟨final, run, none, all⟩ :=
      @Key.transfer_all conn.arrivals readSize (by decide) clean' (by rw [arrives]; exact fits)
    rw [arrives] at none all
    rw [if_neg plain, run, Option.map_some, Got.ofStream_all none all]

end

/-! ## The header of an answer -/

theorem answerHeader_lines {size : Int} (present : size ≠ 0) :
    answerHeader size = Http.linesText [Http.statusLine Http.ok,
      ascii "Content-type: " ++ ascii "application/binary",
      ascii "Content-length: " ++ printInt size] ++ Http.crlf := by
  simp [answerHeader, Http.headerText, Http.linesText, present]

theorem printInt_line (value : Int) : Http.Plain (printInt value) := by
  unfold printInt
  split
  next => exact (by decide : Http.Plain (ascii "-")).append (.decimal _)
  next => exact .decimal _

theorem readHttpHdr_answer {ulong : Nat} (wide : 4294967296 ≤ ulong) {size : Int}
    (present : size ≠ 0) (low : intMin ≤ size) (high : size ≤ intMax) {conn : Connection}
    {body : Bytes} (clean : conn.socket.Clean)
    (same : conn.remaining = answerHeader size ++ body) :
    ∃ hdr next, Http.readHttpHdr ulong conn false (-1) = some (some hdr, next) ∧
      hdr.status = Http.ok ∧ next.remaining = body ∧ next.socket.Clean := by
  have plain : Http.PlainLines [Http.statusLine Http.ok,
      ascii "Content-type: " ++ ascii "application/binary",
      ascii "Content-length: " ++ printInt size] := by
    intro line member
    simp only [List.mem_cons, List.not_mem_nil, or_false] at member
    rcases member with rfl | rfl | rfl
    · exact ⟨by decide +kernel, by decide +kernel⟩
    · exact ⟨by decide, by decide⟩
    · exact ⟨(by decide : Http.Plain (ascii "Content-length: ")).append (printInt_line size),
        by simp [ascii]⟩
  have short : (answerHeader size).length < Http.headerLimit := by
    have digits := Http.printInt_short low high
    have status : (Http.statusLine Http.ok).length = 11 := by decide +kernel
    have type : (ascii "Content-type: ").length = 14 := rfl
    have binary : (ascii "application/binary").length = 18 := rfl
    have length : (ascii "Content-length: ").length = 16 := rfl
    have line : Http.crlf.length = 2 := rfl
    rw [answerHeader, Http.headerText, if_pos present, Http.headerLimit]
    simp only [List.length_append, List.length_nil, status, line, type, binary, length]
    omega
  have accepted : Http.status ulong (answerHeader size) = Http.ok := by
    have valid : (Http.Start.response 200).Valid := (by decide : (200 : Int) ≤ intMax)
    have received := Http.Start.status_correct wide valid
    have split : ∃ rest, answerHeader size = Http.statusLine Http.ok ++ (Http.crlf ++ rest) :=
      ⟨_, by rw [answerHeader, Http.headerText, List.append_assoc, List.append_assoc,
        List.append_assoc]⟩
    obtain ⟨rest, split⟩ := split
    rw [split]
    exact received rest
  rw [answerHeader_lines present] at same short accepted
  obtain ⟨next, read, rest, clean'⟩ := Http.readHttpHdr_correct ulong plain (by simp) short conn body
    same clean
  exact ⟨_, next, read, accepted, rest, clean'⟩

theorem strncmpConst_append {buf text : Bytes} {same : Bool}
    (compared : strncmpConst buf text = some same) (more : Bytes) :
    strncmpConst (buf ++ more) text = some same := by
  rw [strncmpConst] at compared ⊢
  by_cases front : text <+: buf
  next =>
    rw [if_pos front] at compared
    rw [if_pos (front.trans (List.prefix_append _ more)), compared]
  next =>
    rw [if_neg front] at compared
    by_cases short : buf <+: text
    next =>
      rw [if_pos short] at compared
      cases compared
    next =>
      have other : ¬ text <+: buf ++ more := fun front' =>
        (List.prefix_or_prefix_of_prefix front' (List.prefix_append _ more)).elim front short
      have longer : ¬ buf ++ more <+: text := fun short' =>
        short ((List.prefix_append _ more).trans short')
      rw [if_neg short] at compared
      rw [if_neg other, if_neg longer, compared]

theorem handlerOf_append {buf : Bytes} {handler : Option Handler}
    (chosen : handlerOf buf = some handler) (more : Bytes) :
    handlerOf (buf ++ more) = some handler := by
  unfold handlerOf at chosen ⊢
  obtain ⟨get, compared, chosen⟩ := Option.bind_eq_some_iff.1 chosen
  rw [strncmpConst_append compared]
  cases get with
  | true => exact chosen
  | false =>
    obtain ⟨search, compared, chosen⟩ := Option.bind_eq_some_iff.1 chosen
    rw [strncmpConst_append compared]
    cases search with
    | true => exact chosen
    | false =>
      obtain ⟨auth, compared, chosen⟩ := Option.bind_eq_some_iff.1 chosen
      rw [strncmpConst_append compared]
      cases auth with
      | true => exact chosen
      | false =>
        obtain ⟨resp, compared, chosen⟩ := Option.bind_eq_some_iff.1 chosen
        rw [strncmpConst_append compared]
        exact chosen

theorem handlerOf_get (more : Bytes) : handlerOf (ascii "GET " ++ more) = some (some .get) :=
  handlerOf_append (by decide) more

/-- The first read chooses the handler if it brings enough, and the handler reads all of it again. -/
theorem chooseHandler_front {conn : Connection} (clean : conn.socket.Clean) {front rest : Bytes}
    {handler : Handler} (same : conn.remaining = front ++ rest) (present : front ≠ [])
    (small : front.length ≤ 64) (arrived : front.length ≤ conn.arrivals.available)
    (chosen : ∀ more, handlerOf (front ++ more) = some (some handler)) :
    ∃ ready, chooseHandler conn = some (some handler, ready) ∧ ready.remaining = conn.remaining ∧
      ready.socket.Clean ∧ ready.sent = conn.sent := by
  obtain ⟨more, next, read, split, failures, sent⟩ :=
    Connection.read_front clean same (by decide : 0 < 64) small arrived
  have told := chosen more
  cases start : front ++ more with
  | nil => exact absurd (List.append_eq_nil_iff.1 start).1 present
  | cons head tail =>
    rw [start] at read split told
    refine ⟨next.putBack (head :: tail), ?_, ?_, failures.trans clean, sent⟩
    · rw [chooseHandler, read]
      simp only [told, Option.map_some]
    · rw [Connection.putBack_remaining, split]

section

variable {pki : Pki} {env : Env pki} {disk : CString → Option (Source Byte)} {server : Server pki}
  {key remote : Key} {entry : Entry} {path : CString} {size ulong : Nat} {source : Source Byte}
  {client conn : Connection}

def asked (url : Bytes) : Bytes := Http.linesText [getLine url] ++ Http.crlf

theorem asked_written {ip port : Nat} (number : key.shared.keyid < 18446744073709551616)
    (masked : entry.id ^^^ key.shadow < 18446744073709551616) (willing : client.sent.Willing) :
    ∃ next, Http.writeRequest client none (some (ascii "GET"))
        (urlPath (fileUrl ip port key entry)) none none none 0 = some (0, next) ∧
      next.sent.accepted = client.sent.accepted ++ asked (fileUrl ip port key entry) ∧
      next.unget = client.unget ∧ next.socket = client.socket := by
  have text : Http.headerText (getLine (fileUrl ip port key entry)) []
      (ascii "application/binary") 0 = asked (fileUrl ip port key entry) := by
    simp [asked, Http.headerText, Http.linesText]
  have short : (asked (fileUrl ip port key entry)).length < 100 := getLine_short ip port number masked
  have whole : wrap (asked (fileUrl ip port key entry)).length =
      (asked (fileUrl ip port key entry)).length :=
    wrap_of_le (by unfold intMin; omega) (by unfold intMax; omega)
  obtain ⟨sent, written, accepted, -⟩ := client.writeAll_correct willing
    (asked (fileUrl ip port key entry)) (Int.le_refl _)
  rw [Int.toNat_natCast, List.take_length] at accepted
  obtain ⟨unget, socket⟩ := Connection.writeAll_reads written
  refine ⟨sent, ?_, accepted, unget, socket⟩
  have start : Http.requestLine none ((some (ascii "GET")).getD (ascii "PUT"))
      ((urlPath (fileUrl ip port key entry)).getD (ascii "/tunnel")) =
        getLine (fileUrl ip port key entry) := rfl
  have sized : ¬ (0 : Int) = -1 := by decide
  simp only [Http.writeRequest, Http.sendHttp, start, Option.getD_none, if_neg sized, text, whole,
    written, Option.bind_eq_bind, Option.bind_some, Option.pure_def]
  simp

theorem serveGet_sends {ip port : Nat} (word : 4294967296 ≤ env.ulong)
    (narrow : env.ulong ≤ 18446744073709551616)
    (found : findKey server.keys key.shared.keyid = some key)
    (number : key.shared.keyid < env.ulong) (mask : entry.id ^^^ key.shadow < env.ulong)
    (collected : env.collect.find entry.id = some entry) (content : entry.content = .file path size)
    (opened : disk path = some source) {first second : Iv} {announced : Int} {body : Bytes}
    (given : announcedSize env.cipher key entry first = some announced)
    (made : bodyBytes env.cipher key source second = some body)
    (clean : conn.socket.Clean) (willing : conn.sent.Willing)
    (same : conn.remaining = asked (fileUrl ip port key entry)) :
    ∃ next, serveGet env disk server first second conn = some (some next) ∧
      next.sent.accepted = conn.sent.accepted ++ (answerHeader announced ++ body) := by
  have plain : Http.PlainLines [getLine (fileUrl ip port key entry)] := by
    intro line member
    obtain rfl := List.mem_singleton.1 member
    refine ⟨getLine_plain ip port key entry, ?_⟩
    rw [getLine_fileUrl]
    exact List.append_ne_nil_of_left_ne_nil (by decide) _
  have short : (asked (fileUrl ip port key entry)).length < 100 :=
    getLine_short ip port (by omega) (by omega)
  obtain ⟨middle, read, -, -⟩ := Http.readHttpHdr_correct env.ulong plain (by simp)
    (Nat.lt_trans short (by decide)) conn [] (by rw [same, List.append_nil]; rfl) clean
  have kept := Http.readHttpHdr_sent read
  have looked : lookup env server
      (Http.linesText [getLine (fileUrl ip port key entry)] ++ Http.crlf) =
      some (some (key, entry)) := by
    have lines : Http.linesText [getLine (fileUrl ip port key entry)] =
        getLine (fileUrl ip port key entry) ++ Http.crlf := by simp [Http.linesText]
    rw [lines, lookup_getLine env server ip port number mask, found]
    simp only [xor_cancel, collected, Option.map_some]
  obtain ⟨next, sent, written⟩ := @sendFile_writes env.cipher key entry source middle (kept ▸ willing)
    first second announced body given made
  refine ⟨next, ?_, by rw [written, kept]⟩
  rw [serveGet, read, Option.bind_eq_bind, Option.bind_some]
  exact (handleGetSends_file looked content opened middle first second).trans sent

theorem get_receives {ip port : Nat} (wide : 4294967296 ≤ ulong)
    (number : key.shared.keyid < 18446744073709551616)
    (masked : entry.id ^^^ key.shadow < 18446744073709551616) {evp : Cipher}
    (agrees : Agrees key remote) (whole : source.Clean) {announced : Int} {fill : Iv} {body : Bytes}
    (present : announced ≠ 0) (low : intMin ≤ announced) (high : announced ≤ intMax)
    (made : bodyBytes evp key source fill = some body) (clean : client.socket.Clean)
    (willing : client.sent.Willing) (same : client.remaining = answerHeader announced ++ body)
    (before : Option Bytes) :
    get evp ulong remote none (fileUrl ip port key entry) before (some []) client =
      some (.all source.contents) := by
  obtain ⟨sent, written, -, unget, socket⟩ := @asked_written key entry client ip port number masked
    willing
  have remaining : sent.remaining = client.remaining := by
    rw [Connection.remaining, unget, socket]
    rfl
  obtain ⟨hdr, next, read, accepted, rest, clean'⟩ := readHttpHdr_answer wide present low high
    (show sent.socket.Clean from socket ▸ clean) (remaining.trans same)
  have received := receiveFile_body agrees whole made clean' rest
  simp only [get, written, Option.bind_eq_bind, Option.bind_some, read, accepted, ne_eq, not_true,
    if_false]
  exact received

end

/-- A file that the server finds under the number of a key and the masked id, of a size that leaves
room for what the encryption adds. -/
structure Offered {pki : Pki} (env : Env pki) (disk : CString → Option (Source Byte))
    (server : Server pki) (key : Key) (entry : Entry) (source : Source Byte) : Prop where
  found : findKey server.keys key.shared.keyid = some key
  number : key.shared.keyid < env.ulong
  mask : entry.id ^^^ key.shadow < env.ulong
  collected : env.collect.find entry.id = some entry
  file : ∃ path size, entry.content = .file path size ∧ disk path = some source ∧
    wrap size + 28 ≤ intMax
  clean : source.Clean
  fits : ((source.contents.length + 28 : Nat) : Int) ≤ intMax

/-- A download, however the bytes are cut on their way: `Get` sends the request for a URL, a turn of
`Share` answers it, and `Get` makes of the answer the file as it is on the server's disk at that
time, or nothing of an empty one. -/
theorem get_file {pki : Pki} {env : Env pki} {disk : CString → Option (Source Byte)}
    {server : Server pki} {key remote : Key} {entry : Entry} {source : Source Byte} {ulong : Nat}
    (word : env.ulong = 4294967296 ∨ env.ulong = 18446744073709551616) (wide : 4294967296 ≤ ulong)
    (offered : Offered env disk server key entry source) (agrees : Agrees key remote)
    (ip port : Nat) (first second : Iv) (before : Option Bytes) :
    ∃ answer : Bytes, ∀ client conn : Connection, client.socket.Clean → client.sent.Willing →
      conn.socket.Clean → conn.sent.Willing →
        (∃ next, Http.writeRequest client none (some (ascii "GET"))
            (urlPath (fileUrl ip port key entry)) none none none 0 = some (0, next) ∧
          next.sent.accepted = client.sent.accepted ++ asked (fileUrl ip port key entry)) ∧
        (conn.remaining = asked (fileUrl ip port key entry) → 4 ≤ conn.arrivals.available →
          ∃ ready next, chooseHandler conn = some (some .get, ready) ∧
            serveGet env disk server first second ready = some (some next) ∧
            next.sent.accepted = conn.sent.accepted ++ answer) ∧
        (client.remaining = answer →
          get env.cipher ulong remote none (fileUrl ip port key entry) before (some []) client =
            some (.all source.contents)) := by
  obtain ⟨path, size, content, opened, scanned⟩ := offered.file
  have wide' : 4294967296 ≤ env.ulong := by omega
  have narrow : env.ulong ≤ 18446744073709551616 := by omega
  have number := Nat.lt_of_lt_of_le offered.number narrow
  have masked := Nat.lt_of_lt_of_le offered.mask narrow
  have overhead : Key.overhead true true = 28 := rfl
  have fits := offered.fits
  have sized : entry.getSize = size := by rw [Entry.getSize, content]
  obtain ⟨announced, given⟩ :
      ∃ announced, announcedSize env.cipher key entry first = some announced := by
    simp only [announcedSize_eq, sized, overhead]
    by_cases positive : 0 < wrap (size : Int)
    next => exact ⟨_, .inl ⟨positive, rfl, scanned⟩⟩
    next => exact ⟨-1, .inr ⟨Int.not_lt.1 positive, rfl⟩⟩
  obtain ⟨body, made⟩ : ∃ body, bodyBytes env.cipher key source second = some body := by
    simp only [bodyBytes_eq offered.clean, overhead]
    split
    next => exact ⟨_, rfl, fits⟩
    next => exact ⟨_, rfl, by omega⟩
  have range : announced ≠ 0 ∧ intMin ≤ announced ∧ announced ≤ intMax := by
    have low : intMin ≤ (-1 : Int) ∧ (-1 : Int) ≤ intMax := by decide
    rcases announcedSize_eq.1 given with ⟨positive, rfl, high⟩ | ⟨_, rfl⟩
    next => exact ⟨by omega, by omega, high⟩
    next => exact ⟨by decide, low⟩
  refine ⟨answerHeader announced ++ body, fun client conn clean willing clean' willing' =>
    ⟨?_, ?_, ?_⟩⟩
  next =>
    obtain ⟨next, written, accepted, -⟩ := @asked_written key entry client ip port number masked
      willing
    exact ⟨next, written, accepted⟩
  next =>
    intro same method
    have line : asked (fileUrl ip port key entry) = ascii "GET " ++
        (asked (fileUrl ip port key entry)).drop 4 := by
      rw [asked, Http.linesText, List.flatMap_cons, getLine_fileUrl]
      rfl
    obtain ⟨ready, chosen, kept, ready', sent⟩ := chooseHandler_front clean' (same.trans line)
      (by decide) (by decide) method handlerOf_get
    obtain ⟨next, served, written⟩ := serveGet_sends wide' narrow offered.found offered.number
      offered.mask offered.collected content opened given made ready' (sent ▸ willing')
      (kept.trans same)
    exact ⟨ready, next, chosen, served, by rw [written, sent]⟩
  next =>
    intro same
    exact get_receives wide number masked agrees offered.clean range.1 range.2.1 range.2.2 made clean
      willing same before

theorem sharedFile_offered : Offered (fileEnv 1) (fun _ => some [.data 7 []])
    { keys := [flaggedKey 0] } (flaggedKey 0) (sharedFile 1) [.data 7 []] where
  found := rfl
  number := (by decide : 0 < 4294967296)
  mask := (by decide : 1 ^^^ 0 < 4294967296)
  collected := by simp [fileEnv, Collection.find, sharedFile]
  file := ⟨_, 1, rfl, rfl, by decide⟩
  clean := rfl
  fits := by decide

theorem get_file_byte : ∃ answer : Bytes, ∀ client conn : Connection, client.socket.Clean →
    client.sent.Willing → conn.socket.Clean → conn.sent.Willing →
      (∃ next, Http.writeRequest client none (some (ascii "GET"))
          (urlPath (fileUrl 1 80 (flaggedKey 0) (sharedFile 1))) none none none 0 = some (0, next) ∧
        next.sent.accepted =
          client.sent.accepted ++ asked (fileUrl 1 80 (flaggedKey 0) (sharedFile 1))) ∧
      (conn.remaining = asked (fileUrl 1 80 (flaggedKey 0) (sharedFile 1)) →
        4 ≤ conn.arrivals.available → ∃ ready next, chooseHandler conn = some (some .get, ready) ∧
          serveGet (fileEnv 1) (fun _ => some [.data 7 []]) { keys := [flaggedKey 0] }
            (Block.zero _) (Block.zero _) ready = some (some next) ∧
          next.sent.accepted = conn.sent.accepted ++ answer) ∧
      (client.remaining = answer →
        get (fileEnv 1).cipher 4294967296 (flaggedKey 0) none
          (fileUrl 1 80 (flaggedKey 0) (sharedFile 1)) none (some []) client =
            some (.all [7])) :=
  get_file (.inl rfl) (Nat.le_refl _) sharedFile_offered ⟨rfl, rfl⟩ 1 80 (Block.zero _)
    (Block.zero _) none

def byteAnswer : Bytes :=
  answerHeader 29 ++
    Key.cipherText duoEnv.cipher (flaggedKey 0).shared.key true true (Block.zero _) [7]

def byteClient : Connection := { unget := byteAnswer, socket := [], sent := Key.taking }

theorem byteClient_got : get duoEnv.cipher 4294967296 (flaggedKey 0) none
    (fileUrl 1 80 (flaggedKey 0) (sharedFile 1)) none (some []) byteClient = some (.all [7]) := by
  have clean : Source.Clean [Segment.data (7 : Byte) []] := rfl
  have made : bodyBytes duoEnv.cipher (flaggedKey 0) [.data 7 []] (Block.zero _) = some
      (Key.cipherText duoEnv.cipher (flaggedKey 0).shared.key true true (Block.zero _) [7]) :=
    (bodyBytes_eq clean).2 ⟨rfl, by decide⟩
  have drained : byteClient.socket.Clean := rfl
  exact get_receives (Nat.le_refl _) (by decide) (by decide) ⟨rfl, rfl⟩ clean (by decide) (by decide)
    (by decide) made drained Key.taking_willing (List.append_nil _) none

section

variable {evp : Cipher} {ulong : Nat} {key : Key} {proxy : Option (Nat × Nat)} {url : Bytes}
  {before : Option Bytes} {opened : Option (List Chunked.Response)} {conn : Connection} {got : Got}

/-- Under encryption, whoever answers: either `Get` fails, and what was at its path is there still
or nothing is, or `ReadHttpHdr` has read a header with an `OK`, and the file holds what everything
behind it encrypts under the key. -/
theorem get_authentic (encrypted : key.flags &&& plaintextFlag = 0)
    (fits : (conn.events.length : Int) ≤ intMax)
    (ran : get evp ulong key proxy url before opened conn = some got) :
    (got.result = -1 ∧ got.total = none ∧ (got.file = before ∨ got.file = none)) ∨
      ∃ asked hdr raw next fill data,
        Http.writeRequest conn proxy (some (ascii "GET")) (urlPath url) none none none 0 =
          some (0, asked) ∧
        Http.readHttpHdr ulong asked false (-1) = some (some hdr, next) ∧ hdr.status = Http.ok ∧
        hdr.text = cString raw ∧ conn.events = raw.map some ++ next.events ∧
        next.events = (Key.cipherText evp key.shared.key true true fill data).map some ∧
        data ≠ [] ∧ got = ⟨0, some data.length, some data⟩ := by
  rcases get_cases ran with rfl | ⟨asked, hdr, next, plan, sent, read, accepted, received⟩
  next => exact .inl ⟨rfl, rfl, .inl rfl⟩
  next =>
    obtain ⟨raw, text, behind⟩ := readHttpHdr_behind read
    rw [writeRequest_events sent] at behind
    have within : (next.arrivals.contents.length : Int) ≤ intMax := by
      have most := Key.contents_le_events next.arrivals
      have length := congrArg List.length behind
      rw [List.length_append, Connection.events, Connection.events] at length
      rw [Connection.events] at fits
      omega
    rw [receiveFile, if_pos encrypted] at received
    obtain ⟨final, run, rfl⟩ := Option.map_eq_some_iff.1 received
    unfold Got.ofStream
    split
    next => exact .inl ⟨rfl, rfl, .inr rfl⟩
    next positive =>
      obtain ⟨fill, data, present, arrived, completed⟩ :=
        Key.decryptStream_authentic (by decide) within run (by omega)
      have stored : final.written = data := by
        simp [Key.StreamResult.written, completed.accepted]
      refine .inr ⟨asked, hdr, raw, next, fill, data, sent, read, accepted, text, behind, ?_, present,
        by rw [completed.result, stored]⟩
      rw [Connection.events, completed.clean.events, arrived]

end

theorem get_authentic_byte :
    (Got.all [7]).result = -1 ∧ (Got.all [7]).total = none ∧
        ((Got.all [7]).file = none ∨ (Got.all [7]).file = none) ∨
      ∃ asked hdr raw next fill data,
        Http.writeRequest byteClient none (some (ascii "GET"))
          (urlPath (fileUrl 1 80 (flaggedKey 0) (sharedFile 1))) none none none 0 =
            some (0, asked) ∧
        Http.readHttpHdr 4294967296 asked false (-1) = some (some hdr, next) ∧
        hdr.status = Http.ok ∧ hdr.text = cString raw ∧
        byteClient.events = raw.map some ++ next.events ∧
        next.events = (Key.cipherText duoEnv.cipher (flaggedKey 0).shared.key true true fill data).map
          some ∧
        data ≠ [] ∧ Got.all [7] = ⟨0, some data.length, some data⟩ := by
  refine get_authentic rfl ?_ byteClient_got
  have length : byteClient.events.length = (answerHeader 29).length + 29 := by
    have clean : byteClient.socket.Clean := rfl
    rw [Connection.events_clean clean, List.length_map, Connection.remaining, byteClient, byteAnswer,
      List.append_assoc, List.length_append, List.length_append, Key.cipherText_length]
    rfl
  have header : (answerHeader 29).length < 100 := by decide +kernel
  rw [length, intMax]
  omega

end Sfs
