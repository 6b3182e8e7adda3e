import Ptptl.Sfs.Download
import Ptptl.Sfs.Responses

set_option autoImplicit false

/-! # A search, from the pattern to the responses -/

namespace Sfs

open Ptp Ptp.Collection CInt Chunked

def searchUrl : Bytes := ascii "/search"

section

variable (evp : Cipher) (ulong : Nat) (key : Key) (str : CString)

/-- What `Search` puts to the server, and its size; the inner `none` is -1. -/
def searchBody (fill : Iv) : Option (Option (Bytes × Int)) := do
  let (size, _) ← Key.encrypt evp key.shared.key none str.val.length false true true fill
  if size ≤ 0 then return none
  let size ← checked (size + 4)
  let (_, cipher) ← Key.encrypt evp key.shared.key (some str.val) str.val.length true true true fill
  return some (store32 key.shared.keyid ++ cipher, size)

/-- `Search` up to its reply. -/
def sendSearch (proxy : Option (Nat × Nat)) (fill : Iv) (conn : Connection) :
    Option (Option Connection) := do
  match ← searchBody evp key str fill with
  | none => return none
  | some (buffer, size) =>
    let (status, conn) ← Http.writeRequest conn proxy (some (ascii "PUT")) (some searchUrl) none
      (some buffer) none size
    return if status ≠ 0 then none else some conn

def searchReply (reply : Http.Message) (fuel : Nat) : Option (Int × List Response) := do
  let (size, plain) ←
    Key.decrypt evp key.shared.key (some reply.data) reply.contentSize true true true
  if size ≤ 0 then return (-1, [])
  let resps ← Records.readAll insertResponse fuel (0, cString plain)
  return (0, resps)

def searchOver (proxy : Option (Nat × Nat)) (fill : Iv) (conn : Connection) (fuel : Nat) :
    Option (Int × List Response) := do
  match ← sendSearch evp key str proxy fill conn with
  | none => return (-1, [])
  | some conn =>
    match ← Http.readHttp ulong conn (-1) with
    | (none, _) => return (-1, [])
    | (some reply, _) => searchReply evp key reply fuel

end

/-- `HandleSearch` over a connection; the inner `none` is -1. -/
def serveSearch {pki : Pki} (env : Env pki) (ip port : Nat) (server : Server pki) (fill : Iv)
    (conn : Connection) : Option (Option Connection) := do
  match ← Http.readHttp env.ulong conn (-1) with
  | (none, _) => return none
  | (some request, conn) =>
    -- a body that broke off has the size -1, which decrypts to nothing
    if request.contentSize < 0 then return none
    match ← searchPage env ip port server request.data with
    | none => return none
    | some page =>
      let (size, cipher) ← Key.encrypt env.cipher page.key.shared.key (some page.text)
        page.text.length true true true fill
      let (status, conn) ← Http.writeResponse conn Http.ok none (some cipher) none size
      return if status ≠ 0 then none else some conn

/-! ## Messages without header lines -/

theorem start_fields {start : Http.Start} (valid : start.Valid) :
    Http.Fields start [] (ascii "application/binary") where
  valid := valid
  plainLines := by simp [Http.PlainLines]
  noSize := by simp
  plainType := by decide

def message (start : Http.Start) (body : Bytes) : Bytes := start.text none none body ++ body

theorem startText_short {start : Http.Start} (line : start.line.length ≤ 100) {body : Bytes}
    (small : (body.length : Int) ≤ intMax) : (start.text none none body).length < 300 := by
  have digits := Http.printInt_short (by unfold intMin; omega : intMin ≤ (body.length : Int)) small
  have type : (ascii "Content-type: ").length = 14 := rfl
  have binary : (ascii "application/binary").length = 18 := rfl
  have length : (ascii "Content-length: ").length = 16 := rfl
  have crlf : Http.crlf.length = 2 := rfl
  unfold Http.Start.text Http.headerText Http.contentType
  simp only [Option.getD_none]
  split <;> simp only [List.length_append, List.length_nil, type, binary, length, crlf] <;> omega

theorem message_written {start : Http.Start} (line : start.line.length ≤ 100) {body : Bytes}
    (small : (body.length : Int) ≤ intMax) (conn : Connection) (willing : conn.sent.Willing) :
    ∃ next, start.write conn none body none = some (0, next) ∧
      next.sent.accepted = conn.sent.accepted ++ message start body := by
  have short := startText_short line small
  have whole : (wrap (start.text none none body).length).toNat =
      (start.text none none body).length := by
    rw [wrap_of_le (by unfold intMin; omega) (by unfold intMax; omega), Int.toNat_natCast]
  obtain ⟨next, written, accepted⟩ := start.write_correct conn willing none none body
  rw [whole, List.take_length, List.append_assoc] at accepted
  exact ⟨next, written, accepted⟩

theorem message_read {ulong : Nat} (wide : 4294967296 ≤ ulong) {start : Http.Start}
    (valid : start.Valid) (line : start.line.length ≤ 100) {body : Bytes} (present : body ≠ [])
    (small : (body.length + 1 : Int) ≤ intMax) {conn : Connection} (clean : conn.socket.Clean)
    (same : conn.remaining = message start body) :
    ∃ next, Http.readHttp ulong conn (-1) = some (some
      { data := body, status := start.received, contentSize := body.length }, next) := by
  have short := startText_short line (by omega : (body.length : Int) ≤ intMax)
  obtain ⟨next, read, -, -⟩ := Http.readHttp_correct (start_fields valid) wide present small
    (Nat.lt_trans short (by decide)) conn [] clean (by rw [same, List.append_nil]; rfl)
  exact ⟨next, read⟩

theorem handlerOf_search (more : Bytes) :
    handlerOf (ascii "PUT /search" ++ more) = some (some .search) :=
  handlerOf_append (by decide) more

/-! ## The two ends -/

def searchStart : Http.Start := .request none (some (ascii "PUT")) (some searchUrl)

theorem searchStart_valid : searchStart.Valid := ⟨.inr rfl, by decide⟩

def searchRequest (evp : Cipher) (key : Key) (str : CString) (fill : Iv) : Bytes :=
  message searchStart
    (store32 key.shared.keyid ++ Key.cipherText evp key.shared.key true true fill str.val)

section

variable {evp : Cipher} {key : Key} {str : CString} {fill : Iv}

theorem searchBody_eq (present : str.val ≠ []) (small : (str.val.length + 32 : Int) ≤ intMax) :
    searchBody evp key str fill = some (some (store32 key.shared.keyid ++
        Key.cipherText evp key.shared.key true true fill str.val,
      ((store32 key.shared.keyid ++
        Key.cipherText evp key.shared.key true true fill str.val).length : Int))) := by
  have overhead : Key.overhead true true = 28 := rfl
  have fits : ((str.val.length + Key.overhead true true : Nat) : Int) ≤ intMax := by omega
  have positive : ¬ ((str.val.length + Key.overhead true true : Nat) : Int) ≤ 0 := by omega
  have sized : checked (((str.val.length + Key.overhead true true : Nat) : Int) + 4) =
      some (((str.val.length + Key.overhead true true : Nat) : Int) + 4) :=
    checked_of_le (by omega) (by omega)
  have length : ((store32 key.shared.keyid ++
      Key.cipherText evp key.shared.key true true fill str.val).length : Int) =
        ((str.val.length + Key.overhead true true : Nat) : Int) + 4 := by
    rw [List.length_append, Key.cipherText_length]
    simp [store32]
    omega
  simp only [searchBody, Key.encrypt_query evp key.shared.key true true fill none present fits,
    Option.bind_eq_bind, Option.bind_some, if_neg positive, sized,
    Key.encrypt_correct evp key.shared.key true true fill present fits, length]
  rfl

theorem sendSearch_sends (present : str.val ≠ []) (small : (str.val.length + 32 : Int) ≤ intMax)
    {client : Connection} (willing : client.sent.Willing) :
    ∃ next, sendSearch evp key str none fill client = some (some next) ∧
      next.sent.accepted = client.sent.accepted ++ searchRequest evp key str fill ∧
      next.unget = client.unget ∧ next.socket = client.socket := by
  have overhead : Key.overhead true true = 28 := rfl
  have length : ((store32 key.shared.keyid ++
      Key.cipherText evp key.shared.key true true fill str.val).length : Int) ≤ intMax := by
    rw [List.length_append, Key.cipherText_length]
    simp only [store32, List.length_cons, List.length_nil]
    omega
  obtain ⟨next, written, accepted⟩ := message_written (by decide : searchStart.line.length ≤ 100)
    length client willing
  have kept := Http.sendHttp_reads (show Http.sendHttp client _ _ _ _ _ = some (0, next) from written)
  refine ⟨next, ?_, accepted, kept⟩
  have written' : Http.writeRequest client none (some (ascii "PUT")) (some searchUrl) none _ none _ =
      some (0, next) := written
  simp only [sendSearch, searchBody_eq present small, Option.bind_eq_bind, Option.bind_some, written']
  rfl

end

def replyStart : Http.Start := .response 200

theorem replyStart_valid : replyStart.Valid := (by decide : (200 : Int) ≤ intMax)

def searchAnswer (evp : Cipher) (key : Key) (text : Bytes) (fill : Iv) : Bytes :=
  message replyStart (Key.cipherText evp key.shared.key true true fill text)

theorem replyStart_line : replyStart.line.length ≤ 100 := by decide +kernel

section

variable {pki : Pki} {env : Env pki} {server : Server pki} {key remote : Key} {str : CString}
  {ip port : Nat}

theorem searchPage_found (found : findKey server.keys key.shared.keyid = some key)
    (number : key.shared.keyid < 4294967296) (shared : remote.shared = key.shared)
    (present : str.val ≠ []) (small : (str.val.length + 32 : Int) ≤ intMax)
    (fits : (pageText ip port key (env.collect.findPat str.val)).length + 28 ≤ pageSize) (fill : Iv) :
    searchPage env ip port server (store32 remote.shared.keyid ++
      Key.cipherText env.cipher remote.shared.key true true fill str.val) = some (some
        ⟨key, env.collect.findPat str.val, pageText ip port key (env.collect.findPat str.val)⟩) := by
  rw [shared]
  have overhead : Key.overhead true true = 28 := rfl
  have four : (store32 key.shared.keyid).length = 4 := rfl
  have keyid : get32 (store32 key.shared.keyid ++
      Key.cipherText env.cipher key.shared.key true true fill str.val) = key.shared.keyid :=
    get32_store32 number _
  have size : ((store32 key.shared.keyid ++
      Key.cipherText env.cipher key.shared.key true true fill str.val).length : Int) - 4 =
        ((Key.cipherText env.cipher key.shared.key true true fill str.val).length : Int) := by
    rw [List.length_append, four]
    omega
  have decrypted := Key.decrypt_cipherText env.cipher key.shared.key true true fill present
    (by omega : ((str.val.length + Key.overhead true true : Nat) : Int) ≤ intMax)
  have positive : ¬ (str.val.length : Int) ≤ 0 := by
    have length := List.length_pos_of_ne_nil present
    omega
  have room : ¬ pageSize < (pageText ip port key (env.collect.findPat str.val)).length + 28 := by
    omega
  simp only [searchPage, keyid, found, List.drop_left' four, size, decrypted,
    Option.bind_eq_bind, Option.bind_some, if_neg positive, cString_eq str.property, overhead,
    if_neg room]

theorem serveSearch_sends (wide : 4294967296 ≤ env.ulong)
    (found : findKey server.keys key.shared.keyid = some key) (number : key.shared.keyid < 4294967296)
    (shared : remote.shared = key.shared) (present : str.val ≠ [])
    (small : (str.val.length + 33 : Int) ≤ intMax)
    (fits : (pageText ip port key (env.collect.findPat str.val)).length + 28 ≤ pageSize)
    (asking answering : Iv) {conn : Connection} (clean : conn.socket.Clean)
    (willing : conn.sent.Willing)
    (same : conn.remaining = searchRequest env.cipher remote str asking) :
    ∃ next, serveSearch env ip port server answering conn = some (some next) ∧
      next.sent.accepted = conn.sent.accepted ++ searchAnswer env.cipher key
        (pageText ip port key (env.collect.findPat str.val)) answering := by
  have overhead : Key.overhead true true = 28 := rfl
  have length := Key.cipherText_length env.cipher remote.shared.key true true asking str.val
  have length' := Key.cipherText_length env.cipher key.shared.key true true answering
    (pageText ip port key (env.collect.findPat str.val))
  have four : (store32 remote.shared.keyid).length = 4 := rfl
  obtain ⟨middle, read⟩ := message_read wide searchStart_valid
    (by decide : searchStart.line.length ≤ 100) (by simp [store32]) (by
      rw [List.length_append, length, four, overhead]
      omega) clean same
  have kept := Http.readHttp_sent read
  have page := searchPage_found found number shared present (by omega) fits asking
  have some' : pageText ip port key (env.collect.findPat str.val) ≠ [] := by
    have fifteen := pageText_length ip port key (env.collect.findPat str.val)
    exact List.ne_nil_of_length_pos (by omega)
  have encrypted := Key.encrypt_correct env.cipher key.shared.key true true answering some' (by
    rw [pageSize] at fits
    rw [overhead, intMax]
    omega)
  obtain ⟨next, written, accepted⟩ := message_written replyStart_line (by
    rw [length', overhead, intMax]
    rw [pageSize] at fits
    omega) middle (kept ▸ willing)
  have answered : Http.writeResponse middle Http.ok none (some (Key.cipherText env.cipher
      key.shared.key true true answering (pageText ip port key (env.collect.findPat str.val)))) none
      ((Key.cipherText env.cipher key.shared.key true true answering
        (pageText ip port key (env.collect.findPat str.val))).length : Int) = some (0, next) := written
  have whole (size : Nat) : ¬ (size : Int) < 0 := by omega
  refine ⟨next, ?_, by rw [accepted, kept, searchAnswer]⟩
  simp only [serveSearch, read, Option.bind_eq_bind, Option.bind_some, whole, if_false, page,
    encrypted, answered]
  rfl

theorem searchOver_receives {ulong : Nat} (wide : 4294967296 ≤ ulong)
    (shared : remote.shared = key.shared) (present : str.val ≠ [])
    (small : (str.val.length + 32 : Int) ≤ intMax)
    (fits : (pageText ip port key (env.collect.findPat str.val)).length + 28 ≤ pageSize)
    (asking answering : Iv) {client : Connection} (clean : client.socket.Clean)
    (willing : client.sent.Willing)
    (same : client.remaining = searchAnswer env.cipher key
      (pageText ip port key (env.collect.findPat str.val)) answering) (fuel : Nat) :
    searchOver env.cipher ulong remote str none asking client fuel =
      (Records.readAll insertResponse fuel
        (0, pageText ip port key (env.collect.findPat str.val))).map (0, ·) := by
  have overhead : Key.overhead true true = 28 := rfl
  have length := Key.cipherText_length env.cipher key.shared.key true true answering
    (pageText ip port key (env.collect.findPat str.val))
  obtain ⟨next, sent, -, unget, socket⟩ := @sendSearch_sends env.cipher remote str asking present small
    client willing
  have remaining : next.remaining = client.remaining := by
    rw [Connection.remaining, unget, socket]
    rfl
  have some' : Key.cipherText env.cipher key.shared.key true true answering
      (pageText ip port key (env.collect.findPat str.val)) ≠ [] :=
    List.ne_nil_of_length_pos (by omega)
  obtain ⟨last, read⟩ := message_read wide replyStart_valid replyStart_line some' (by
    rw [length, overhead, intMax]
    rw [pageSize] at fits
    omega) (show next.socket.Clean from socket ▸ clean) (remaining.trans same)
  have printed : printPage env.cipher env.collect ip port key str.val answering =
      .ok (Key.cipherText env.cipher key.shared.key true true answering
        (pageText ip port key (env.collect.findPat str.val))) := printPage_ok.2 ⟨fits, rfl⟩
  rw [← search_page printed fuel]
  simp only [searchOver, sent, Option.bind_eq_bind, Option.bind_some, read]
  rw [searchReply, search, shared]

end

theorem search_matches {pki : Pki} {env : Env pki} {server : Server pki} {key remote : Key}
    {str : CString} {ip port ulong : Nat} (wide : 4294967296 ≤ env.ulong)
    (wide' : 4294967296 ≤ ulong) (found : findKey server.keys key.shared.keyid = some key)
    (number : key.shared.keyid < 4294967296) (shared : remote.shared = key.shared)
    (present : str.val ≠ []) (small : (str.val.length + 33 : Int) ≤ intMax)
    (fits : (pageText ip port key (env.collect.findPat str.val)).length + 28 ≤ pageSize)
    (asking answering : Iv) :
    ∃ request answer : Bytes, ∀ client conn : Connection, client.socket.Clean →
      client.sent.Willing → conn.socket.Clean → conn.sent.Willing →
        (∃ next, sendSearch env.cipher remote str none asking client = some (some next) ∧
          next.sent.accepted = client.sent.accepted ++ request) ∧
        (conn.remaining = request → 11 ≤ conn.arrivals.available →
          ∃ ready next, chooseHandler conn = some (some .search, ready) ∧
            serveSearch env ip port server answering ready = some (some next) ∧
            next.sent.accepted = conn.sent.accepted ++ answer) ∧
        (client.remaining = answer →
          ((∃ fuel, searchOver env.cipher ulong remote str none asking client fuel =
              some (0, listed ip port key (env.collect.findPat str.val))) ↔
            ∀ entry ∈ env.collect.findPat str.val, 60 ∉ entry.getName.val)) := by
  refine ⟨searchRequest env.cipher remote str asking, searchAnswer env.cipher key
    (pageText ip port key (env.collect.findPat str.val)) answering, ?_⟩
  intro client conn clean willing clean' willing'
  refine ⟨?_, ?_, ?_⟩
  next =>
    obtain ⟨next, sent, accepted, -⟩ := @sendSearch_sends env.cipher remote str asking present
      (by omega) client willing
    exact ⟨next, sent, accepted⟩
  next =>
    intro same method
    have line : searchRequest env.cipher remote str asking = ascii "PUT /search" ++
        (searchRequest env.cipher remote str asking).drop 11 := rfl
    obtain ⟨ready, chosen, kept, ready', sent⟩ := chooseHandler_front clean' (same.trans line)
      (by decide) (by decide) method handlerOf_search
    obtain ⟨next, served, written⟩ := serveSearch_sends wide found number shared present small fits
      asking answering ready' (sent ▸ willing') (kept.trans same)
    exact ⟨ready, next, chosen, served, by rw [written, sent]⟩
  next =>
    intro same
    simp only [searchOver_receives wide' shared present (by omega) fits asking answering clean willing
      same, Option.map_eq_some_iff, Prod.mk.injEq, true_and, exists_eq_right]
    exact readAll_page ip port key (env.collect.findPat str.val)

def star : CString := ⟨[42], by decide⟩

theorem search_matches_star : ∃ request answer : Bytes, ∀ client conn : Connection,
    client.socket.Clean → client.sent.Willing → conn.socket.Clean → conn.sent.Willing →
      (∃ next, sendSearch duoEnv.cipher (flaggedKey 0) star none (Block.zero _) client =
          some (some next) ∧ next.sent.accepted = client.sent.accepted ++ request) ∧
      (conn.remaining = request → 11 ≤ conn.arrivals.available →
        ∃ ready next, chooseHandler conn = some (some .search, ready) ∧
          serveSearch (noteEnv oneFile) 1 80 { keys := [flaggedKey 0] } (Block.zero _) ready =
            some (some next) ∧ next.sent.accepted = conn.sent.accepted ++ answer) ∧
      (client.remaining = answer →
        ((∃ fuel, searchOver duoEnv.cipher 4294967296 (flaggedKey 0) star none (Block.zero _) client
            fuel = some (0, listed 1 80 (flaggedKey 0) (oneFile.findPat [42]))) ↔
          ∀ entry ∈ oneFile.findPat [42], 60 ∉ entry.getName.val)) :=
  @search_matches _ (noteEnv oneFile) { keys := [flaggedKey 0] } (flaggedKey 0) (flaggedKey 0) star
    1 80 4294967296 (Nat.le_refl _) (Nat.le_refl _) rfl (by decide) rfl (by decide) (by decide)
    (show (pageText 1 80 (flaggedKey 0) (oneFile.findPat [42])).length + 28 ≤ pageSize by
      decide +kernel)
    (Block.zero _) (Block.zero _)

end Sfs
