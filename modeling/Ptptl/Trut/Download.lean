import Ptptl.Trut.Fetch

set_option autoImplicit false

/-! # A download, from the request to the file -/

namespace Trut

open Ptp Ptp.Http Ptp.Collection CInt Chunked

/-! ## A file that is not of a group -/

/-- A file that is found under a number, with what is on the disk when it is sent; sent under a key
it has 28 bytes more. -/
structure Offered (disk : Disk) (trut : Trut) (ref : Nat) (entry : Entry) (source : Source Byte) :
    Prop where
  found : trut.collect.find ref = some entry
  file : ∃ path size, entry.content = .file path size ∧ disk.atData path = some source
  clean : source.Clean
  present : source.contents ≠ []
  fits : ((source.contents.length + 28 : Nat) : Int) ≤ intMax

section

variable {pki : Pki} {crypto : Crypto pki} {client server : Party pki} {evp : Cipher} {disk : Disk}
  {sealed : Certified pki → Bytes → Block Identity.ciphertextSize} {trut : Trut} {ref : Nat}
  {entry : Entry} {source : Source Byte} {name : Bytes}

theorem Offered.serves (offered : Offered disk trut ref entry source) (number : ref < crypto.ulong)
    (plain : Plain name) (short : (getRequest ref name ++ crlf).length < headerSize)
    (moment : Moment) (nonce : Block Identity.plaintextSize) (iv : Iv)
    (auth : Authenticator (Certified pki)) {conn : Connection}
    (receives : Receives conn (getRequest ref name ++ crlf)) (willing : conn.sent.Willing) :
    ∃ next, server.serve crypto evp disk sealed trut moment nonce iv auth conn = some (auth, next) ∧
      next.sent.accepted = conn.sent.accepted ++
        (okHeader (wrap entry.getSize) [] ++ source.contents) := by
  obtain ⟨path, size, content, opened⟩ := offered.file
  have fits := offered.fits
  have header := getRequest_header plain ref
  have whole := receives
  rw [← List.append_nil (getRequest ref name ++ crlf)] at whole
  obtain ⟨middle, read, whole, kept⟩ := whole.read header short crypto.ulong
  have back := whole.putBack (getRequest ref name ++ crlf)
  rw [List.append_nil] at back
  have unsecured : putValues (getRequest ref name ++ crlf) = some {} := by
    have insecure : isSecure (getRequest ref name ++ crlf) = false := by
      simp only [isSecure, getRequest, getLine, List.append_assoc]
      rfl
    simp [putValues, insecure]
  have puts : server.putAuth crypto moment nonce auth conn = some
      { status := 0, auth := auth, conn := middle.putBack (getRequest ref name ++ crlf) } := by
    simp only [Party.putAuth, read, Option.bind_eq_bind, Option.bind_some, unsecured]
    rfl
  have replies : putThread (fun id : Certified pki => crypto.names.name id.cert) disk crypto.ulong
      trut (getRequest ref name ++ crlf) [] none =
        some (.ok (okHeader (wrap entry.getSize) []) entry (.plain source.contents)) := by
    simp only [putThread, parseRequest_getRequest number, offered.found, sendEntry, contentLength,
      content, opened]
  have writes : Reply.written evp disk sealed iv (.ok (okHeader (wrap entry.getSize) []) entry
      (.plain source.contents)) = some source.contents := by
    have sent := @bodyBytes_plain (Certified pki) evp disk entry sealed path size content source opened
      offered.clean none ((contentLength disk entry none (none : Option (Certified pki))).getD 0) iv
      source.contents
    exact sent.2 ⟨rfl, by omega⟩
  exact serve_accepted puts rfl rfl back header short replies writes willing

end

theorem getFile_receives {evp : Cipher} {key : Option SessionKey} {ulong size : Nat}
    {previous : Option Bytes} {opened : Option (List Chunked.Response)} {asked again resp body : Bytes}
    {conn : Connection} (wide : 4294967296 ≤ ulong) (header : IsHeader (okHeader size resp))
    (short : (okHeader size resp).length < headerSize) (positive : 0 < size)
    (small : (size : Int) ≤ intMax) (receives : Receives conn (okHeader size resp ++ body)) :
    ∃ next, getFile evp key ulong previous opened asked again conn =
      receiveFile evp key previous opened asked again next ∧ Receives next body := by
  obtain ⟨next, read, rest, -⟩ := receives.read header short ulong
  refine ⟨next, ?_, rest⟩
  have announced := okHeader_contentSize wide small resp
  have accepted := okHeader_status wide size resp
  have good : ¬ (ok ≠ ok ∨ (size : Int) ≤ 0) := by omega
  simp only [getFile, read, Option.bind_eq_bind, Option.bind_some, announced, accepted, good, if_false]

def shelf : CString := ⟨ascii "/a", by decide⟩

def sharing : Trut :=
  (({ collect := ({} : Collection).add 4294967296 { content := .file shelf 1 } } : Trut).joinGroup
    friends none).joinCreate 4294967296 0 (Block.zero _)

def fourSeconds : Chances bitPki where
  first := momentAt 1
  last := momentAt 3
  nonce := Block.zero _
  others := fun auth => auth

section

variable {pki : Pki} {crypto : Crypto pki} {client server : Party pki} {evp : Cipher} {disk : Disk}
  {sealed : Certified pki → Bytes → Block Identity.ciphertextSize} {trut : Trut} {group : CString}
  {ref : Nat} {entry : Entry} {source : Source Byte} {key : SessionKey}

theorem Offered.replies {Id : Type} {getName : Id → Option CString}
    {sealed : Id → Bytes → Block Identity.ciphertextSize}
    (offered : Offered disk trut ref entry source) {mine : Group}
    (joined : trut.findGroup group.val = some mine) (keyed : mine.key = some key) {ulong : Nat}
    (number : ref < ulong) (single : slash ∉ group.val) {hdr : Bytes}
    (starts : getsLine group ref ++ crlf <+: hdr) (resp : Bytes) (id : Id) (iv : Iv) : ∃ reply,
      putThread getName disk ulong trut hdr resp (some id) = some reply ∧
        reply.header = okHeader Identity.ciphertextSize resp ∧
        reply.written evp disk sealed iv =
          some (Key.cipherText evp key true true iv source.contents) := by
  obtain ⟨path, size, content, opened⟩ := offered.file
  refine ⟨.ok (okHeader Identity.ciphertextSize resp) entry (.encrypted key source.contents), ?_, rfl,
    ?_⟩
  · rw [putThread, parseRequest_getsLine number single starts]
    simp only [joined, keyed, offered.found, isKey_file content, sendEntry, contentLength, content,
      opened]
    rfl
  · have sent := @bodyBytes_stream Id evp disk entry key sealed path size content source opened
      offered.clean none ((contentLength disk entry (some key) (none : Option Id)).getD 0) iv
      (Key.cipherText evp key true true iv source.contents)
    exact sent.2 ⟨rfl, offered.fits⟩

theorem Challenged.keeps {now : Nat} {nonce : Block Identity.plaintextSize}
    {start auth : Authenticator (Certified pki)} {chal : Block Authenticator.challengeSize}
    (challenged : Challenged crypto server now nonce start chal)
    (undisturbed : Authenticator.Undisturbed pki crypto.sha1 crypto.ulong (crypto.sha1 nonce.val)
      ((now + challengeTime) % crypto.ulong) start auth)
    {moment : Moment} (alive : moment.now < (now + challengeTime) % crypto.ulong)
    {conn : Connection} {after : Bytes} (receives : Receives conn
      (okHeader Identity.ciphertextSize (appendAuthValue [] response (crypto.sha1 nonce.val).val) ++
        after)) :
    ∃ auth' conn', client.getAuthEnd crypto moment auth conn = some (0, auth', conn') ∧
      Receives conn' (okHeader Identity.ciphertextSize
        (appendAuthValue [] response (crypto.sha1 nonce.val).val) ++ after) := by
  obtain ⟨middle, read, rest, -⟩ := receives.read (okHeader_header _) (okHeader_short _) crypto.ulong
  obtain ⟨next, rid, verifies, -⟩ :=
    @Challenged.verify _ _ client _ _ _ _ _ _ challenged undisturbed moment alive
  refine ⟨next, middle.putBack _, ?_, rest.putBack _⟩
  simp [Party.getAuthEnd, read, okHeader_value, Trut.getAuthEnd, verifies]

theorem Honest.fetches (honest : Honest crypto client server) (fits : Fits crypto client group ref)
    (wide : 4294967296 ≤ crypto.ulong) (chances : Chances pki)
    (others : ∀ auth, Authenticator.Undisturbed pki crypto.sha1 crypto.ulong
      (crypto.sha1 chances.nonce.val) ((chances.first.now + challengeTime) % crypto.ulong) auth
      (chances.others auth))
    (clientAlive : chances.last.now < (chances.first.now + challengeTime) % crypto.ulong)
    {own own' : Block publicKeySize} (has : crypto.names.getKey client.own.cert = some own)
    (has' : crypto.names.getKey server.own.cert = some own')
    (chal : Block Authenticator.challengeSize) (clientAuth : Authenticator (Certified pki))
    (previous : Option Bytes) {conn₁ : Connection}
    (receives₁ : Receives conn₁ (challengeReply own' chal))
    (willing₁ : conn₁.sent.Willing) : ∃ next chal',
      Challenged crypto server chances.first.now chances.nonce next chal' ∧
      ∀ {data : Bytes} {iv : Iv} {conn₂ : Connection}, data ≠ [] →
        ((data.length + 28 : Nat) : Int) ≤ intMax → conn₂.sent.Willing →
        Receives conn₂ (okHeader Identity.ciphertextSize (appendAuthValue [] response
          (crypto.sha1 chances.nonce.val).val) ++ Key.cipherText evp key true true iv data) →
        client.get crypto evp chances clientAuth (getsRequest group ref) (some key) previous (some [])
            conn₁ conn₂ = some ⟨.done, data.length, some data,
          conn₁.sent.accepted ++ identityRequest (getsRequest group ref) own,
          conn₂.sent.accepted ++ responseRequest (getsRequest group ref) chal'
            ((client.auth crypto chances.first).respond chal)⟩ := by
  obtain ⟨_, _, written₁, receives₁', -, asked⟩ :=
    @Receives.writeAll _ (identityRequest (getsRequest group ref) own) _ receives₁ willing₁
  obtain ⟨auth, chal', waits, challenged⟩ :=
    honest.responds fits has' chal chances.first chances.nonce clientAuth receives₁'
  refine ⟨auth, chal', challenged, fun {data iv conn₂} present small willing₂ receives₂ => ?_⟩
  obtain ⟨_, _, written₂, receives₂', -, again⟩ := @Receives.writeAll _ (responseRequest
    (getsRequest group ref) chal' ((client.auth crypto chances.first).respond chal)) _ receives₂
    willing₂
  obtain ⟨auth', last, verifies, arrives⟩ := @Challenged.keeps _ _ client server _ _ _ _ _ challenged
    (others auth) _ clientAlive _ _ receives₂'
  obtain ⟨ends, gets, rest⟩ := @getFile_receives evp (some key) crypto.ulong Identity.ciphertextSize
    previous (some []) (conn₁.sent.accepted ++ identityRequest (getsRequest group ref) own)
    (conn₂.sent.accepted ++ responseRequest (getsRequest group ref) chal'
      ((client.auth crypto chances.first).respond chal)) _ _ _ wide (okHeader_header _)
    (okHeader_short _) (by decide) (by decide) arrives
  have short := fits.first own has
  have held : fitting (getsRequest group ref) = some (getsRequest group ref) := by
    rw [identityRequest, appendAuthValue, List.append_assoc, List.append_assoc,
      List.length_append] at short
    exact if_pos (by omega)
  have requests : client.firstRequest crypto (getsRequest group ref) =
      some (identityRequest (getsRequest group ref) own) := by
    simp [Party.firstRequest, has, isSecure_getsRequest, fitting, short]
  simp only [Party.get, held, requests, Option.bind_eq_bind, Option.bind_some, written₁, waits, asked,
    written₂, again, verifies, ne_eq, not_true, if_false, gets]
  exact receiveFile_secure rest present small

end

section

variable {pki : Pki} {crypto : Crypto pki} {client : Party pki} {evp : Cipher} {key : SessionKey}
  {ulong : Nat} {previous : Option Bytes} {opened : Option (List Chunked.Response)}
  {asked second rqst : Bytes} {conn again : Connection} {fetched : Fetched}

theorem readHttpHdr_events {hdr : Header} {next : Connection}
    (read : readHttpHdr ulong conn true headerSize = some (some hdr, next)) :
    ∃ raw, conn.events = raw.map some ++ next.events ∧ hdr.text = cString raw := by
  have allowed : ¬ ((headerSize : Int) < -1 ∨ True ∧ (headerSize : Int) < 0) := by decide
  have sized : (if (0 : Int) ≤ headerSize then (headerSize : Int) else 512) = headerSize := rfl
  simp only [readHttpHdr, allowed, if_false, sized, Bool.not_true, Bool.false_eq_true,
    Int.toNat_natCast] at read
  obtain ⟨⟨buffer, last⟩, looped, read⟩ := Option.bind_eq_some_iff.1 read
  cases buffer with
  | none => cases read
  | some raw =>
    cases raw with
    | nil => cases read
    | cons first others =>
      obtain ⟨same, rfl⟩ := Prod.mk.inj (Option.some.inj read)
      obtain rfl := Option.some.inj same
      have found := readHdrLoop_found headerSize [] conn (by rw [Http.Sized, if_pos (by decide)]) rfl
        (by decide) (.inl rfl) (List.cons_ne_nil first others) looped
      exact ⟨_, found.whole, rfl⟩

theorem getFile_authentic (fits : (conn.events.length : Int) ≤ intMax)
    (ran : getFile evp (some key) ulong previous opened asked second conn = some fetched) :
    fetched.status = .error ∨ fetched.size = 0 ∨ ∃ hdr next fill data,
      readHttpHdr ulong conn true headerSize = some (some hdr, next) ∧ hdr.status = ok ∧
      next.events = (Key.cipherText evp key true true fill data).map some ∧ data ≠ [] ∧
      fetched.size = data.length ∧ fetched.file = some data := by
  obtain ⟨⟨hdr, next⟩, read, ran⟩ := Option.bind_eq_some_iff.1 ran
  cases hdr with
  | none =>
    obtain rfl := Option.some.inj ran
    exact .inl rfl
  | some hdr =>
    obtain ⟨raw, split, -⟩ := readHttpHdr_events read
    dsimp only at ran
    split at ran
    next =>
      obtain rfl := Option.some.inj ran
      exact .inl rfl
    next accepted =>
      cases opened with
      | none =>
        obtain rfl := Option.some.inj ran
        exact .inl rfl
      | some plan =>
        obtain ⟨final, run, rfl⟩ := Option.map_eq_some_iff.1 ran
        have within : (next.arrivals.contents.length : Int) ≤ intMax := by
          have most := Key.contents_le_events next.arrivals
          have length := congrArg List.length split
          rw [List.length_append, Connection.events, Connection.events] at length
          rw [Connection.events] at fits
          omega
        unfold Fetched.ofStream
        split
        next => exact .inl rfl
        next valid =>
          by_cases zero : final.result = 0
          next => exact .inr (.inl zero)
          next =>
            obtain ⟨fill, data, present, arrived, completed⟩ :=
              Key.decryptStream_authentic (by decide) within run (by omega)
            have stored : final.written = data := by
              simp [Key.StreamResult.written, completed.accepted]
            refine .inr (.inr ⟨hdr, next, fill, data, read, ?_, ?_, present, completed.result,
              by rw [stored]⟩)
            · by_contra other
              exact accepted (.inl other)
            · rw [Connection.events, completed.clean.events, arrived]

theorem fitting_some {hdr held : Bytes} (fits : fitting hdr = some held) : hdr = held := by
  unfold fitting at fits
  split at fits
  · exact Option.some.inj fits
  · cases fits

theorem writeAll_events {data : Bytes} {size written : Int} {next : Connection}
    (wrote : conn.writeAll data size = some (written, next)) : next.events = conn.events := by
  obtain ⟨unget, socket⟩ := Connection.writeAll_reads wrote
  rw [Connection.events, Connection.events, Connection.arrivals, Connection.arrivals, unget, socket]

theorem getAuth_fails (secure : isSecure rqst = true) {moment : Moment}
    {nonce : Block Identity.plaintextSize} {auth auth' : Authenticator (Certified pki)}
    {status : Int} {last : Connection}
    (gets : client.getAuth crypto moment nonce auth rqst conn = some (.result status auth' last)) :
    status = -1 := by
  obtain ⟨⟨hdr, next⟩, -, gets⟩ := Option.bind_eq_some_iff.1 gets
  cases hdr with
  | none => exact (Got.result.inj (Option.some.inj gets)).1.symm
  | some hdr =>
    simp only [secure, Bool.not_true, Bool.false_eq_true, if_false] at gets
    obtain ⟨values, -, gets⟩ := Option.bind_eq_some_iff.1 gets
    split at gets
    next => exact (Got.result.inj (Option.some.inj gets)).1.symm
    next =>
      obtain ⟨request, -, gets⟩ := Option.bind_eq_some_iff.1 gets
      cases Option.some.inj gets

theorem getAuthEnd_accepts {moment : Moment} {auth auth' : Authenticator (Certified pki)}
    {last : Connection}
    (verifies : client.getAuthEnd crypto moment auth again = some (0, auth', last)) :
    ∃ hdr next rresp, readHttpHdr crypto.ulong again true headerSize = some (some hdr, next) ∧
      getAuthValue hdr.text response digestSize = some (some rresp) ∧
      ((client.auth crypto moment).verify auth rresp).2.isSome ∧ last = next.putBack hdr.text := by
  obtain ⟨⟨hdr, next⟩, read, verifies⟩ := Option.bind_eq_some_iff.1 verifies
  cases hdr with
  | none =>
    have failed : (-1 : Int) = 0 := congrArg Prod.fst (Option.some.inj verifies)
    exact absurd failed (by decide)
  | some hdr =>
    obtain ⟨rresp, found, verifies⟩ := Option.bind_eq_some_iff.1 verifies
    cases rresp with
    | none =>
      have failed : (-1 : Int) = 0 := congrArg Prod.fst (Option.some.inj verifies)
      exact absurd failed (by decide)
    | some rresp =>
      cases verified : (client.auth crypto moment).verify auth rresp with
      | mk state rid =>
        simp only [Trut.getAuthEnd, verified] at verifies
        cases rid with
        | none =>
          have failed : (-1 : Int) = 0 := congrArg Prod.fst (Option.some.inj verifies)
          exact absurd failed (by decide)
        | some rid =>
          have same : next.putBack hdr.text = last :=
            congrArg (fun result => result.2.2) (Option.some.inj verifies)
          exact ⟨hdr, next, rresp, read, found, by rw [verified]; rfl, same.symm⟩

/-- Whoever answers, what `Get` takes for a file of a group was sent by who answered its challenge, and
it is what everything behind the header encrypts under the key of the group. `GetAuth` and `GetFile`
read the header one after the other. -/
theorem get_group_authentic (secure : isSecure rqst = true) {chances : Chances pki}
    {auth : Authenticator (Certified pki)} (fits : (again.events.length : Int) ≤ intMax)
    (ran : client.get crypto evp chances auth rqst (some key) previous opened conn again =
      some fetched) :
    fetched.status = .error ∨ fetched.size = 0 ∨
      ∃ conn' request auth' again' hdr next rresp hdr' last fill data,
        conn'.events = conn.events ∧
        client.getAuth crypto chances.first chances.nonce auth rqst conn' =
          some (.waits request auth') ∧
        again'.events = again.events ∧
        readHttpHdr crypto.ulong again' true headerSize = some (some hdr, next) ∧
        getAuthValue hdr.text response digestSize = some (some rresp) ∧
        ((client.auth crypto chances.last).verify (chances.others auth') rresp).2.isSome ∧
        readHttpHdr crypto.ulong (next.putBack hdr.text) true headerSize =
          some (some hdr', last) ∧
        hdr'.status = ok ∧
        last.events = (Key.cipherText evp key true true fill data).map some ∧ data ≠ [] ∧
        fetched.size = data.length ∧ fetched.file = some data := by
  obtain ⟨_, held, ran⟩ := Option.bind_eq_some_iff.1 ran
  obtain rfl := fitting_some held
  obtain ⟨first, -, ran⟩ := Option.bind_eq_some_iff.1 ran
  obtain ⟨⟨_, conn'⟩, written, ran⟩ := Option.bind_eq_some_iff.1 ran
  obtain ⟨got, gets, ran⟩ := Option.bind_eq_some_iff.1 ran
  cases got with
  | result status auth' last =>
    obtain rfl := getAuth_fails secure gets
    obtain rfl := Option.some.inj ran
    exact .inl rfl
  | waits request auth' =>
    obtain ⟨⟨_, again'⟩, written', ran⟩ := Option.bind_eq_some_iff.1 ran
    obtain ⟨⟨status, auth'', last⟩, verifies, ran⟩ := Option.bind_eq_some_iff.1 ran
    dsimp only at ran
    split at ran
    next =>
      obtain rfl := Option.some.inj ran
      exact .inl rfl
    next accepted =>
      obtain rfl := not_not.1 accepted
      obtain ⟨hdr, next, rresp, read, carried, verified, rfl⟩ := getAuthEnd_accepts verifies
      have within : ((next.putBack hdr.text).events.length : Int) ≤ intMax := by
        obtain ⟨raw, split, text⟩ := readHttpHdr_events read
        have shorter := cString_length_le raw
        rw [writeAll_events written'] at split
        rw [split, List.length_append, List.length_map] at fits
        rw [Connection.putBack_events, text, List.length_append, List.length_map]
        omega
      refine (getFile_authentic within ran).imp_right (.imp_right ?_)
      rintro ⟨hdr', last, fill, data, read', accepted', body, present, size, file⟩
      exact ⟨conn', request, auth', again', hdr, next, rresp, hdr', last, fill, data,
        writeAll_events written, gets, writeAll_events written', read, carried, verified, read',
        accepted', body, present, size, file⟩

end

theorem get_group_authentic_byte : ∃ conn again fetched,
    (bitParty true).get bitCrypto Key.zeroCipher fourSeconds {} (getsRequest friends 0)
        (some (Block.zero _)) none (some []) conn again = some fetched ∧
      (fetched.status = .error ∨ fetched.size = 0 ∨
        ∃ conn' request auth' again' hdr next rresp hdr' last fill data,
          conn'.events = conn.events ∧
          (bitParty true).getAuth bitCrypto fourSeconds.first fourSeconds.nonce {}
              (getsRequest friends 0) conn' = some (.waits request auth') ∧
          again'.events = again.events ∧
          readHttpHdr bitCrypto.ulong again' true headerSize = some (some hdr, next) ∧
          getAuthValue hdr.text response digestSize = some (some rresp) ∧
          (((bitParty true).auth bitCrypto fourSeconds.last).verify (fourSeconds.others auth')
            rresp).2.isSome ∧
          readHttpHdr bitCrypto.ulong (next.putBack hdr.text) true headerSize =
            some (some hdr', last) ∧
          hdr'.status = ok ∧
          last.events =
            (Key.cipherText Key.zeroCipher (Block.zero _) true true fill data).map some ∧
          data ≠ [] ∧ fetched.size = data.length ∧ fetched.file = some data) ∧
      fetched.status = .done ∧ fetched.file = some [7] := by
  obtain ⟨own, has⟩ := bitParties_honest.knowsClient.getKey
  obtain ⟨own', has'⟩ := bitParties_honest.knowsServer.getKey
  obtain ⟨auth, chal', -, fetches⟩ := @Honest.fetches bitPki bitCrypto (bitParty true) (bitParty false)
    Key.zeroCipher friends 0 (Block.zero _) bitParties_honest (friends_fits _) (Nat.le_refl _)
    fourSeconds (fun _ => .refl) (by decide) _ _ has has' (Block.zero _) {} none _ (delivering_receives _)
    Key.taking_willing
  have ran := @fetches [7] (Block.zero _) _ (by decide) (by decide) Key.taking_willing
    (delivering_receives _)
  refine ⟨_, _, _, ran, get_group_authentic (isSecure_getsRequest friends 0) ?_ ran, rfl, rfl⟩
  have arrives := delivering_receives (okHeader Identity.ciphertextSize (appendAuthValue [] response
    (bitCrypto.sha1 fourSeconds.nonce.val).val) ++
      Key.cipherText Key.zeroCipher (Block.zero _) true true (Block.zero _) [7])
  have header := okHeader_short (bitCrypto.sha1 fourSeconds.nonce.val)
  have limit : headerSize = 1024 := rfl
  have overhead : Key.overhead true true = 28 := rfl
  rw [Connection.events_clean arrives.clean, arrives.same, List.length_map, List.length_append,
    Key.cipherText_length, overhead, intMax, List.length_singleton]
  omega

end Trut
