import Ptptl.Trut.Handshake

set_option autoImplicit false

/-! # The authentication of honest peers -/

namespace Trut

open Ptp Ptp.Http Ptp.Store

/-! # Headers that arrive -/

/-- What a connection delivers, in whatever pieces. -/
structure Receives (conn : Connection) (text : Bytes) : Prop where
  same : conn.remaining = text
  clean : conn.socket.Clean

def IsHeader (text : Bytes) : Prop :=
  ∃ lines, PlainLines lines ∧ lines ≠ [] ∧ text = linesText lines ++ crlf

theorem Receives.header {text after : Bytes} {conn : Connection}
    (receives : Receives conn (text ++ after)) (header : IsHeader text)
    (short : text.length < headerSize) (ulong : Nat) :
    ∃ hdr next, readHttpHdr ulong conn true headerSize = some (some hdr, next) ∧
      hdr.text = text ∧ Receives next after := by
  obtain ⟨lines, plain, some', rfl⟩ := header
  obtain ⟨next, found, rest, clean⟩ :=
    readHttpHdr_given ulong plain some' short conn after receives.same receives.clean
  exact ⟨_, next, found, rfl, rest, clean⟩

theorem Receives.whole {text : Bytes} {conn : Connection} (receives : Receives conn text)
    (header : IsHeader text) (short : text.length < headerSize) (ulong : Nat) :
    ∃ hdr next, readHttpHdr ulong conn true headerSize = some (some hdr, next) ∧
      hdr.text = text ∧ Receives next [] := by
  rw [← List.append_nil text] at receives
  exact receives.header header short ulong

theorem Receives.putBack {conn : Connection} {text : Bytes} (receives : Receives conn text)
    (data : Bytes) : Receives (conn.putBack data) (data ++ text) where
  same := by
    rw [← receives.same, Connection.remaining, Connection.remaining, ← List.append_assoc]
    rfl
  clean := receives.clean

section

variable {group : CString} (nameable : Nameable group) (ref : Nat)
  (key : Block publicKeySize) (chal : Block Authenticator.challengeSize) (resp : Digest)

theorem keepAlive_plain : Plain keepAlive ∧ keepAlive ≠ [] := by decide

include nameable in
theorem identityRequest_header : IsHeader (identityRequest (getsRequest group ref) key) := by
  refine ⟨[getsLine group ref, keepAlive, field identity key.val], ?_, by simp, ?_⟩
  · simp only [PlainLines, List.forall_mem_cons]
    exact ⟨getsLine_plain nameable ref, keepAlive_plain, field_plain (by decide) key (by decide),
      by simp⟩
  · rw [identityRequest, getsRequest_lines, appendAuthValue_lines]
    rfl

include nameable in
theorem responseRequest_header :
    IsHeader (responseRequest (getsRequest group ref) chal resp) := by
  refine ⟨[getsLine group ref, keepAlive, field challenge chal.val, field response resp.val], ?_,
    by simp, ?_⟩
  · simp only [PlainLines, List.forall_mem_cons]
    exact ⟨getsLine_plain nameable ref, keepAlive_plain, field_plain (by decide) chal (by decide),
      field_plain (by decide) resp (by decide), by simp⟩
  · rw [responseRequest, getsRequest_lines, appendAuthValue_lines, appendAuthValue_lines]
    rfl

theorem responseRequest_line (group : CString) (ref : Nat)
    (chal : Block Authenticator.challengeSize) (resp : Digest) :
    getsLine group ref ++ crlf <+: responseRequest (getsRequest group ref) chal resp := by
  rw [responseRequest, appendAuthValue, appendAuthValue, getsRequest]
  simp only [List.append_assoc]
  exact (List.prefix_append_right_inj _).2 (List.prefix_append _ _)

theorem challengeReply_header : IsHeader (challengeReply key chal) := by
  refine ⟨[ascii "HTTP/1.1 401 Unauthorized", keepAlive, field identity key.val,
    field challenge chal.val], ?_, by simp, ?_⟩
  · simp only [PlainLines, List.forall_mem_cons]
    exact ⟨by decide, keepAlive_plain, field_plain (by decide) key (by decide),
      field_plain (by decide) chal (by decide), by simp⟩
  · rw [challengeReply, unauthorizedText_lines, appendAuthValue_lines, appendAuthValue_lines]
    rfl

theorem field_short (name : Bytes) {size : Nat} (value : Block size) (positive : 0 < size) :
    (field name value.val).length ≤ name.length + 2 * size + 4 := by
  have short := valueText_short (block_present value positive)
  have separator : (ascii ": ").length = 2 := rfl
  rw [value.property] at short
  rw [field, List.length_append, List.length_append, separator]
  omega

theorem challengeReply_short : (challengeReply key chal).length < headerSize := by
  have first := field_short identity key (by decide)
  have second := field_short challenge chal (by decide)
  have text : unauthorizedText.length = 51 := rfl
  have names : identity.length = 8 ∧ challenge.length = 9 ∧ crlf.length = 2 := by decide
  have sizes : publicKeySize = 128 ∧ Authenticator.challengeSize = 128 ∧ headerSize = 1024 := by
    decide
  simp only [challengeReply, appendAuthValue, List.length_append, text, names.2.2]
  omega

/-! # The header of a file -/

theorem okHeader_response :
    okHeader Identity.ciphertextSize (appendAuthValue [] response resp.val) =
      appendAuthValue (linesText [ascii "HTTP 200", ascii "Content-type:application/binary",
        ascii "Content-length:128"]) response resp.val ++ crlf := by
  have clean : (0 : Byte) ∉ appendAuthValue [] response resp.val := by
    intro zero
    rw [appendAuthValue, List.nil_append] at zero
    rcases List.mem_append.1 zero with inside | ending
    · exact ((field_plain (by decide) resp (by decide)).1 0 inside).1 rfl
    · exact absurd ending (by decide)
  rw [okHeader_lines clean, appendAuthValue, appendAuthValue, List.nil_append]

theorem okHeader_header :
    IsHeader (okHeader Identity.ciphertextSize (appendAuthValue [] response resp.val)) := by
  refine ⟨[ascii "HTTP 200", ascii "Content-type:application/binary", ascii "Content-length:128",
    field response resp.val], ?_, by simp, ?_⟩
  · simp only [PlainLines, List.forall_mem_cons]
    exact ⟨by decide, by decide, by decide, field_plain (by decide) resp (by decide), by simp⟩
  · rw [okHeader_response, appendAuthValue_lines]
    rfl

theorem okHeader_short :
    (okHeader Identity.ciphertextSize (appendAuthValue [] response resp.val)).length <
      headerSize := by
  have value := field_short response resp (by decide)
  have text : (linesText [ascii "HTTP 200", ascii "Content-type:application/binary",
    ascii "Content-length:128"]).length = 63 := rfl
  have sizes : response.length = 8 ∧ crlf.length = 2 ∧ digestSize = 20 ∧ headerSize = 1024 := by
    decide
  rw [okHeader_response, appendAuthValue]
  simp only [List.length_append, text, sizes.2.1]
  omega

theorem okHeader_value :
    getAuthValue (okHeader Identity.ciphertextSize (appendAuthValue [] response resp.val)) response
      digestSize = some (some resp) := by
  rw [okHeader_response]
  exact getAuthValue_found (by decide) resp (by decide) (clear_ok (by decide)) crlf

theorem notFoundHeader_header : IsHeader notFoundHeader := by
  refine ⟨_, ?_, by decide, notFoundHeader_lines⟩
  simp only [PlainLines, List.forall_mem_cons]
  exact ⟨by decide, by decide, by simp⟩

end

theorem sendEntry_header {Id : Type} (disk : Disk) (rsp : Bytes) (entry : Collection.Entry)
    (key : Option SessionKey) (id : Id) :
    (sendEntry disk rsp entry key (some id)) ≠ .notFound ∧
      (sendEntry disk rsp entry key (some id)).header = okHeader Identity.ciphertextSize rsp := by
  simp only [sendEntry, contentLength]
  split
  next path size content =>
    cases disk.atData path with
    | none => exact ⟨by simp, rfl⟩
    | some source =>
      cases key with
      | none => exact ⟨by simp, rfl⟩
      | some key => exact ⟨by simp, rfl⟩
  next => exact ⟨by simp, rfl⟩

theorem putThread_header {Id : Type} {getName : Id → Option CString} {disk : Disk} {ulong : Nat}
    {trut : Trut} {hdr rsp : Bytes} {id : Id} {reply : Reply Id}
    (replied : putThread getName disk ulong trut hdr rsp (some id) = some reply) :
    reply = .notFound ∨
      (reply ≠ .notFound ∧ reply.header = okHeader Identity.ciphertextSize rsp) := by
  unfold putThread at replied
  split at replied
  next => cases replied
  next => exact .inl (Option.some.inj replied).symm
  next =>
    split at replied
    next => exact .inl (Option.some.inj replied).symm
    next entry found =>
      rw [← Option.some.inj replied]
      exact .inr (sendEntry_header disk rsp entry none id)
  next =>
    split at replied
    next => exact .inl (Option.some.inj replied).symm
    next =>
      split at replied
      next => exact .inl (Option.some.inj replied).symm
      next key keyed =>
        split at replied
        next => cases replied
        next entry found =>
          rw [← Option.some.inj replied]
          split
          next =>
            split
            next => exact .inl rfl
            next => exact .inr (sendEntry_header disk rsp entry none id)
          next => exact .inr (sendEntry_header disk rsp entry (some key) id)

/-! # The steps of two parties -/

section

variable {pki : Pki}

/-- A party knows the certificate of another, which has the private key. -/
structure Holds (crypto : Crypto pki) (party other : Party pki) : Prop where
  keyed : ∀ ident ∈ idents party.store, (crypto.names.getKey ident.cert).isSome
  held : ∃ ident ∈ idents party.store, ident.cert = other.own.cert
  answers : ∃ publicKey privateKey, pki.publicKey other.own.cert = some publicKey ∧
    other.own.key = some privateKey ∧ Decrypts crypto.privateDecrypt publicKey privateKey

/-- A challenge of a party with a key pair, and what is kept of it. -/
structure Challenged (crypto : Crypto pki) (other : Party pki) (now : Nat)
    (nonce : Block Identity.plaintextSize) (auth : Authenticator (Certified pki))
    (chal : Block Authenticator.challengeSize) : Prop where
  awaits : ∃ entry rid, auth.Awaits entry ∧ entry.resp = crypto.sha1 nonce.val ∧
    entry.expire = (now + challengeTime) % crypto.ulong ∧ entry.context = some rid ∧
    pki.publicKey rid.cert = pki.publicKey other.own.cert
  answer : ∀ moment, (other.auth crypto moment).respond chal = crypto.sha1 nonce.val

variable {crypto : Crypto pki} {party other : Party pki}

theorem Holds.getKey (holds : Holds crypto party other) :
    ∃ key, crypto.names.getKey other.own.cert = some key := by
  obtain ⟨ident, member, same⟩ := holds.held
  rw [← same]
  exact Option.isSome_iff_exists.1 (holds.keyed ident member)

theorem Holds.find (holds : Holds crypto party other)
    (injective : Function.Injective crypto.names.modulus) {key : Block publicKeySize}
    (has : crypto.names.getKey other.own.cert = some key) (moment : Moment) :
    ∃ rid, (party.auth crypto moment).find key = some rid ∧
      pki.publicKey rid.cert = pki.publicKey other.own.cert := by
  obtain ⟨ident, member, same⟩ := holds.held
  obtain ⟨pointer, rid, found, matched⟩ : ∃ pointer rid,
      findFrom crypto.names none false (some key) 0 party.store = some (some (pointer, rid)) ∧
        crypto.names.getKey rid.cert = some key :=
    findFrom_modulus holds.keyed ⟨ident, member, same ▸ has⟩
  refine ⟨rid, ?_, ?_⟩
  · simp [Party.auth, findIdent, found]
  · exact Option.map_injective injective (matched.trans has.symm)

theorem Holds.challenge (holds : Holds crypto party other) {rid : Certified pki}
    (same : pki.publicKey rid.cert = pki.publicKey other.own.cert) (moment : Moment)
    (auth : Authenticator (Certified pki)) (nonce : Block Identity.plaintextSize) :
    ∃ next chal, (party.auth crypto moment).challenge auth rid nonce = (next, chal) ∧
      Challenged crypto other moment.now nonce next chal := by
  obtain ⟨publicKey, privateKey, public', held, decrypts⟩ := holds.answers
  have sealed : rid.identity.cert.bind pki.publicKey = some publicKey := same.trans public'
  obtain ⟨cipher, encrypted, -⟩ := decrypts.encrypt sealed nonce
  have sized : (rid.identity.encrypt nonce.val).1 = Authenticator.challengeSize := by
    rw [encrypted]
    rfl
  refine ⟨_, _, rfl, ?_, ?_⟩
  · rw [Authenticator.challenge_pending crypto.ulong auth sized]
    refine ⟨_, rid, List.find?_cons_of_pos ?_, rfl, rfl, rfl, same⟩
    simp
  · intro moment'
    exact decrypts.respond sealed rfl held crypto.sha1 nonce moment.challenge moment'.response

theorem Challenged.verify {now : Nat} {nonce : Block Identity.plaintextSize}
    {start auth : Authenticator (Certified pki)} {chal : Block Authenticator.challengeSize}
    (challenged : Challenged crypto other now nonce start chal)
    (undisturbed : Authenticator.Undisturbed pki crypto.sha1 crypto.ulong (crypto.sha1 nonce.val)
      ((now + challengeTime) % crypto.ulong) start auth)
    {moment : Moment} (alive : moment.now < (now + challengeTime) % crypto.ulong) :
    ∃ next rid, (party.auth crypto moment).verify auth (crypto.sha1 nonce.val) =
        (next, some rid) ∧ pki.publicKey rid.cert = pki.publicKey other.own.cert := by
  obtain ⟨entry, rid, awaits, resp, expire, context, same⟩ := challenged.awaits
  rw [← resp, ← expire] at undisturbed
  rw [← expire] at alive
  have found := (undisturbed.awaits awaits).verify alive
  refine ⟨(auth.verify (some entry.resp) moment.now).2, rid, ?_, same⟩
  simp only [Party.auth, ← resp, found, Option.bind_some, context]

structure Honest (crypto : Crypto pki) (client server : Party pki) : Prop where
  -- all keys have the exponent of `Identity`
  injective : Function.Injective crypto.names.modulus
  knowsClient : Holds crypto server client
  knowsServer : Holds crypto client server

/-- The two requests for a file stay below the size of their buffer. -/
structure Fits (crypto : Crypto pki) (client : Party pki) (group : CString) (ref : Nat) : Prop where
  first : ∀ key, crypto.names.getKey client.own.cert = some key →
    (identityRequest (getsRequest group ref) key).length < headerSize
  second : ∀ chal resp, (responseRequest (getsRequest group ref) chal resp).length < headerSize

variable {client server : Party pki} {group : CString} {ref : Nat}

theorem isSecure_getsRequest (group : CString) (ref : Nat) :
    isSecure (getsRequest group ref) = true := by
  rw [getsRequest, List.append_assoc, List.append_assoc]
  exact getsLine_secure group ref _

theorem Honest.firstRequest (honest : Honest crypto client server)
    (fits : Fits crypto client group ref) :
    ∃ key, crypto.names.getKey client.own.cert = some key ∧
      client.firstRequest crypto (getsRequest group ref) =
        some (identityRequest (getsRequest group ref) key) := by
  obtain ⟨key, has⟩ := honest.knowsClient.getKey
  refine ⟨key, has, ?_⟩
  simp [Party.firstRequest, has, isSecure_getsRequest, fitting, fits.first key has]

theorem Honest.challenges (honest : Honest crypto client server) (nameable : Nameable group)
    (fits : Fits crypto client group ref) {key : Block publicKeySize}
    (has : crypto.names.getKey client.own.cert = some key) (moment : Moment)
    (nonce : Block Identity.plaintextSize) (auth : Authenticator (Certified pki))
    {conn : Connection} (receives : Receives conn (identityRequest (getsRequest group ref) key)) :
    ∃ put own chal, server.putAuth crypto moment nonce auth conn = some put ∧ put.status = -1 ∧
      crypto.names.getKey server.own.cert = some own ∧ put.sent = challengeReply own chal ∧
      Challenged crypto client moment.now nonce put.auth chal := by
  obtain ⟨hdr, next, read, text, -⟩ := receives.whole
    (identityRequest_header nameable ref key) (fits.first key has) crypto.ulong
  obtain ⟨rid, found, same⟩ := honest.knowsClient.find honest.injective has moment
  obtain ⟨state, chal, challenges, challenged⟩ :=
    honest.knowsClient.challenge same moment auth nonce
  obtain ⟨own, key'⟩ := honest.knowsServer.getKey
  refine ⟨{ status := -1, auth := state, conn := next, sent := challengeReply own chal }, own, chal,
    ?_, rfl, key', rfl, challenged⟩
  simp [Party.putAuth, read, text, putValues_identity nameable, Trut.putAuth, found, challenges, key',
    fitting, challengeReply_short]

theorem Honest.responds (honest : Honest crypto client server)
    (fits : Fits crypto client group ref) {own : Block publicKeySize}
    (has : crypto.names.getKey server.own.cert = some own)
    (chal : Block Authenticator.challengeSize) (moment : Moment)
    (nonce : Block Identity.plaintextSize) (auth : Authenticator (Certified pki))
    {conn : Connection} (receives : Receives conn (challengeReply own chal)) :
    ∃ next chal', client.getAuth crypto moment nonce auth (getsRequest group ref) conn =
        some (.waits (responseRequest (getsRequest group ref) chal'
          ((client.auth crypto moment).respond chal)) next) ∧
      Challenged crypto server moment.now nonce next chal' := by
  obtain ⟨hdr, rest, read, text, -⟩ := receives.whole (challengeReply_header own chal)
    (challengeReply_short own chal) crypto.ulong
  obtain ⟨rid, found, same⟩ := honest.knowsServer.find honest.injective has moment
  obtain ⟨next, chal', challenges, challenged⟩ := honest.knowsServer.challenge same moment auth nonce
  refine ⟨next, chal', ?_, challenged⟩
  simp [Party.getAuth, read, text, isSecure_getsRequest, getValues_challenge, Trut.getAuth, found,
    challenges, fitting, fits.second]

theorem Challenged.accepts {now : Nat} {nonce : Block Identity.plaintextSize}
    {start auth : Authenticator (Certified pki)} {chal : Block Authenticator.challengeSize}
    (challenged : Challenged crypto client now nonce start chal)
    (undisturbed : Authenticator.Undisturbed pki crypto.sha1 crypto.ulong (crypto.sha1 nonce.val)
      ((now + challengeTime) % crypto.ulong) start auth)
    (nameable : Nameable group) (fits : Fits crypto client group ref)
    (chal' : Block Authenticator.challengeSize) {moment : Moment}
    (alive : moment.now < (now + challengeTime) % crypto.ulong)
    (unused : Block Identity.plaintextSize) {conn : Connection}
    (receives : Receives conn
      (responseRequest (getsRequest group ref) chal' (crypto.sha1 nonce.val))) :
    ∃ put rid, server.putAuth crypto moment unused auth conn = some put ∧ put.status = 0 ∧
      put.id = some rid ∧ pki.publicKey rid.cert = pki.publicKey client.own.cert ∧
      put.rsp = appendAuthValue [] response ((server.auth crypto moment).respond chal').val ∧
      Receives put.conn
        (responseRequest (getsRequest group ref) chal' (crypto.sha1 nonce.val)) := by
  obtain ⟨hdr, rest, read, text, remains⟩ := receives.whole
    (responseRequest_header nameable ref chal' _) (fits.second chal' _) crypto.ulong
  obtain ⟨next, rid, verifies, same⟩ :=
    @Challenged.verify _ _ server _ _ _ _ _ _ challenged undisturbed moment alive
  have back := remains.putBack hdr.text
  rw [text, List.append_nil] at back
  refine ⟨{ status := 0, auth := next, conn := rest.putBack hdr.text, id := some rid,
            rsp := appendAuthValue [] response ((server.auth crypto moment).respond chal').val },
    rid, ?_, rfl, rfl, same, rfl, text ▸ back⟩
  simp [Party.putAuth, read, text, putValues_response nameable, Trut.putAuth, verifies]

theorem Challenged.finishes {now : Nat} {nonce : Block Identity.plaintextSize}
    {start auth : Authenticator (Certified pki)} {chal : Block Authenticator.challengeSize}
    (challenged : Challenged crypto server now nonce start chal)
    (undisturbed : Authenticator.Undisturbed pki crypto.sha1 crypto.ulong (crypto.sha1 nonce.val)
      ((now + challengeTime) % crypto.ulong) start auth)
    {moment : Moment} (alive : moment.now < (now + challengeTime) % crypto.ulong)
    {conn : Connection} (after : Bytes) (receives : Receives conn
      (okHeader Identity.ciphertextSize (appendAuthValue [] response (crypto.sha1 nonce.val).val) ++
        after)) :
    ∃ auth' conn', client.getAuthEnd crypto moment auth conn = some (0, auth', conn') := by
  obtain ⟨hdr, rest, read, text, -⟩ := receives.header (okHeader_header _) (okHeader_short _)
    crypto.ulong
  obtain ⟨next, rid, verifies, -⟩ :=
    @Challenged.verify _ _ client _ _ _ _ _ _ challenged undisturbed moment alive
  refine ⟨next, rest.putBack hdr.text, ?_⟩
  simp [Party.getAuthEnd, read, text, okHeader_value, Trut.getAuthEnd, verifies]

theorem getAuthEnd_notFound (crypto : Crypto pki) (client : Party pki) (moment : Moment)
    (auth : Authenticator (Certified pki)) {conn : Connection} {after : Bytes}
    (receives : Receives conn (notFoundHeader ++ after)) :
    ∃ auth' conn', client.getAuthEnd crypto moment auth conn = some (-1, auth', conn') := by
  obtain ⟨hdr, rest, read, text, -⟩ := receives.header notFoundHeader_header (by decide) crypto.ulong
  have absent := getAuthValue_absent (by decide) (clear_notFound (by decide : response ∈ fieldNames))
    digestSize
  refine ⟨auth, rest, ?_⟩
  simp [Party.getAuthEnd, read, text, absent, Trut.getAuthEnd]

/-- However the bytes arrive, the authentication completes, unless `PutThread` has no file. -/
theorem auth_completes (honest : Honest crypto client server) (nameable : Nameable group)
    (fits : Fits crypto client group ref) (serverFirst clientFirst serverLast clientLast : Moment)
    -- before the challenges expire
    (serverAlive : serverLast.now < (serverFirst.now + challengeTime) % crypto.ulong)
    (clientAlive : clientLast.now < (clientFirst.now + challengeTime) % crypto.ulong)
    (nonce nonce' unused : Block Identity.plaintextSize)
    (serverAuth clientAuth : Authenticator (Certified pki)) :
    ∃ first, client.firstRequest crypto (getsRequest group ref) = some first ∧
      ∀ conn, Receives conn first →
    -- the first connection
    ∃ put, server.putAuth crypto serverFirst nonce serverAuth conn = some put ∧
      put.status = -1 ∧ ∀ conn, Receives conn put.sent →
    ∃ second auth, client.getAuth crypto clientFirst nonce' clientAuth (getsRequest group ref)
        conn = some (.waits second auth) ∧
      -- the second connection, while others authenticate
      ∀ serverAuth', Authenticator.Undisturbed pki crypto.sha1 crypto.ulong (crypto.sha1 nonce.val)
          ((serverFirst.now + challengeTime) % crypto.ulong) put.auth serverAuth' →
      ∀ conn, Receives conn second →
    ∃ put' rid, server.putAuth crypto serverLast unused serverAuth' conn = some put' ∧
      put'.status = 0 ∧ put'.id = some rid ∧
      pki.publicKey rid.cert = pki.publicKey client.own.cert ∧
      -- `PutThread` reads the client's request
      (∃ hdr next, readHttpHdr crypto.ulong put'.conn true headerSize = some (some hdr, next) ∧
        hdr.text = second ∧ getsLine group ref ++ crlf <+: hdr.text) ∧
      ∀ getName disk trut reply,
        putThread getName disk crypto.ulong trut second put'.rsp put'.id = some reply →
      ∀ clientAuth', Authenticator.Undisturbed pki crypto.sha1 crypto.ulong
          (crypto.sha1 nonce'.val) ((clientFirst.now + challengeTime) % crypto.ulong) auth
          clientAuth' →
      ∀ conn body, Receives conn (reply.header ++ body) →
    ∃ status auth' conn',
      client.getAuthEnd crypto clientLast clientAuth' conn = some (status, auth', conn') ∧
        (reply ≠ .notFound → status = 0) ∧ (reply = .notFound → status = -1) := by
  obtain ⟨key, has, requests⟩ := honest.firstRequest fits
  refine ⟨_, requests, fun conn receives => ?_⟩
  obtain ⟨put, own, chal, puts, refused, has', sent, challenged⟩ :=
    honest.challenges nameable fits has serverFirst nonce serverAuth receives
  refine ⟨put, puts, refused, fun conn receives => ?_⟩
  rw [sent] at receives
  obtain ⟨auth, chal', waits, challenged'⟩ :=
    honest.responds fits has' chal clientFirst nonce' clientAuth receives
  rw [challenged.answer clientFirst] at waits
  refine ⟨_, auth, waits, fun serverAuth' undisturbed conn receives => ?_⟩
  obtain ⟨put', rid, puts', accepted, identified, same, responded, back⟩ :=
    @Challenged.accepts _ _ _ server _ _ _ _ _ _ _ challenged undisturbed nameable fits chal' _
      serverAlive unused _ receives
  refine ⟨put', rid, puts', accepted, identified, same, ?_, ?_⟩
  · obtain ⟨hdr, next, read, text, -⟩ := back.whole (responseRequest_header nameable ref chal' _)
      (fits.second chal' _) crypto.ulong
    exact ⟨hdr, next, read, text, text ▸ responseRequest_line group ref chal' _⟩
  · intro getName disk trut reply replied clientAuth' undisturbed' conn body receives
    rw [identified] at replied
    rcases putThread_header replied with absent | ⟨present, header⟩
    · rw [absent] at receives
      obtain ⟨auth', conn', ended⟩ := getAuthEnd_notFound crypto client clientLast clientAuth' receives
      exact ⟨-1, auth', conn', ended, fun present => absurd absent present, fun _ => rfl⟩
    · rw [header, responded, challenged'.answer serverLast] at receives
      obtain ⟨auth', conn', ended⟩ := @Challenged.finishes _ _ client _ _ _ _ _ _ challenged'
        undisturbed' _ clientAlive _ body receives
      exact ⟨0, auth', conn', ended, fun _ => rfl, fun absent => absurd absent present⟩

end

/-! # Two parties -/

def bitPki : Pki where
  Cert := Bool
  PublicKey := Bool
  PrivateKey := Bool
  publicKey := some
  notAfter _ := 0
  verify _ _ := true
  publicEncrypt key plain := some (plain ++ List.replicate 11 key.toNat.toUInt8)

def bitCrypto : Crypto bitPki where
  names :=
    { name := fun _ => none
      issuerName := fun _ => none
      modulus := fun key => ⟨List.replicate publicKeySize key.toNat.toUInt8, List.length_replicate⟩ }
  sha1 := Block.ofBytes digestSize
  privateDecrypt key cipher :=
    if cipher.drop Identity.plaintextSize = List.replicate 11 key.toNat.toUInt8 then
      some (cipher.take Identity.plaintextSize)
    else none
  ulong := 4294967296

def bitEntry (cert : Bool) (key : Option Bool) : Entry bitPki where
  payload := .identity ⟨cert, key⟩ false
  friendly := none
  id := none

def bitParty (own : Bool) : Party bitPki where
  store := [bitEntry own (some own), bitEntry (!own) none]
  own := ⟨own, some own⟩
  found := rfl

theorem bitParty_holds (own : Bool) : Holds bitCrypto (bitParty own) (bitParty !own) where
  keyed := fun _ _ => rfl
  held := ⟨⟨(!own : Bool), none⟩, List.mem_cons_of_mem _ List.mem_cons_self, rfl⟩
  answers := by
    refine ⟨!own, !own, rfl, rfl, fun plain => ?_⟩
    refine ⟨⟨plain.val ++ List.replicate 11 (!own).toNat.toUInt8, ?_⟩, rfl, ?_⟩
    · rw [List.length_append, plain.property]
      rfl
    · simp [bitCrypto, List.drop_left' plain.property, List.take_left' plain.property]

theorem bitParties_honest : Honest bitCrypto (bitParty true) (bitParty false) where
  injective := by
    have apart : ∀ first second : Bool, first.toNat.toUInt8 = second.toNat.toUInt8 →
        first = second := by decide
    intro first second same
    have heads := congrArg List.head? (congrArg Subtype.val same)
    exact apart first second (Option.some.inj heads)
  knowsClient := bitParty_holds false
  knowsServer := bitParty_holds true

set_option maxRecDepth 4000 in
theorem friends_nameable : Nameable friends where
  plain := by decide
  clear := by
    intro name member inside
    have long := inside.length_le
    rw [List.length_append] at long
    have longer : ∀ name ∈ fieldNames, friends.val.length < name.length + 1 := by decide
    exact absurd long (Nat.not_le.2 (longer name member))

theorem friends_fits (client : Party bitPki) : Fits bitCrypto client friends 0 := by
  have text : (getsRequest friends 0).length = 57 := by
    simp [getsRequest, getsLine, hexText, friends, keepAlive, crlf, ascii]
  have names : identity.length = 8 ∧ challenge.length = 9 ∧ response.length = 8 ∧
      crlf.length = 2 := by decide
  have sizes : publicKeySize = 128 ∧ Authenticator.challengeSize = 128 ∧ digestSize = 20 ∧
      headerSize = 1024 := by decide
  constructor
  · intro key _
    have value := field_short identity key (by decide)
    simp only [identityRequest, appendAuthValue, List.length_append, text, names.2.2.2]
    omega
  · intro chal resp
    have first := field_short challenge chal (by decide)
    have second := field_short response resp (by decide)
    simp only [responseRequest, appendAuthValue, List.length_append, text, names.2.2.2]
    omega

def momentAt (now : Nat) : Moment := ⟨now, Block.zero _, Block.zero _⟩

def delivering (text : Bytes) : Connection where
  unget := []
  socket := text.map fun byte => .data byte []
  sent := { accepted := [], plan := [] }

theorem delivering_receives (text : Bytes) : Receives (delivering text) text := by
  have pieces : Chunked.Source.contents (text.map fun byte => .data byte []) = text ∧
      Chunked.Source.Clean (text.map fun byte => .data byte []) := by
    induction text with
    | nil => exact ⟨rfl, rfl⟩
    | cons head tail ih => exact ⟨congrArg (head :: ·) ih.1, ih.2⟩
  exact ⟨pieces.1, pieces.2⟩

theorem parseRequest_friends {hdr : Bytes} (starts : getsLine friends 0 ++ crlf <+: hdr) :
    parseRequest 4294967296 hdr = some (.gets (ascii "friends") 0) := by
  obtain ⟨rest, rfl⟩ := starts
  have number : hexText 0 = ascii "0000" := by simp [hexText, ascii]
  rw [getsLine, number]
  rfl

/-- The parties authenticate one second after the other, with an answer of `PutThread`. -/
def Authenticates (trut : Trut) (result : Int) : Prop :=
  ∃ first put second auth put' rid reply auth' conn',
    (bitParty true).firstRequest bitCrypto (getsRequest friends 0) = some first ∧
    (bitParty false).putAuth bitCrypto (momentAt 0) (Block.zero _) {} (delivering first) =
      some put ∧ put.status = -1 ∧
    (bitParty true).getAuth bitCrypto (momentAt 1) (Block.zero _) {} (getsRequest friends 0)
      (delivering put.sent) = some (.waits second auth) ∧
    (bitParty false).putAuth bitCrypto (momentAt 2) (Block.zero _) put.auth (delivering second) =
      some put' ∧ put'.status = 0 ∧ put'.id = some rid ∧ rid.cert = true ∧
    putThread (fun _ => none) noDisk 4294967296 trut second put'.rsp put'.id = some reply ∧
    (bitParty true).getAuthEnd bitCrypto (momentAt 3) auth (delivering reply.header) =
      some (result, auth', conn')

theorem auth_completes_joined : Authenticates joined 0 := by
  obtain ⟨first, requests, rest⟩ := auth_completes bitParties_honest friends_nameable
    (friends_fits (bitParty true)) (momentAt 0) (momentAt 1) (momentAt 2) (momentAt 3) (by decide)
    (by decide) (Block.zero _) (Block.zero _) (Block.zero _) {} {}
  obtain ⟨put, puts, refused, rest⟩ := rest _ (delivering_receives first)
  obtain ⟨second, auth, waits, rest⟩ := rest _ (delivering_receives put.sent)
  obtain ⟨put', rid, puts', accepted, identified, same, ⟨hdr, next, -, text, starts⟩, rest⟩ :=
    rest put.auth .refl _ (delivering_receives second)
  rw [text] at starts
  obtain ⟨header, entry, body, replied⟩ : ∃ header entry body, putThread (fun _ => none) noDisk
      4294967296 joined second put'.rsp put'.id = some (.ok header entry body) := by
    rw [putThread, parseRequest_friends starts, identified]
    exact ⟨_, _, _, rfl⟩
  have arrives := delivering_receives header
  rw [← List.append_nil header] at arrives
  obtain ⟨status, auth', conn', ended, completes, -⟩ :=
    rest _ _ _ _ replied auth .refl _ [] arrives
  rw [List.append_nil, completes (by simp)] at ended
  exact ⟨first, put, second, auth, put', rid, _, auth', conn', requests, puts, refused, waits,
    puts', accepted, identified, Option.some.inj same, replied, ended⟩

/-- `PutThread` answers without a response where the server has not joined the group. -/
theorem auth_unknown_group : Honest bitCrypto (bitParty true) (bitParty false) ∧
    Nameable friends ∧ Fits bitCrypto (bitParty true) friends 0 ∧ Authenticates {} (-1) := by
  refine ⟨bitParties_honest, friends_nameable, friends_fits _, ?_⟩
  obtain ⟨key, has, requests⟩ := bitParties_honest.firstRequest (friends_fits (bitParty true))
  obtain ⟨put, own, chal, puts, refused, has', sent, challenged⟩ :=
    bitParties_honest.challenges friends_nameable (friends_fits _) has (momentAt 0) (Block.zero _) {}
      (delivering_receives _)
  obtain ⟨auth, chal', waits, -⟩ := bitParties_honest.responds (friends_fits _) has' chal
    (momentAt 1) (Block.zero _) {} (delivering_receives _)
  rw [challenged.answer (momentAt 1), ← sent] at waits
  obtain ⟨put', rid, puts', accepted, identified, same, -⟩ :=
    @Challenged.accepts _ _ _ (bitParty false) _ _ _ _ _ _ _ challenged .refl friends_nameable
      (friends_fits _) chal' (momentAt 2) (by decide) (Block.zero _) _ (delivering_receives _)
  have replied : putThread (fun _ => none) noDisk 4294967296 {}
      (responseRequest (getsRequest friends 0) chal'
        (bitCrypto.sha1 (Block.zero Identity.plaintextSize).val)) put'.rsp put'.id =
      some .notFound := by
    rw [putThread, parseRequest_friends (responseRequest_line friends 0 chal' _)]
    rfl
  have arrives := delivering_receives notFoundHeader
  rw [← List.append_nil notFoundHeader] at arrives
  obtain ⟨auth', conn', ended⟩ :=
    getAuthEnd_notFound bitCrypto (bitParty true) (momentAt 3) auth arrives
  rw [List.append_nil] at ended
  exact ⟨_, put, _, auth, put', rid, .notFound, auth', conn', requests, puts, refused, waits,
    puts', accepted, identified, Option.some.inj same, replied, ended⟩

end Trut
