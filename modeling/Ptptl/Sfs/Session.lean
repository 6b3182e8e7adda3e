import Ptptl.Ptp.Exchange
import Ptptl.Sfs.Agreement
import Ptptl.Sfs.Wire

set_option autoImplicit false

/-! # A session key, over the connections of both ends -/

namespace Sfs

open Ptp Ptp.Store CInt Chunked

variable {pki : Pki} {env : Env pki}

section

variable (host : Host env) (ulong : Nat) (keys : List Key) (ip port : Nat)
  (proxy : Option (Nat × Nat)) (flags : Byte)

end

def bare (certified : Certified pki) : Certified pki := ⟨certified.cert, none⟩

def Paired (lib : Library env) (certified : Certified pki) : Prop :=
  ∃ publicKey privateKey, pki.publicKey certified.cert = some publicKey ∧
    certified.key = some privateKey ∧ Decrypts lib.privateDecrypt publicKey privateKey

/-- Envelopes from one party to another, with flags or a shared block, are opened. -/
def Delivers (lib : Library env) (sender receiver : Certified pki) : Prop :=
  ∀ data coins, data ≠ [] → data.length ≤ sharedSize → ∃ envelope, envelope ≠ [] ∧
    (envelope.length : Int) + 149 ≤ intMax ∧
    lib.exportEnvelope data (bare receiver) sender coins = some envelope ∧
      env.importEnvelope envelope receiver (bare sender) = some data

def Coded (host : Host env) (certified : Certified pki) : Prop :=
  host.file (host.bytes (exportCert env certified)) = exportCert env certified ∧
    host.bytes (exportCert env certified) ≠ [] ∧
    ((host.bytes (exportCert env certified)).length : Int) + 129 ≤ intMax

/-- A server and a client with this store, and what they rely on. -/
structure Partners (host : Host env) (store : List (Store.Entry pki)) (client own : Certified pki) :
    Prop where
  lawful : env.pkcs12.Lawful
  holder : ownIdent store = some client
  server : localId env = some own
  coded : Coded host client ∧ Coded host own
  paired : Paired host.lib client ∧ Paired host.lib own
  delivers : Delivers host.lib client own ∧ Delivers host.lib own client

theorem importData_exportCert (lawful : env.pkcs12.Lawful) (certified : Certified pki) :
    importData env.pointerSize (exportCert env certified) none none =
      some (.identity (bare certified), []) := by
  have read := importFile_exportFile lawful
    [⟨.identity certified false, none, none⟩] none none
  rw [if_pos (by simp)] at read
  simp only [importData, exportCert, read, Option.bind_eq_bind, Option.bind_some]
  rfl

theorem Shared.bytes_length (shared : Shared) : shared.bytes.length = sharedSize := by
  simp only [Shared.bytes, store32, sharedSize, List.length_append, List.length_cons,
    List.length_nil, shared.key.property]

/-! ## Challenges and responses -/

def Pends (env : Env pki) (auth : Authenticator (Certified pki))
    (nonce : Block Identity.plaintextSize) (now : Nat) (remote : Certified pki) : Prop :=
  ∃ entry, auth.Awaits entry ∧ entry.resp = env.sha1 nonce.val ∧
    entry.expire = (now + 60) % env.ulong ∧ entry.context = some remote

section

variable {lib : Library env} {certified : Certified pki} {nonce : Block Identity.plaintextSize}
  {auth : Authenticator (Certified pki)} {now : Nat}

theorem Paired.pends (paired : Paired lib certified) (auth : Authenticator (Certified pki))
    (nonce : Block Identity.plaintextSize) (now : Nat) :
    Pends env (auth.challenge env.sha1 env.ulong (some (toIdentity (bare certified))) 60
      (some (bare certified)) true nonce now).2 nonce now (bare certified) := by
  obtain ⟨publicKey, privateKey, public', -, decrypts⟩ := paired
  have sealed : (toIdentity (bare certified)).cert.bind pki.publicKey = some publicKey := public'
  obtain ⟨cipher, encrypted, -⟩ := decrypts.encrypt sealed nonce
  have sized : ((toIdentity (bare certified)).encrypt nonce.val).1 = Authenticator.challengeSize := by
    rw [encrypted]
    rfl
  rw [Authenticator.challenge_pending env.ulong auth sized]
  refine ⟨_, List.find?_cons_of_pos ?_, rfl, rfl, rfl⟩
  simp

theorem Paired.respond (paired : Paired lib certified) (nonce : Block Identity.plaintextSize)
    (junk : Block Authenticator.challengeSize) (junk' : Digest) :
    Authenticator.responseData env.sha1 lib.privateDecrypt (some (toIdentity certified))
      (Authenticator.challengeData (toIdentity (bare certified)) nonce junk) junk' =
        env.sha1 nonce.val := by
  obtain ⟨publicKey, privateKey, public', held, decrypts⟩ := paired
  have sealed : (toIdentity (bare certified)).cert.bind pki.publicKey = some publicKey := public'
  exact decrypts.respond sealed rfl held env.sha1 nonce junk junk'

theorem Pends.undisturbed {start : Authenticator (Certified pki)} {remote : Certified pki}
    (pends : Pends env start nonce now remote)
    (undisturbed : Authenticator.Undisturbed pki env.sha1 env.ulong (env.sha1 nonce.val)
      ((now + 60) % env.ulong) start auth) : Pends env auth nonce now remote := by
  obtain ⟨entry, awaits, resp, expire, context⟩ := pends
  rw [← resp, ← expire] at undisturbed
  exact ⟨entry, undisturbed.awaits awaits, resp, expire, context⟩

theorem Pends.verify {remote : Certified pki} (pends : Pends env auth nonce now remote)
    {later : Nat} (alive : later < (now + 60) % env.ulong) :
    (auth.verify (some (env.sha1 nonce.val)) later).1.bind Pending.context = some remote := by
  obtain ⟨entry, awaits, resp, expire, context⟩ := pends
  rw [← expire] at alive
  rw [← resp, awaits.verify alive]
  exact context

end

/-! ## The turns of the server -/

section

variable {host : Host env} {store : List (Store.Entry pki)} {client own : Certified pki}

theorem rollFlag_cleared (flags : Byte) :
    (flags ||| rollFlag) &&& ~~~rollFlag = flags &&& ~~~rollFlag := by
  have bits : ∀ bits : BitVec 8, (bits ||| 1#8) &&& ~~~1#8 = bits &&& ~~~1#8 := by decide +kernel
  exact UInt8.toBitVec_inj.1 (bits flags.toBitVec)

/-- A shared block that `Net::Set32` keeps. -/
def Key.Four (key : Key) : Prop := key.shared.keyid < 4294967296 ∧ key.shared.shadow < 4294967296

def Server.Fours (server : Server pki) : Prop := ∀ key ∈ server.keys, key.port = 0 → key.Four

theorem createKey_made {server : Server pki} {remote : Certified pki} {id : Block publicKeySize}
    (modulus : getKey env remote = some id) (turn : Turn env) (flags : Byte) (fours : server.Fours) :
    ∃ key next, createKey env server remote turn flags = some (key, next) ∧ key ∈ next.keys ∧
      key.id = id ∧ key.ip = turn.ip ∧ key.port = 0 ∧ key.flags = flags &&& ~~~rollFlag ∧
      key.Four := by
  have rolled (key : Key) : (key.roll server.keyid turn).Four :=
    ⟨Nat.mod_lt _ (by decide), Nat.mod_lt _ (by decide)⟩
  simp only [createKey, modulus, Option.bind_eq_bind, Option.bind_some]
  cases found : server.keys.find? (isPeer id turn.ip 0) with
  | none =>
    have rolls : (flags ||| rollFlag) &&& rollFlag ≠ 0 := by
      rw [or_rollFlag]
      decide
    simp only [Option.isNone_none, if_true, if_pos rolls, Option.getD_none]
    exact ⟨_, _, rfl, List.mem_cons_self, rfl, rfl, rfl, rollFlag_cleared flags,
      rolled { id := id, ip := turn.ip }⟩
  | some old =>
    have four := fours old (List.mem_of_find?_eq_some found)
    obtain ⟨ip, port, same⟩ := isPeer_iff.1 (List.find?_some found)
    simp only [Option.isNone_some, Bool.false_eq_true, if_false, Option.getD_some]
    refine ⟨_, _, rfl, ?_, ?_, ?_, ?_, rfl, ?_⟩
    · obtain ⟨front, back, -, updated⟩ := updateFirst_split found _
      rw [updated]
      simp
    · split <;> exact same
    · split <;> exact ip
    · split <;> exact port
    · split
      · exact rolled old
      · exact four port

theorem Server.Fours.createKey {server next : Server pki} (fours : server.Fours)
    {remote : Certified pki} {turn : Turn env} {flags : Byte} {key : Key}
    (created : createKey env server remote turn flags = some (key, next)) : next.Fours := by
  obtain ⟨modulus, -, keys⟩ := createKey_spec created
  obtain ⟨made, after, same, -, -, -, -, -, four⟩ := createKey_made modulus turn flags fours
  obtain ⟨rfl, rfl⟩ := Prod.mk.inj (Option.some.inj (same.symm.trans created))
  intro other member port
  rcases keys other member with rfl | old
  · exact four
  · exact fours other old port

theorem Server.Fours.step {server next : Server pki} (fours : server.Fours) {turn : Turn env}
    {events : List (Event pki)} (stepped : step env server turn = some (next, events)) :
    next.Fours := by
  rcases step_keys stepped with ⟨keys, -, -⟩ | ⟨before, remote, flags, key, keys, -, created, -⟩
  · rw [Fours, keys]
    exact fours
  · refine Server.Fours.createKey ?_ created
    rw [Fours, keys]
    exact fours

/-- What `HandleResp` reads of a response, a challenge and an envelope. -/
structure Parts (data : Bytes) (resp : Digest) (chal : Block Authenticator.challengeSize)
    (envelope : Bytes) : Prop where
  long : ¬ data.length ≤ responseSize + Authenticator.challengeSize
  resp : Block.ofBytes digestSize data = resp
  chal : Block.ofBytes Authenticator.challengeSize (data.drop responseSize) = chal
  envelope : data.drop (responseSize + Authenticator.challengeSize) = envelope

theorem Parts.of_append (resp : Digest) (chal : Block Authenticator.challengeSize)
    {envelope : Bytes} (present : envelope ≠ []) :
    Parts (resp.val ++ chal.val ++ envelope) resp chal envelope where
  long := by
    have some' := List.length_pos_of_ne_nil present
    rw [List.length_append, List.length_append, resp.property, chal.property, responseSize]
    omega
  resp := by rw [List.append_assoc, Block.ofBytes_append]
  chal := by
    rw [List.append_assoc, List.drop_left' (show resp.val.length = responseSize from resp.property),
      Block.ofBytes_append]
  envelope := by
    have size : (resp.val ++ chal.val).length = responseSize + Authenticator.challengeSize := by
      rw [List.length_append, resp.property, chal.property, responseSize]
    rw [List.drop_left' size]

theorem Partners.authRespond (partners : Partners host store client own)
    {store' : List (Store.Entry pki)} {chance : Chance}
    (admits : insertRemote host.lib.names store chance.now (bare own) = some (0, store'))
    (flags : Byte) (nonce : Block Identity.plaintextSize)
    (junk : Block Authenticator.challengeSize) : ∃ data envelope auth,
      Parts data (env.sha1 nonce.val) (Authenticator.challengeData (toIdentity (bare own))
        chance.nonce chance.challenge) envelope ∧
      (data.length + 1 : Int) ≤ intMax ∧
      env.importEnvelope envelope own (bare client) = some [flags] ∧
      Pends env auth chance.nonce chance.now (bare own) ∧
      authRespond host.lib store client flags
        (Authenticator.challengeData (toIdentity (bare client)) nonce junk) (exportCert env own)
        chance = some (store', some (data, bare own, auth)) := by
  obtain ⟨envelope, present, small, exported, opened⟩ :=
    partners.delivers.1 [flags] chance.coins (List.cons_ne_nil _ _) (Nat.succ_pos _)
  have kept : ownIdent store' = some client := insertRemote_own admits partners.holder
  have responds := @Paired.respond _ _ _ client partners.paired.1 nonce junk chance.response
  have resp : (env.sha1 nonce.val).val.length = 20 := (env.sha1 nonce.val).property
  have chal := (Authenticator.challengeData (toIdentity (bare own)) chance.nonce
    chance.challenge).property
  have length : Authenticator.challengeSize = 128 := rfl
  refine ⟨_, envelope, _, .of_append _ _ present, ?_, opened,
    partners.paired.2.pends {} chance.nonce chance.now, ?_⟩
  · rw [List.length_append, List.length_append]
    omega
  · simp only [Sfs.authRespond, importData_exportCert partners.lawful own, admits, exported, kept,
      responds, Option.bind_eq_bind, Option.bind_some, Option.map_some, ne_eq, not_true, if_false]

end

/-! ## The other clients -/

section

variable {server next last : Server pki} {turn : Turn env} {turns : List (Turn env)}
  {events : List (Event pki)} {nonce : Block Identity.plaintextSize} {now expire : Nat}
  {remote : Certified pki}

/-- A turn that leaves a challenge to its holder: it has another nonce and brings another response. -/
structure Apart (env : Env pki) (nonce : Block Identity.plaintextSize) (expire : Nat)
    (turn : Turn env) : Prop where
  alive : turn.now < expire
  fresh : env.sha1 turn.nonce.val ≠ env.sha1 nonce.val
  resp : ∀ data, turn.request = .resp data → Block.ofBytes digestSize data ≠ env.sha1 nonce.val

theorem handleResp_auth {data : Bytes} (handled : handleResp env server turn data =
    some (next, events)) : next.auth = server.auth ∨
      next.auth = (server.auth.verify (some (Block.ofBytes digestSize data)) turn.now).2 := by
  rw [handleResp] at handled
  split at handled
  next => cases handled; exact .inl rfl
  next =>
    dsimp only at handled
    split at handled
    next => cases handled; exact .inr rfl
    next remote answered =>
      cases imported : (localId env).bind fun recipient => env.importEnvelope
          (data.drop (responseSize + Authenticator.challengeSize)) recipient remote with
      | none =>
        rw [imported] at handled
        cases handled
        exact .inr rfl
      | some envelope =>
        rw [imported] at handled
        rcases envelope with _ | ⟨flags, _ | ⟨_, _⟩⟩
        · cases handled
          exact .inr rfl
        · obtain ⟨⟨key, created⟩, creates, same⟩ := Option.bind_eq_some_iff.1 handled
          cases same
          exact .inr (createKey_spec creates).2.1
        · contradiction

theorem Pends.step (pends : Pends env server.auth nonce now remote)
    (apart : Apart env nonce ((now + 60) % env.ulong) turn)
    (stepped : step env server turn = some (next, events)) :
    Pends env next.auth nonce now remote := by
  simp only [Sfs.step] at stepped
  split at stepped
  next hdr request =>
    obtain ⟨answered, -, same⟩ := Option.map_eq_some_iff.1 stepped
    cases same
    exact pends
  next data request =>
    obtain ⟨answered, -, same⟩ := Option.map_eq_some_iff.1 stepped
    cases same
    exact pends
  next data request =>
    obtain ⟨after, handled, same⟩ := Option.map_eq_some_iff.1 stepped
    cases same
    obtain ⟨⟨pointer, released⟩, -, handled⟩ := Option.bind_eq_some_iff.1 handled
    cases pointer with
    | null =>
      cases handled
      exact pends
    | identity remote =>
      dsimp only at handled
      split at handled
      next => cases handled
      next =>
        cases handled
        exact pends.undisturbed (.challenge .refl _ _ _ _ _ _ apart.fresh)
    | address bytes => cases handled
    | block data => cases handled
  next data request =>
    rcases handleResp_auth stepped with same | same
    · rw [same]
      exact pends
    · rw [same]
      refine pends.undisturbed (.verify .refl _ _ ?_ apart.alive)
      intro answer
      exact apart.resp data request (Option.some.inj answer)
  next =>
    cases stepped
    exact pends

theorem Pends.share (pends : Pends env server.auth nonce now remote)
    (apart : ∀ turn ∈ turns, Apart env nonce ((now + 60) % env.ulong) turn)
    (shared : share env server turns = some (last, events)) :
    Pends env last.auth nonce now remote := by
  induction turns generalizing server events with
  | nil =>
    cases shared
    exact pends
  | cons turn turns ih =>
    obtain ⟨⟨next, before⟩, stepped, shared⟩ := Option.bind_eq_some_iff.1 shared
    obtain ⟨⟨final, later⟩, shared', same⟩ := Option.bind_eq_some_iff.1 shared
    cases same
    have kept := pends.step (apart turn List.mem_cons_self) stepped
    exact ih kept (fun turn member => apart turn (List.mem_cons_of_mem _ member)) shared'

theorem Server.Fours.share (fours : server.Fours)
    (shared : share env server turns = some (last, events)) : last.Fours := by
  induction turns generalizing server events with
  | nil =>
    cases shared
    exact fours
  | cons turn turns ih =>
    obtain ⟨⟨next, before⟩, stepped, shared⟩ := Option.bind_eq_some_iff.1 shared
    obtain ⟨⟨final, later⟩, shared', same⟩ := Option.bind_eq_some_iff.1 shared
    cases same
    exact ih (fours.step stepped) shared'

end

/-! ## The connections -/

section

variable {host : Host env} {store : List (Store.Entry pki)} {client own : Certified pki}

end

/-- A client that comes between the two turns for `Auth`. -/
structure Visit.Between (host : Host env) (nonce : Block Identity.plaintextSize) (expire : Nat)
    (visit : Visit) : Prop where
  willing : visit.conn.sent.Willing
  apart : Apart env nonce expire (visit.turn (visit.request host))

end Sfs
