import Ptptl.Sfs.Share

set_option autoImplicit false

/-! # Which peers the server issues keys to -/

namespace Sfs

open Ptp Ptp.Store

variable {pki : Pki} {env : Env pki}

/-- A certificate of the store, or one that a certificate of the store verifies. -/
def Trusted (env : Env pki) (now : Nat) (cert : pki.Cert) : Prop :=
  ∃ certified ∈ env.store,
    certified.cert = cert ∨ (toIdentity certified).verify now cert = 0

def Peer (env : Env pki) (now : Nat) (key : Key) : Prop :=
  ∃ remote, Trusted env now remote.cert ∧ getKey env remote = some key.id

def Turn.Sends (turn : Turn env) (remote : Certified pki) : Prop :=
  ∃ data archive, turn.request = .auth data ∧ env.pkcs12.decode data = some archive ∧
    firstIdentity (archivePayloads none archive) = .identity remote

def Turn.Responds (turn : Turn env) : Prop := ∃ data, turn.request = .resp data

/-- The certificate of a turn is still trusted at a response within the life of its challenge. -/
def Proper (turn later : Turn env) : Prop :=
  ∀ remote, turn.Sends remote → later.Responds → later.now < turn.now + 60 →
    Trusted env later.now remote.cert

def Accounted (start : List Key) (events : List (Event pki)) (key : Key) : Prop :=
  key ∈ start ∨ ∃ now remote, Event.issued now remote key ∈ events

/-- What a pending challenge may still lead to in the turns to come. -/
def Open (env : Env pki) (pending : List (Pending (Certified pki))) (rest : List (Turn env)) :
    Prop :=
  ∀ entry ∈ pending, ∀ remote, entry.context = some remote → ∀ turn ∈ rest, turn.Responds →
    turn.now < entry.expire → Trusted env turn.now remote.cert

theorem updateFirst_mem {which : Key → Bool} {new key : Key} {keys : List Key}
    (member : key ∈ updateFirst which new keys) : key = new ∨ key ∈ keys := by
  induction keys with
  | nil => simp [updateFirst] at member
  | cons head rest ih =>
    rw [updateFirst] at member
    split at member
    next =>
      rcases List.mem_cons.1 member with same | other
      · exact .inl same
      · exact .inr (List.mem_cons_of_mem _ other)
    next =>
      rcases List.mem_cons.1 member with same | other
      · exact .inr (same ▸ List.mem_cons_self)
      · exact (ih other).imp id (List.mem_cons_of_mem _)

theorem verifyLoop_mem {Context : Type} {now : Nat} {resp : Digest}
    {pending : List (Pending Context)} {entry : Pending Context}
    (member : entry ∈ (Authenticator.verifyLoop now resp pending).2) : entry ∈ pending := by
  induction pending with
  | nil => simp [Authenticator.verifyLoop] at member
  | cons head rest ih =>
    rw [Authenticator.verifyLoop] at member
    split at member
    next => exact List.mem_cons_of_mem _ (ih member)
    next =>
      split at member
      next => exact List.mem_cons_of_mem _ member
      next =>
        rcases List.mem_cons.1 member with same | other
        · exact same ▸ List.mem_cons_self
        · exact List.mem_cons_of_mem _ (ih other)

theorem verify_found {Context : Type} {auth : Authenticator Context} {now : Nat}
    {resp : Option Digest} {entry : Pending Context}
    (found : (auth.verify resp now).1 = some entry) :
    entry ∈ auth.pending ∧ now < entry.expire := by
  cases resp with
  | none => simp [Authenticator.verify] at found
  | some resp =>
    simp only [Authenticator.verify, Authenticator.verifyLoop_found] at found
    have member := List.mem_filter.1 (List.mem_of_find?_eq_some found)
    exact ⟨member.1, of_decide_eq_true member.2⟩

theorem verify_mem {Context : Type} {auth : Authenticator Context} {now : Nat}
    {resp : Option Digest} {entry : Pending Context}
    (member : entry ∈ (auth.verify resp now).2.pending) : entry ∈ auth.pending := by
  cases resp with
  | none => exact member
  | some resp => exact verifyLoop_mem member

theorem challenge_mem {Context : Type} {auth : Authenticator Context} {sha1 : Bytes → Digest}
    {ulong expire now : Nat} {id : Option (Identity pki)} {context : Option Context} {chal : Bool}
    {nonce : Block Identity.plaintextSize} {entry : Pending Context}
    (member : entry ∈
      (auth.challenge sha1 ulong id expire context chal nonce now).2.pending) :
    entry ∈ auth.pending ∨ entry.context = context ∧ entry.expire ≤ now + expire := by
  cases id with
  | none => exact .inl member
  | some id =>
    simp only [Authenticator.challenge] at member
    split at member
    next =>
      split at member
      next => exact .inl member
      next =>
        rcases List.mem_cons.1 member with rfl | other
        · exact .inr ⟨rfl, Nat.mod_le _ _⟩
        · exact .inl other
    next => exact .inl member

theorem createKey_spec {server server' : Server pki} {remote : Certified pki} {turn : Turn env}
    {flags : Byte} {key : Key}
    (created : createKey env server remote turn flags = some (key, server')) :
    getKey env remote = some key.id ∧ server'.auth = server.auth ∧
      ∀ other ∈ server'.keys, other = key ∨ other ∈ server.keys := by
  simp only [createKey, Option.bind_eq_bind, Option.bind_eq_some_iff, Option.some.injEq,
    Prod.mk.injEq] at created
  obtain ⟨id, modulus, rfl, rfl⟩ := created
  have kept (old : Key) (roll : Prop) [Decidable roll] :
      (if roll then old.roll server.keyid turn else old).id = old.id := by
    split <;> rfl
  cases found : server.keys.find? (isPeer id turn.ip 0) with
  | none =>
    refine ⟨?_, rfl, fun other member => List.mem_cons.1 member⟩
    simp only [kept, Option.getD_none]
    exact modulus
  | some old =>
    refine ⟨?_, rfl, fun other member => updateFirst_mem member⟩
    have same := List.find?_some found
    simp only [isPeer, Bool.and_eq_true, beq_iff_eq] at same
    simp only [kept, Option.getD_some, same.2]
    exact modulus

/-- What one turn can do to the server. -/
inductive Effect (server : Server pki) (turn : Turn env) :
    Server pki → List (Event pki) → Prop
  | quiet (next : Server pki) (keys : next.keys = server.keys)
      (pending : ∀ entry ∈ next.auth.pending, entry ∈ server.auth.pending) :
      Effect server turn next []
  | answer (key : Key) (known : key ∈ server.keys) : Effect server turn server [.answered key]
  | challenge (next : Server pki) (remote : Certified pki) (sent : turn.Sends remote)
      (keys : next.keys = server.keys)
      (pending : ∀ entry ∈ next.auth.pending, entry ∈ server.auth.pending ∨
        entry.context = some remote ∧ entry.expire ≤ turn.now + 60) :
      Effect server turn next []
  | issue (next : Server pki) (entry : Pending (Certified pki)) (remote : Certified pki)
      (key : Key) (responds : turn.Responds) (found : entry ∈ server.auth.pending)
      (alive : turn.now < entry.expire) (context : entry.context = some remote)
      (modulus : getKey env remote = some key.id)
      (keys : ∀ other ∈ next.keys, other = key ∨ other ∈ server.keys)
      (pending : ∀ entry ∈ next.auth.pending, entry ∈ server.auth.pending) :
      Effect server turn next [.issued turn.now remote key]

theorem handleGet_effect {server : Server pki} {turn : Turn env} {hdr : Bytes}
    {events : List (Event pki)} (handled : handleGet env server hdr = some events) :
    Effect server turn server events := by
  have nothing : Effect server turn server [] := .quiet server rfl fun _ member => member
  simp only [handleGet] at handled
  split at handled
  next => contradiction
  next =>
    split at handled
    next => contradiction
    next =>
      split at handled
      next => cases handled; exact nothing
      next key found =>
        have known := List.mem_of_find?_eq_some found
        split at handled
        next => cases handled; exact nothing
        next =>
          split at handled
          next => contradiction
          next =>
            split at handled
            next => cases handled; exact .answer key known
            next => cases handled; exact nothing

theorem handleSearch_effect {server : Server pki} {turn : Turn env} {data : Bytes}
    {events : List (Event pki)} (handled : handleSearch env server data = some events) :
    Effect server turn server events := by
  have nothing : Effect server turn server [] := .quiet server rfl fun _ member => member
  simp only [handleSearch] at handled
  split at handled
  next => cases handled; exact nothing
  next key found =>
    have known := List.mem_of_find?_eq_some found
    rcases Option.bind_eq_some_iff.1 handled with ⟨⟨size, plain⟩, -, handled⟩
    simp only at handled
    split at handled
    next => cases handled; exact nothing
    next => cases handled; exact .answer key known

theorem handleAuth_effect {server next : Server pki} {turn : Turn env} {data : env.pkcs12.File}
    (request : turn.request = .auth data)
    (handled : handleAuth env server turn data = some next) : Effect server turn next [] := by
  rcases Option.bind_eq_some_iff.1 handled with ⟨⟨pointer, released⟩, imported, handled⟩
  cases pointer with
  | null => cases handled; exact .quiet server rfl fun _ member => member
  | identity remote =>
    rcases importData_identity imported with ⟨archive, decoded, first⟩
    have sent : turn.Sends remote := ⟨data, archive, request, decoded, first⟩
    simp only at handled
    split at handled
    next => contradiction
    next =>
      cases handled
      exact .challenge _ remote sent rfl fun entry member => challenge_mem member
  | address bytes => contradiction
  | block data => contradiction

theorem handleResp_effect {server next : Server pki} {turn : Turn env} {data : Bytes}
    {events : List (Event pki)} (request : turn.request = .resp data)
    (handled : handleResp env server turn data = some (next, events)) :
    Effect server turn next events := by
  rw [handleResp] at handled
  split at handled
  next => cases handled; exact .quiet server rfl fun _ member => member
  next =>
    have verified : Effect server turn
        { server with auth := (server.auth.verify (some (Block.ofBytes digestSize data)) turn.now).2 }
        [] := .quiet _ rfl fun _ member => verify_mem member
    dsimp only at handled
    split at handled
    next => cases handled; exact verified
    next remote answered =>
      rcases Option.bind_eq_some_iff.1 answered with ⟨entry, found, context⟩
      rcases verify_found found with ⟨member, alive⟩
      cases imported : (localId env).bind fun recipient => env.importEnvelope
          (data.drop (responseSize + Authenticator.challengeSize)) recipient remote with
      | none =>
        rw [imported] at handled
        cases handled
        exact verified
      | some envelope =>
        rw [imported] at handled
        rcases envelope with _ | ⟨flags, _ | ⟨_, _⟩⟩
        · cases handled
          exact verified
        · rcases Option.bind_eq_some_iff.1 handled with ⟨⟨key, created⟩, creates, issued⟩
          rcases createKey_spec creates with ⟨modulus, auth, keys⟩
          cases issued
          refine .issue _ entry remote key ⟨data, request⟩ member alive context modulus keys ?_
          intro entry member
          rw [auth] at member
          exact verify_mem member
        · contradiction

theorem step_effect {server next : Server pki} {turn : Turn env} {events : List (Event pki)}
    (stepped : step env server turn = some (next, events)) : Effect server turn next events := by
  simp only [step] at stepped
  split at stepped
  next hdr request =>
    rcases Option.map_eq_some_iff.1 stepped with ⟨events, handled, same⟩
    cases same
    exact handleGet_effect handled
  next data request =>
    rcases Option.map_eq_some_iff.1 stepped with ⟨events, handled, same⟩
    cases same
    exact handleSearch_effect handled
  next data request =>
    rcases Option.map_eq_some_iff.1 stepped with ⟨server, handled, same⟩
    cases same
    exact handleAuth_effect request handled
  next data request => exact handleResp_effect request stepped
  next =>
    cases stepped
    exact .quiet server rfl fun _ member => member

def Answered (start : List Key) (events : List (Event pki)) : Prop :=
  ∀ earlier key later, events = earlier ++ .answered key :: later → Accounted start earlier key

theorem Answered.concat {start : List Key} {events : List (Event pki)} {event : Event pki}
    (answered : Answered start events)
    (accounted : ∀ key, event = .answered key → Accounted start events key) :
    Answered start (events ++ [event]) := by
  intro earlier key later split
  rcases later.eq_nil_or_concat with rfl | ⟨front, last, rfl⟩
  · rcases List.append_inj' split rfl with ⟨rfl, same⟩
    exact accounted key (List.singleton_inj.1 same)
  · rw [List.concat_eq_append, ← List.cons_append, ← List.append_assoc] at split
    exact answered earlier key front (List.append_inj' split rfl).1

theorem Accounted.append {start : List Key} {events later : List (Event pki)} {key : Key}
    (accounted : Accounted start events key) : Accounted start (events ++ later) key := by
  rcases accounted with known | ⟨now, remote, issued⟩
  · exact .inl known
  · exact .inr ⟨now, remote, List.mem_append_left _ issued⟩

/-- What holds between two turns: `past` is what happened and `rest` is what will be asked. -/
structure Invariant (start : List Key) (server : Server pki) (past : List (Event pki))
    (rest : List (Turn env)) : Prop where
  opened : Open env server.auth.pending rest
  keys : ∀ key ∈ server.keys, Accounted start past key
  issued : ∀ now remote key, .issued now remote key ∈ past →
    Trusted env now remote.cert ∧ getKey env remote = some key.id
  answered : Answered start past

theorem Open.tail {pending pending' : List (Pending (Certified pki))} {turn : Turn env}
    {rest : List (Turn env)} (opened : Open env pending (turn :: rest))
    (kept : ∀ entry ∈ pending', entry ∈ pending) : Open env pending' rest := by
  intro entry member remote context later coming
  exact opened entry (kept entry member) remote context later (List.mem_cons_of_mem _ coming)

theorem Effect.invariant {start : List Key} {server next : Server pki} {turn : Turn env}
    {rest : List (Turn env)} {past events : List (Event pki)}
    (effect : Effect server turn next events) (proper : ∀ later ∈ rest, Proper turn later)
    (invariant : Invariant start server past (turn :: rest)) :
    Invariant start next (past ++ events) rest := by
  cases effect with
  | quiet next keys pending =>
    rw [List.append_nil]
    refine ⟨invariant.opened.tail pending, ?_, invariant.issued, invariant.answered⟩
    rw [keys]
    exact invariant.keys
  | answer key known =>
    refine ⟨invariant.opened.tail fun _ member => member, ?_, ?_, ?_⟩
    · intro other member
      exact (invariant.keys other member).append
    · intro now remote issued member
      rcases List.mem_append.1 member with before | new
      · exact invariant.issued now remote issued before
      · simp at new
    · apply invariant.answered.concat
      intro other same
      cases same
      exact invariant.keys key known
  | challenge next remote sent keys pending =>
    rw [List.append_nil]
    refine ⟨?_, ?_, invariant.issued, invariant.answered⟩
    · intro entry member other context later coming responds alive
      rcases pending entry member with old | ⟨new, expire⟩
      · exact invariant.opened entry old other context later (List.mem_cons_of_mem _ coming)
          responds alive
      · -- the challenge of this turn, which lives for 60 seconds
        rw [new] at context
        cases context
        exact proper later coming remote sent responds (by omega)
    · rw [keys]
      exact invariant.keys
  | issue next entry remote key responds found alive context modulus keys pending =>
    have trusted :=
      invariant.opened entry found remote context turn List.mem_cons_self responds alive
    refine ⟨invariant.opened.tail pending, ?_, ?_, ?_⟩
    · intro other member
      rcases keys other member with rfl | old
      · exact .inr ⟨turn.now, remote, List.mem_append_right _ (List.mem_singleton_self _)⟩
      · exact (invariant.keys other old).append
    · intro now peer issued member
      rcases List.mem_append.1 member with before | new
      · exact invariant.issued now peer issued before
      · cases List.mem_singleton.1 new
        exact ⟨trusted, modulus⟩
    · apply invariant.answered.concat
      intro other same
      contradiction

theorem share_invariant {start : List Key} {server final : Server pki} {turns : List (Turn env)}
    {past events : List (Event pki)} (proper : turns.Pairwise Proper)
    (invariant : Invariant start server past turns)
    (ran : share env server turns = some (final, events)) :
    Invariant start final (past ++ events) ([] : List (Turn env)) := by
  induction turns generalizing server past events with
  | nil =>
    cases ran
    rw [List.append_nil]
    exact invariant
  | cons turn rest ih =>
    rcases Option.bind_eq_some_iff.1 ran with ⟨⟨next, first⟩, stepped, ran⟩
    rcases Option.bind_eq_some_iff.1 ran with ⟨⟨last, later⟩, finished, same⟩
    cases same
    rcases List.pairwise_cons.1 proper with ⟨now, proper⟩
    rw [← List.append_assoc]
    exact ih proper ((step_effect stepped).invariant now invariant) finished

/-- Without the check of `Insert`, which `Auth` makes of a server's certificate, it is the clients
whose certificates have to be good ones. -/
theorem share_certified {server final : Server pki} {turns : List (Turn env)}
    {events : List (Event pki)} (fresh : server.auth.pending = [])
    (started : ∀ key ∈ server.keys, ∃ since, Peer env since key)
    (proper : turns.Pairwise Proper) (ran : share env server turns = some (final, events)) :
    -- a key is issued only to a peer whose certificate is trusted at that time
    (∀ now remote key, .issued now remote key ∈ events →
      Trusted env now remote.cert ∧ getKey env remote = some key.id) ∧
    -- a search or a get is answered only under a key of such a peer
    (∀ earlier key later, events = earlier ++ .answered key :: later →
      ∃ since, Peer env since key ∧
        (key ∈ server.keys ∨ ∃ remote, .issued since remote key ∈ earlier)) ∧
    -- and so is every key that the server holds
    (∀ key ∈ final.keys, ∃ since, Peer env since key) := by
  have initial : Invariant server.keys server [] turns := by
    refine ⟨?_, fun _ known => .inl known, by simp, ?_⟩
    · intro entry member
      simp [fresh] at member
    · intro earlier key later split
      simp at split
  have invariant := share_invariant proper initial ran
  rw [List.nil_append] at invariant
  have peer (now : Nat) (remote : Certified pki) (key : Key)
      (issued : .issued now remote key ∈ events) : Peer env now key :=
    ⟨remote, invariant.issued now remote key issued⟩
  refine ⟨invariant.issued, ?_, ?_⟩
  · intro earlier key later split
    rcases invariant.answered earlier key later split with known | ⟨now, remote, issued⟩
    · rcases started key known with ⟨since, held⟩
      exact ⟨since, held, .inl known⟩
    · have member : .issued now remote key ∈ events := by
        rw [split]
        exact List.mem_append_left _ issued
      exact ⟨now, peer now remote key member, .inr ⟨remote, issued⟩⟩
  · intro key known
    rcases invariant.keys key known with old | ⟨now, remote, issued⟩
    · exact started key old
    · exact ⟨now, peer now remote key issued⟩

def duoPki : Pki where
  Cert := Nat
  PublicKey := Nat
  PrivateKey := Unit
  publicKey := some
  notAfter _ := 100
  verify subject key := subject == 1 && key == 0
  publicEncrypt _ plain := some plain

def duoEnv : Env duoPki where
  pkcs12 := plainPkcs12 duoPki
  pointerSize := 4
  ulong := 4294967296
  sha1 := Ledger.zeroDigest
  cipher := { keystream := fun _ _ _ => 0, sha1 := Ledger.zeroDigest }
  modulus key := ⟨List.replicate publicKeySize key.toUInt8, List.length_replicate⟩
  importEnvelope _ _ _ := some [0]
  store := [⟨(0 : Nat), some ()⟩]
  collect := {}
  opens _ := false

def duoTurn (now : Nat) (request : Request duoEnv) : Turn duoEnv where
  ip := 1
  now := now
  request := request
  nonce := Block.zero _
  shadow := 0
  key := Block.zero _
  shadow2 := 0

def duoArchive (cert : Nat) : duoEnv.pkcs12.File :=
  ([(none, [⟨.certBag (some cert), none, none⟩])], some none)

def visit (cert : Nat) : List (Turn duoEnv) :=
  [duoTurn 10 (.auth (duoArchive cert)), duoTurn 20 (.resp (List.replicate 149 0)),
    duoTurn 30 (.search (List.replicate 33 0))]

def issuedKey (cert : Nat) : Key where
  id := duoEnv.modulus cert
  ip := 1

set_option maxRecDepth 4000 in
theorem share_certified_signed : ∃ final,
    share duoEnv {} (visit 1) =
      some (final, [.issued 20 ⟨(1 : Nat), none⟩ (issuedKey 1), .answered (issuedKey 1)]) ∧
    Trusted duoEnv 20 (1 : Nat) ∧ ∃ since, Peer duoEnv since (issuedKey 1) := by
  have signed (now : Nat) (early : now < 100) : Trusted duoEnv now (1 : Nat) := by
    refine ⟨_, List.mem_singleton_self _, .inr ?_⟩
    simp [Identity.verify, toIdentity, duoPki, early]
  have sent (now : Nat) (remote : Certified duoPki)
      (sends : (duoTurn now (.auth (duoArchive 1))).Sends remote) : remote.cert = (1 : Nat) := by
    rcases sends with ⟨data, archive, request, decoded, first⟩
    cases request
    cases decoded
    cases first
    rfl
  have proper : (visit 1).Pairwise Proper := by
    simp only [visit, List.pairwise_cons]
    refine ⟨?_, ?_, ?_, .nil⟩
    · intro later coming remote sends responds early
      rw [sent 10 remote sends]
      exact signed later.now (Nat.lt_trans early (by decide))
    · rintro later - remote ⟨data, archive, request, -⟩
      contradiction
    · intro later coming
      contradiction
  have ran : ∃ final, share duoEnv {} (visit 1) =
      some (final, [.issued 20 ⟨(1 : Nat), none⟩ (issuedKey 1), .answered (issuedKey 1)]) :=
    ⟨_, rfl⟩
  rcases ran with ⟨final, ran⟩
  rcases share_certified rfl (by simp) proper ran with ⟨issued, answered, -⟩
  rcases answered [_] _ [] rfl with ⟨since, peer, -⟩
  exact ⟨final, ran, (issued _ _ _ List.mem_cons_self).1, since, peer⟩

set_option maxRecDepth 4000 in
/-- A certificate that nobody vouches for gets a key and an answer. -/
theorem share_stranger : ∃ final,
    share duoEnv {} (visit 2) =
      some (final, [.issued 20 ⟨(2 : Nat), none⟩ (issuedKey 2), .answered (issuedKey 2)]) ∧
    ∀ now, ¬ Trusted duoEnv now (2 : Nat) := by
  refine ⟨_, rfl, ?_⟩
  rintro now ⟨certified, member, same⟩
  rw [List.mem_singleton.1 member] at same
  rcases same with same | verified
  · exact absurd (show (0 : Nat) = 2 from same) (by decide)
  · simp [Identity.verify, toIdentity, duoPki] at verified

end Sfs
