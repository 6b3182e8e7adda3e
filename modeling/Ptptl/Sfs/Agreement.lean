import Ptptl.Sfs.Certified
import Ptptl.Sfs.Network

set_option autoImplicit false

/-! # Agreement on session keys -/

namespace Sfs

open Ptp Ptp.Store

variable {pki : Pki} {env : Env pki}

theorem get32_store32 {value : Nat} (small : value < 4294967296) (rest : Bytes) :
    get32 (store32 value ++ rest) = value := by
  simp only [get32, store32, List.cons_append, List.nil_append, List.take_succ_cons, List.take_zero,
    List.foldl_cons, List.foldl_nil, UInt8.toNat_ofNat']
  omega

theorem Shared.ofBytes_bytes {shared : Shared} (keyid : shared.keyid < 4294967296)
    (shadow : shared.shadow < 4294967296) : Shared.ofBytes shared.bytes = shared := by
  have first : get32 shared.bytes = shared.keyid := by
    rw [Shared.bytes, List.append_assoc]
    exact get32_store32 keyid _
  have second : get32 (shared.bytes.drop 4) = shared.shadow := get32_store32 shadow _
  have third : Block.ofBytes sessionKeySize (shared.bytes.drop 8) = shared.key := by
    have rest : shared.bytes.drop 8 = shared.key.val ++ [] := (List.append_nil _).symm
    rw [rest, Block.ofBytes_append]
  rw [Shared.ofBytes, first, second, third]

/-! # Lookups -/

theorem find?_only {A : Type} {which : A → Bool} {front back : List A} {value : A}
    (member : value ∈ front) (holds : which value = true)
    (only : ∀ other ∈ front, which other = true → other = value) :
    (front ++ back).find? which = some value := by
  cases found : front.find? which with
  | none => exact absurd holds (by simpa using List.find?_eq_none.1 found value member)
  | some other =>
    have same := only other (List.mem_of_find?_eq_some found) (List.find?_some found)
    rw [List.find?_append, found, same]
    rfl

theorem updateFirst_same {which : Key → Bool} {keys : List Key} {key : Key}
    (found : keys.find? which = some key) : updateFirst which key keys = keys := by
  induction keys with
  | nil => rfl
  | cons head rest ih =>
    rw [updateFirst]
    by_cases here : which head = true
    next =>
      rw [List.find?_cons_of_pos here] at found
      rw [if_pos here, Option.some.inj found]
    next =>
      rw [List.find?_cons_of_neg here] at found
      rw [if_neg here, ih found]

theorem isPeer_iff {id : Block publicKeySize} {ip port : Nat} {key : Key} :
    isPeer id ip port key = true ↔ key.ip = ip ∧ key.port = port ∧ key.id = id := by
  simp [isPeer, and_assoc, Subtype.ext_iff]

theorem importKey_address {keys next : List Key} {remote : Certified pki} {ip port : Nat}
    {flags : Byte} {shared : Shared} {key : Key}
    (imports : importKey env keys remote ip port flags shared = some (key, next)) :
    key.ip = ip ∧ key.port = port ∧ key.shared = shared ∧
      ∀ other ∈ next, other = key ∨ other ∈ keys := by
  simp only [importKey, Option.bind_eq_bind, Option.bind_eq_some_iff, Option.some.injEq,
    Prod.mk.injEq] at imports
  obtain ⟨id, -, rfl, rfl⟩ := imports
  cases found : keys.find? (isPeer id ip port) with
  | none => exact ⟨rfl, rfl, rfl, fun other member => List.mem_cons.1 member⟩
  | some old =>
    have peer := isPeer_iff.1 (List.find?_some found)
    refine ⟨peer.1, peer.2.1, rfl, fun other member => ?_⟩
    exact updateFirst_mem member

theorem Imported.ports {keys : List Key} (imported : Imported env keys) :
    ∀ key ∈ keys, key.port ≠ 0 := by
  induction imported with
  | nil => simp
  | cons imported connected imports ih =>
    obtain ⟨-, port, -, members⟩ := importKey_address imports
    intro other member
    rcases members other member with rfl | old
    · exact port ▸ connected
    · exact ih other old

/-! # The keys that the server makes -/

/-- What `CreateKey` makes for clients that ask for flags 0, newest first. -/
inductive Made (ulong : Nat) : List Key → Prop
  | nil : Made ulong []
  | cons {key : Key} {keys : List Key} (port : key.port = 0) (flags : key.flags = 0)
      (keyid : key.keyid = keys.length % ulong) (number : key.shared.keyid = set32 key.keyid)
      (shadow : key.shared.shadow < 4294967296)
      (first : ∀ other ∈ keys, ¬ (other.id = key.id ∧ other.ip = key.ip)) (made : Made ulong keys) :
      Made ulong (key :: keys)

structure Created (env : Env pki) (imported made : List Key) (server : Server pki) : Prop where
  keys : server.keys = made ++ imported
  ports : ∀ key ∈ imported, key.port ≠ 0
  keyid : server.keyid = made.length % env.ulong
  made : Made env.ulong made

theorem Made.entry {ulong : Nat} {keys : List Key} (made : Made ulong keys) :
    ∀ key ∈ keys, key.port = 0 ∧ key.flags = 0 ∧ key.shared.keyid = set32 key.keyid ∧
      key.shared.shadow < 4294967296 := by
  induction made with
  | nil => simp
  | cons port flags _ number shadow _ _ ih =>
    intro other member
    rcases List.mem_cons.1 member with rfl | old
    · exact ⟨port, flags, number, shadow⟩
    · exact ih other old

theorem Made.peer {ulong : Nat} {keys : List Key} (made : Made ulong keys) :
    ∀ key ∈ keys, ∀ other ∈ keys, other.id = key.id → other.ip = key.ip → other = key := by
  induction made with
  | nil => simp
  | cons _ _ _ _ _ first _ ih =>
    intro key member other member' id ip
    rcases List.mem_cons.1 member with rfl | old
    · rcases List.mem_cons.1 member' with rfl | old'
      · rfl
      · exact absurd ⟨id, ip⟩ (first other old')
    · rcases List.mem_cons.1 member' with rfl | old'
      · exact absurd ⟨id.symm, ip.symm⟩ (first key old)
      · exact ih key old other old' id ip

theorem Made.keyids {ulong : Nat} {keys : List Key} (made : Made ulong keys)
    (few : keys.length < ulong) : ∀ key ∈ keys, key.keyid < keys.length := by
  induction made with
  | nil => simp
  | cons _ _ keyid _ _ _ _ ih =>
    rw [List.length_cons] at few ⊢
    intro key member
    rcases List.mem_cons.1 member with rfl | old
    · rw [keyid, Nat.mod_eq_of_lt (by omega)]
      omega
    · have less := ih (by omega) key old
      omega

theorem Made.keyid {ulong : Nat} {keys : List Key} (made : Made ulong keys)
    (few : keys.length < ulong) :
    ∀ key ∈ keys, ∀ other ∈ keys, other.keyid = key.keyid → other = key := by
  induction made with
  | nil => simp
  | @cons head rest _ _ keyid _ _ _ made ih =>
    have fewer : rest.length < ulong := Nat.lt_of_succ_lt few
    have number : head.keyid = rest.length := by rw [keyid, Nat.mod_eq_of_lt fewer]
    have below := made.keyids fewer
    intro key member other member' same
    rcases List.mem_cons.1 member with rfl | old
    · rcases List.mem_cons.1 member' with rfl | old'
      · rfl
      · have less := below other old'
        omega
    · rcases List.mem_cons.1 member' with rfl | old'
      · have less := below key old
        omega
      · exact ih fewer key old other old' same

section

variable {imported made : List Key} {server next : Server pki} {key : Key}

theorem Created.made_iff (created : Created env imported made server) :
    key ∈ made ↔ key ∈ server.keys ∧ key.port = 0 := by
  rw [created.keys, List.mem_append]
  constructor
  · intro member
    exact ⟨.inl member, (created.made.entry key member).1⟩
  · rintro ⟨member | other, port⟩
    · exact member
    · exact absurd port (created.ports key other)

theorem Created.count (created : Created env imported made server) :
    server.created = made.length := by
  have all : made.countP (fun key => key.port == 0) = made.length := by
    apply List.countP_eq_length.2
    intro key member
    simp [(created.made.entry key member).1]
  have none : imported.countP (fun key => key.port == 0) = 0 := by
    apply List.countP_eq_zero.2
    intro key member
    simp [created.ports key member]
  rw [Server.created, created.keys, List.countP_append, all, none, Nat.add_zero]

theorem Created.findPeer (created : Created env imported made server) (member : key ∈ made) :
    server.keys.find? (isPeer key.id key.ip 0) = some key := by
  have port := (created.made.entry key member).1
  rw [created.keys]
  refine find?_only member (isPeer_iff.2 ⟨rfl, port, rfl⟩) ?_
  intro other member' peer
  obtain ⟨ip, -, id⟩ := isPeer_iff.1 peer
  exact created.made.peer key member other member' id ip

theorem Created.findKey (created : Created env imported made server) (member : key ∈ made)
    (word : 4294967296 ≤ env.ulong) (few : server.created < 4294967296) :
    findKey server.keys key.shared.keyid = some key := by
  rw [created.count] at few
  have fewer : made.length < env.ulong := by omega
  have below := created.made.keyids fewer key member
  have number : key.shared.keyid = key.keyid := by
    rw [(created.made.entry key member).2.2.1, set32, Nat.mod_eq_of_lt (by omega)]
  rw [Sfs.findKey, created.keys, number]
  refine find?_only member (by simp) ?_
  intro other member' same
  exact created.made.keyid fewer key member other member' (by simpa using same)

theorem Created.createKey (created : Created env imported made server) {remote : Certified pki}
    {turn : Turn env} (creates : createKey env server remote turn 0 = some (key, next)) :
    ∃ made', Created env imported made' next ∧ made ⊆ made' ∧ key ∈ made' ∧
      getKey env remote = some key.id ∧ key.ip = turn.ip := by
  simp only [Sfs.createKey, Option.bind_eq_bind, Option.bind_eq_some_iff, Option.some.injEq,
    Prod.mk.injEq] at creates
  obtain ⟨id, modulus, rfl, rfl⟩ := creates
  cases found : server.keys.find? (isPeer id turn.ip 0) with
  | none =>
    have unknown := List.find?_eq_none.1 found
    refine ⟨_ :: made, ⟨?_, created.ports, ?_, .cons ?_ ?_ ?_ ?_ ?_ ?_ created.made⟩, ?_,
      List.mem_cons_self, modulus, rfl⟩
    · simp [created.keys]
    · simp only [List.length_cons, created.keyid]
      exact Nat.mod_add_mod _ _ _
    · rfl
    · rfl
    · exact created.keyid
    · rfl
    · exact Nat.mod_lt _ (by decide)
    · rintro other member ⟨same, ip⟩
      refine unknown other (created.keys ▸ List.mem_append_left _ member) (isPeer_iff.2 ?_)
      exact ⟨ip, (created.made.entry other member).1, same⟩
    · exact List.subset_cons_self _ _
  | some old =>
    obtain ⟨ip, port, same⟩ := isPeer_iff.1 (List.find?_some found)
    have member := created.made_iff.2 ⟨List.mem_of_find?_eq_some found, port⟩
    -- flags 0 rolls nothing and the entry had flags 0 already
    have kept : { old with flags := (0 : Byte) &&& ~~~rollFlag } = old := by
      rw [show (0 : Byte) &&& ~~~rollFlag = old.flags from (created.made.entry old member).2.1.symm]
    have unrolled : ¬ ((0 : Byte) &&& rollFlag ≠ 0) := by decide
    simp only [Option.isNone_some, Bool.false_eq_true, if_false, Option.getD_some, unrolled, kept]
    refine ⟨made, ⟨?_, created.ports, created.keyid, created.made⟩, List.Subset.refl _, member,
      same ▸ modulus, ip⟩
    rw [updateFirst_same found]
    exact created.keys

end

/-! # One turn of the server, and the end of `Auth` -/

-- the request of SFS_RESP_URL of a client that asks for flags 0
def Asks (lib : Library env) (data : Bytes) : Prop :=
  ∃ (resp : Digest) (chal : Block Authenticator.challengeSize) (remote localId : Certified pki)
    (coins envelope : Bytes), lib.exportEnvelope [0] remote localId coins = some envelope ∧
      data = resp.val ++ chal.val ++ envelope

-- an answer with a key that was made for an address
def Answers (lib : Library env) (made : List Key) (ip : Nat) (data : Bytes) : Prop :=
  ∃ key ∈ made, key.ip = ip ∧ ∃ (resp : Digest) (remote signer : Certified pki)
    (coins envelope : Bytes), getKey env remote = some key.id ∧
      lib.exportEnvelope key.shared.bytes remote signer coins = some envelope ∧
      data = resp.val ++ envelope

/-- A key with this shared block was made for the owner of a certificate at an address. -/
def Held (env : Env pki) (made : List Key) (localId : Certified pki) (ip : Nat) (shared : Shared) :
    Prop :=
  ∃ key ∈ made, getKey env localId = some key.id ∧ key.ip = ip ∧ key.shared = shared

section

variable {lib : Library env} {imported made : List Key} {server next : Server pki}
  {turn : Turn env}

theorem Created.of_keys (created : Created env imported made server)
    (keys : next.keys = server.keys) (keyid : next.keyid = server.keyid) :
    Created env imported made next :=
  ⟨keys ▸ created.keys, created.ports, keyid ▸ created.keyid, created.made⟩

theorem Created.handleResp (created : Created env imported made server) (law : Sealed lib)
    {data : Bytes} {events : List (Event pki)} (asks : Asks lib data)
    (handled : handleResp env server turn data = some (next, events)) :
    ∃ made', Created env imported made' next ∧ made ⊆ made' ∧
      ∀ now remote key, events = [.issued now remote key] →
        key ∈ made' ∧ getKey env remote = some key.id ∧ key.ip = turn.ip := by
  have quiet {server' : Server pki} (keys : server'.keys = server.keys)
      (keyid : server'.keyid = server.keyid) :
      ∃ made', Created env imported made' server' ∧ made ⊆ made' ∧
        ∀ now remote key, ([] : List (Event pki)) = [.issued now remote key] →
          key ∈ made' ∧ getKey env remote = some key.id ∧ key.ip = turn.ip :=
    ⟨made, created.of_keys keys keyid, List.Subset.refl _, by simp⟩
  obtain ⟨resp, chal, recipient, writer, coins, envelope, exported, rfl⟩ := asks
  have size : (resp.val ++ chal.val).length = responseSize + Authenticator.challengeSize := by
    rw [List.length_append, resp.property, chal.property, responseSize]
  rw [Sfs.handleResp, List.drop_left' size] at handled
  split at handled
  next => cases handled; exact quiet rfl rfl
  next =>
    dsimp only at handled
    split at handled
    next => cases handled; exact quiet rfl rfl
    next remote answered =>
      cases opened : (localId env).bind fun recipient =>
          env.importEnvelope envelope recipient remote with
      | none =>
        rw [opened] at handled
        cases handled
        exact quiet rfl rfl
      | some found =>
        rw [opened] at handled
        obtain ⟨reader, -, imports⟩ := Option.bind_eq_some_iff.1 opened
        obtain ⟨rfl, -⟩ := law _ _ _ _ _ exported _ _ _ imports
        obtain ⟨⟨key, after⟩, creates, issued⟩ := Option.bind_eq_some_iff.1 handled
        cases issued
        have verified : Created env imported made { server with
            auth := (server.auth.verify (some (Block.ofBytes digestSize
              (resp.val ++ chal.val ++ envelope))) turn.now).2 } := created.of_keys rfl rfl
        obtain ⟨made', created', subset, member, modulus, ip⟩ := verified.createKey creates
        refine ⟨made', created', subset, ?_⟩
        rintro now remote' key' same
        cases same
        exact ⟨member, modulus, ip⟩

theorem handleAuth_keys {data : env.pkcs12.File}
    (handled : handleAuth env server turn data = some next) :
    next.keys = server.keys ∧ next.keyid = server.keyid := by
  obtain ⟨⟨pointer, released⟩, -, handled⟩ := Option.bind_eq_some_iff.1 handled
  cases pointer with
  | null => cases handled; exact ⟨rfl, rfl⟩
  | identity remote =>
    simp only at handled
    split at handled
    next => contradiction
    next => cases handled; exact ⟨rfl, rfl⟩
  | address bytes => contradiction
  | block data => contradiction

theorem Created.step (created : Created env imported made server) (law : Sealed lib)
    {events : List (Event pki)} (asks : ∀ data, turn.request = .resp data → Asks lib data)
    (stepped : step env server turn = some (next, events)) :
    ∃ made', Created env imported made' next ∧ made ⊆ made' ∧
      ∀ data now remote key, turn.request = .resp data → events = [.issued now remote key] →
        key ∈ made' ∧ getKey env remote = some key.id ∧ key.ip = turn.ip := by
  simp only [Sfs.step] at stepped
  split at stepped
  next hdr request =>
    obtain ⟨answered, -, same⟩ := Option.map_eq_some_iff.1 stepped
    cases same
    exact ⟨made, created, List.Subset.refl _, by simp [request]⟩
  next data request =>
    obtain ⟨answered, -, same⟩ := Option.map_eq_some_iff.1 stepped
    cases same
    exact ⟨made, created, List.Subset.refl _, by simp [request]⟩
  next data request =>
    obtain ⟨after, handled, same⟩ := Option.map_eq_some_iff.1 stepped
    cases same
    have kept := handleAuth_keys handled
    exact ⟨made, created.of_keys kept.1 kept.2, List.Subset.refl _, by simp [request]⟩
  next data request =>
    obtain ⟨made', created', subset, issues⟩ := created.handleResp law (asks data request) stepped
    exact ⟨made', created', subset, fun _ now remote key _ issued => issues now remote key issued⟩
  next request =>
    cases stepped
    exact ⟨made, created, List.Subset.refl _, by simp [request]⟩

theorem Created.serve (created : Created env imported made server) (law : Sealed lib)
    {chance : Chance} {reply : Option (Reply env)}
    (asks : ∀ data, turn.request = .resp data → Asks lib data)
    (serves : serve lib server turn chance = some (next, reply)) :
    ∃ made', Created env imported made' next ∧ made ⊆ made' ∧
      ∀ data, reply = some (.response data) → Answers lib made' turn.ip data := by
  obtain ⟨⟨after, events⟩, stepped, serves⟩ := Option.bind_eq_some_iff.1 serves
  obtain ⟨made', created', subset, issues⟩ := created.step law asks stepped
  simp only at serves
  split at serves
  next request =>
    obtain ⟨answer, replied, same⟩ := Option.map_eq_some_iff.1 serves
    cases same
    refine ⟨made', created', subset, ?_⟩
    rintro data rfl
    -- HandleAuth answers with a challenge
    obtain ⟨⟨pointer, released⟩, -, replied⟩ := Option.bind_eq_some_iff.1 replied
    cases pointer with
    | null => cases replied
    | identity remote =>
      obtain ⟨localId, -, replied⟩ := Option.bind_eq_some_iff.1 replied
      cases replied
    | address bytes => contradiction
    | block data => contradiction
  next data now remote key request =>
    obtain ⟨answer, replied, same⟩ := Option.map_eq_some_iff.1 serves
    cases same
    refine ⟨made', created', subset, ?_⟩
    rintro data' same
    cases same
    obtain ⟨signer, -, replied⟩ := Option.bind_eq_some_iff.1 replied
    obtain ⟨envelope, exported, replied⟩ := Option.bind_eq_some_iff.1 replied
    cases replied
    obtain ⟨member, modulus, ip⟩ := issues data now remote key request rfl
    exact ⟨key, member, ip, _, remote, signer, _, envelope, modulus, exported, rfl⟩
  next =>
    cases serves
    exact ⟨made', created', subset, by simp⟩

theorem authFinish_held (law : Sealed lib) (made' : Made env.ulong made) {ip serverIp serverPort : Nat}
    {data : Bytes} (answers : Answers lib made ip data) {keys keys' : List Key}
    {localId remoteId : Certified pki} {auth : Authenticator (Certified pki)} {now : Nat}
    {result : Option Key} (finished : authFinish env keys localId remoteId auth serverIp serverPort 0
      data now = some (result, keys')) :
    (result = none ∧ keys' = keys) ∨ ∃ key, result = some key ∧
      (∀ other ∈ keys', other = key ∨ other ∈ keys) ∧ Held env made localId ip key.shared := by
  obtain ⟨entry, member, address, resp, remote, signer, coins, envelope, modulus, exported, rfl⟩ :=
    answers
  have size : resp.val.length = responseSize := resp.property
  rw [authFinish, List.drop_left' size] at finished
  split at finished
  next => cases finished; exact .inl ⟨rfl, rfl⟩
  next =>
    split at finished
    next context shared verified opened =>
      split at finished
      next => cases finished; exact .inl ⟨rfl, rfl⟩
      next =>
        obtain ⟨rfl, owner⟩ := law _ _ _ _ _ exported _ _ _ opened
        obtain ⟨⟨key, after⟩, imports, same⟩ := Option.map_eq_some_iff.1 finished
        cases same
        obtain ⟨-, -, block, members⟩ := importKey_address imports
        obtain ⟨-, -, number, shadow⟩ := made'.entry entry member
        refine .inr ⟨key, rfl, members, entry, member, owner.trans modulus, address, ?_⟩
        rw [block, Shared.ofBytes_bytes _ shadow]
        rw [number]
        exact Nat.mod_lt _ (by decide)
    next => cases finished; exact .inl ⟨rfl, rfl⟩

theorem Held.mono {made' : List Key} {localId : Certified pki} {ip : Nat} {shared : Shared}
    (held : Held env made localId ip shared) (subset : made ⊆ made') :
    Held env made' localId ip shared := by
  obtain ⟨key, member, rest⟩ := held
  exact ⟨key, subset member, rest⟩

theorem Answers.mono {made' : List Key} {ip : Nat} {data : Bytes}
    (answers : Answers lib made ip data) (subset : made ⊆ made') : Answers lib made' ip data := by
  obtain ⟨key, member, rest⟩ := answers
  exact ⟨key, subset member, rest⟩

end

/-! # The certificate of a client -/

section

variable {names : Names pki} {list next : List (Entry pki)} {own : Certified pki}

theorem findFrom_own (names : Names pki) (place : Nat) (list : List (Entry pki)) :
    ∃ found, findFrom names none true none place list = some found ∧
      found.map Prod.snd = ownIdent list := by
  induction list generalizing place with
  | nil => exact ⟨none, rfl, rfl⟩
  | cons entry rest ih =>
    rw [findFrom]
    cases certified : entry.payload.certified with
    | none =>
      rw [ownIdent, idents_cons_none certified]
      exact ih (place + 1)
    | some ident =>
      rw [ownIdent, idents_cons_some certified]
      simp only [matchesIdent_key, Option.bind_eq_bind, Option.bind_some]
      cases keyed : ident.key.isSome with
      | true => exact ⟨some (place, ident), rfl, by simp [keyed]⟩
      | false =>
        obtain ⟨found, finds, same⟩ := ih (place + 1)
        exact ⟨found, by simpa using finds, by simpa [keyed, ownIdent] using same⟩

theorem removeFrom_own {pointer p place : Nat} {modulus : Block publicKeySize}
    (removed : removeFrom names pointer modulus place list = some next)
    (found : findFrom names none true none place list = some (some (p, own)))
    (other : removedPlace names pointer modulus place list ≠ some p) :
    ownIdent next = some own := by
  induction list generalizing place next with
  | nil => simp [findFrom] at found
  | cons entry rest ih =>
    rw [findFrom] at found
    rw [removedPlace] at other
    cases certified : entry.payload.certified with
    | none =>
      simp only [certified] at found other
      obtain ⟨kept, removes, rfl⟩ := removeFrom_other certified removed
      rw [ownIdent, idents_cons_none certified]
      exact ih removes found other
    | some ident =>
      simp only [certified, matchesIdent_key, Option.bind_eq_bind, Option.bind_some] at found
      simp only [certified] at other
      rcases removeFrom_certified certified removed with ⟨stops, rfl⟩ | ⟨passes, kept, removes, rfl⟩
      next =>
        rw [if_pos stops] at other
        cases keyed : ident.key.isSome with
        | true =>
          simp only [keyed, if_true, Option.some.injEq, Prod.mk.injEq] at found
          exact absurd (congrArg some found.1) other
        | false =>
          simp only [keyed, Bool.false_eq_true, if_false] at found
          obtain ⟨result, finds, same⟩ := findFrom_own names (place + 1) next
          rw [found] at finds
          cases finds
          exact same.symm
      next =>
        rw [if_neg passes] at other
        rw [ownIdent, idents_cons_some certified]
        cases keyed : ident.key.isSome with
        | true =>
          simp only [keyed, if_true, Option.some.injEq, Prod.mk.injEq] at found
          rw [← found.2]
          exact List.find?_cons_of_pos keyed
        | false =>
          simp only [keyed, Bool.false_eq_true, if_false] at found
          simpa [keyed, ownIdent] using ih removes found other

theorem insertRemote_own {now : Nat} {remote : Certified pki} {status : Int}
    (admitted : insertRemote names list now remote = some (status, next))
    (owner : ownIdent list = some own) : ownIdent next = some own := by
  obtain ⟨⟨status', after⟩, inserted, admitted⟩ := Option.bind_eq_some_iff.1 admitted
  simp only at admitted
  split at admitted
  next => contradiction
  next unfreed =>
    cases admitted
    rcases insert_cases inserted with ⟨-, -, rfl⟩ | ⟨-, -, -, rfl⟩ | ⟨adds, zero, replaced⟩
    · exact owner
    · exact owner
    · have kept : freesOwn names list remote ≠ true := fun frees => unfreed ⟨zero, adds.2, frees⟩
      obtain ⟨rest, copy, cleared, -, rfl⟩ := Cert.replace_added replaced
      have remains : ownIdent rest = some own := by
        obtain ⟨old, finds, cleared⟩ := Option.bind_eq_some_iff.1 cleared
        cases old with
        | none =>
          cases cleared
          exact owner
        | some old =>
          obtain ⟨modulus, key, removed⟩ := Option.bind_eq_some_iff.1 cleared
          obtain ⟨found, first, same⟩ := findFrom_own names 0 list
          rw [owner] at same
          obtain ⟨⟨place, ident⟩, rfl, rfl⟩ := Option.map_eq_some_iff.1 same
          refine removeFrom_own removed first fun frees => kept ?_
          have first' : findIdent names list none true none = some (some (place, ident)) := first
          simp [freesOwn, first', finds, key, frees]
      rw [ownIdent, idents_append, List.find?_append]
      rw [ownIdent] at remains
      rw [remains]
      rfl

end

/-! # The invariant -/

def Waits (exchanges : List (Exchange env)) (who : Nat) (client : Client pki) : Prop :=
  match client.stage with
  | .idle => True
  | .asked _ localId => ownIdent client.store = some localId
  | .responded place localId _ _ => ownIdent client.store = some localId ∧
      ∃ exchange, exchanges[place]? = some exchange ∧ exchange.client = who

def Keeps (env : Env pki) (site : Site) (made : List Key) (who : Nat) (client : Client pki) : Prop :=
  ∀ key ∈ client.keys, key.ip = site.serverIp → key.port = site.serverPort →
    ∃ own, ownIdent client.store = some own ∧ Held env made own (site.ip who) key.shared

structure Sound (lib : Library env) (site : Site) (made : List Key) (exchange : Exchange env) :
    Prop where
  asks : ∀ data, exchange.request = .resp data → Asks lib data
  answers : ∀ data, exchange.reply = some (.response data) →
    Answers lib made (site.ip exchange.client) data

structure Agreed (lib : Library env) (site : Site) (imported made : List Key)
    (net : Network env) : Prop where
  created : Created env imported made net.server
  sound : ∀ exchange ∈ net.exchanges, Sound lib site made exchange
  keeps : ∀ who, Keeps env site made who (net.clients who)
  waits : ∀ who, Waits net.exchanges who (net.clients who)

def Steps (lib : Library env) (site : Site) (imported made : List Key) (next : Network env)
    (outputs : List Output) : Prop :=
  ∃ made', Agreed lib site imported made' next ∧ made ⊆ made' ∧
    ∀ who key, .returned who key ∈ outputs → ∃ own,
      ownIdent (next.clients who).store = some own ∧ Held env made' own (site.ip who) key.shared

theorem Start.agreed {lib : Library env} {site : Site} {net : Network env}
    (start : Start site net) : Agreed lib site net.server.keys [] net where
  created := ⟨rfl, start.keys.ports, by rw [start.keyid]; exact (Nat.zero_mod _).symm, .nil⟩
  sound := by simp [start.exchanges]
  keeps := by
    intro who key member ip port
    have passed := List.find?_eq_none.1 (start.unknown who) key member
    simp [ip, port] at passed
  waits := by
    intro who
    rw [Waits, start.idle who]
    trivial

section

variable {lib : Library env} {site : Site} {imported made : List Key} {net next : Network env}
  {outputs : List Output} {who : Nat} {client : Client pki}

theorem orUndefined_ok {A : Type} {value : Option A} {found : A} :
    orUndefined value = .ok found ↔ value = some found := by
  cases value <;> simp [orUndefined]

theorem Agreed.setClient (agreed : Agreed lib site imported made net)
    (keeps : Keeps env site made who client) (waits : Waits net.exchanges who client) :
    Agreed lib site imported made (net.setClient who client) where
  created := agreed.created
  sound := agreed.sound
  keeps := by
    intro other
    simp only [Network.setClient]
    by_cases same : other = who
    next => rw [same, Function.update_self]; exact keeps
    next => rw [Function.update_of_ne same]; exact agreed.keeps other
  waits := by
    intro other
    simp only [Network.setClient]
    by_cases same : other = who
    next => rw [same, Function.update_self]; exact waits
    next => rw [Function.update_of_ne same]; exact agreed.waits other

theorem Waits.mono {exchanges exchanges' : List (Exchange env)} (waits : Waits exchanges who client)
    (kept : ∀ (place : Nat) (exchange : Exchange env), exchanges[place]? = some exchange →
      ∃ exchange', exchanges'[place]? = some exchange' ∧ exchange'.client = exchange.client) :
    Waits exchanges' who client := by
  rw [Waits] at waits ⊢
  cases stage : client.stage with
  | idle => trivial
  | asked place localId =>
    rw [stage] at waits
    exact waits
  | responded place localId remoteId auth =>
    rw [stage] at waits
    obtain ⟨owner, exchange, found, same⟩ := waits
    obtain ⟨exchange', found', same'⟩ := kept place exchange found
    exact ⟨owner, exchange', found', same'.trans same⟩

theorem Agreed.send (agreed : Agreed lib site imported made net) {request : Request env}
    (keeps : Keeps env site made who client)
    (asks : ∀ data, request = .resp data → Asks lib data)
    (waits : Waits (net.exchanges ++ [{ client := who, request := request }]) who client) :
    Agreed lib site imported made (net.send who client request) := by
  have appended : Agreed lib site imported made
      { net with exchanges := net.exchanges ++ [{ client := who, request := request }] } := by
    refine ⟨agreed.created, ?_, agreed.keeps, ?_⟩
    · intro exchange member
      rcases List.mem_append.1 member with old | new
      · exact agreed.sound exchange old
      · rw [List.mem_singleton.1 new]
        exact ⟨asks, by simp⟩
    · intro other
      refine (agreed.waits other).mono fun place exchange found => ⟨exchange, ?_, rfl⟩
      rw [List.getElem?_append_left (List.getElem?_eq_some_iff.1 found).1]
      exact found
  exact appended.setClient keeps waits

theorem Agreed.startAuth (agreed : Agreed lib site imported made net)
    (started : startAuth site net who = .ok (next, outputs)) :
    Steps lib site imported made next outputs := by
  simp only [Sfs.startAuth] at started
  split at started
  next key idle found =>
    cases started
    refine ⟨made, agreed, List.Subset.refl _, ?_⟩
    intro other key' returned
    cases List.mem_singleton.1 returned
    have address := List.find?_some found
    simp only [Bool.and_eq_true, beq_iff_eq] at address
    exact agreed.keeps who key (List.mem_of_find?_eq_some found) address.1 address.2
  next idle found =>
    simp only [Runs.bind_ok, orUndefined_ok, Runs.pure_ok, Prod.mk.injEq] at started
    obtain ⟨localId, owner, rfl, rfl⟩ := started
    refine ⟨made, agreed.send (agreed.keeps who) (by simp) owner, List.Subset.refl _, by simp⟩
  next => cases started

theorem Agreed.serveExchange (agreed : Agreed lib site imported made net) (law : Sealed lib)
    {place shadow shadow2 : Nat} {chance : Chance} {key : SessionKey}
    (served : serveExchange lib site net place chance shadow key shadow2 = .ok (next, outputs)) :
    Steps lib site imported made next outputs := by
  simp only [Sfs.serveExchange] at served
  split at served
  next who request reply found =>
    simp only [Runs.bind_ok, orUndefined_ok, Runs.pure_ok, Prod.mk.injEq] at served
    obtain ⟨⟨server, answer⟩, serves, rfl, rfl⟩ := served
    have old := agreed.sound _ (List.mem_of_getElem? found)
    obtain ⟨made', created, subset, answers⟩ := agreed.created.serve law old.asks serves
    refine ⟨made', ⟨created, ?_, ?_, ?_⟩, subset, by simp⟩
    · intro exchange member
      rcases List.mem_or_eq_of_mem_set member with other | rfl
      · have sound := agreed.sound exchange other
        exact ⟨sound.asks, fun data replied => (sound.answers data replied).mono subset⟩
      · exact ⟨old.asks, answers⟩
    · intro other key member ip port
      obtain ⟨own, owner, held⟩ := agreed.keeps other key member ip port
      exact ⟨own, owner, held.mono subset⟩
    · intro other
      refine (agreed.waits other).mono fun place' exchange found' => ?_
      have bound := (List.getElem?_eq_some_iff.1 found).1
      by_cases same : place = place'
      next =>
        rw [← same, found] at found'
        cases found'
        exact ⟨⟨who, request, true, answer⟩, by simp [← same, bound], rfl⟩
      next => exact ⟨exchange, by rw [List.getElem?_set_ne same, found'], rfl⟩
  next => cases served

theorem Agreed.serveOther (agreed : Agreed lib site imported made net) {turn : Turn env}
    (law : Sealed lib) (visited : serveOther net turn = .ok (next, outputs)) :
    Steps lib site imported made next outputs := by
  simp only [Sfs.serveOther] at visited
  split at visited
  next => cases visited
  next => cases visited
  next other =>
    simp only [Runs.bind_ok, orUndefined_ok, Runs.pure_ok, Prod.mk.injEq] at visited
    obtain ⟨⟨server, events⟩, stepped, rfl, rfl⟩ := visited
    obtain ⟨made', created, subset, -⟩ :=
      agreed.created.step law (fun data request => absurd request (other data)) stepped
    refine ⟨made', ⟨created, ?_, ?_, agreed.waits⟩, subset, by simp⟩
    · intro exchange member
      have sound := agreed.sound exchange member
      exact ⟨sound.asks, fun data replied => (sound.answers data replied).mono subset⟩
    · intro who key member ip port
      obtain ⟨own, owner, held⟩ := agreed.keeps who key member ip port
      exact ⟨own, owner, held.mono subset⟩

theorem Keeps.of_store (stage : Stage pki) {store : List (Entry pki)}
    (keeps : Keeps env site made who client)
    (kept : ∀ own, ownIdent client.store = some own → ownIdent store = some own) :
    Keeps env site made who { client with store := store, stage := stage } := by
  intro key member ip port
  obtain ⟨own, owner, held⟩ := keeps key member ip port
  exact ⟨own, kept own owner, held⟩

theorem authRespond_asks {store store' : List (Entry pki)} {localId : Certified pki}
    {chal : Block Authenticator.challengeSize} {file : env.pkcs12.File} {chance : Chance}
    {request : Option (Bytes × Certified pki × Authenticator (Certified pki))}
    (responded : authRespond lib store localId 0 chal file chance = some (store', request)) :
    (∀ own, ownIdent store = some own → ownIdent store' = some own) ∧
      ∀ data remoteId auth, request = some (data, remoteId, auth) → Asks lib data := by
  obtain ⟨⟨pointer, released⟩, -, responded⟩ := Option.bind_eq_some_iff.1 responded
  cases pointer with
  | null =>
    cases responded
    exact ⟨fun _ => id, by simp⟩
  | identity remote =>
    obtain ⟨⟨status, after⟩, admitted, responded⟩ := Option.bind_eq_some_iff.1 responded
    have kept := fun own => @insertRemote_own _ _ _ _ own _ _ _ admitted
    simp only at responded
    split at responded
    next =>
      cases responded
      exact ⟨kept, by simp⟩
    next =>
      obtain ⟨envelope, exported, responded⟩ := Option.bind_eq_some_iff.1 responded
      cases responded
      refine ⟨kept, ?_⟩
      rintro data remoteId auth same
      cases same
      exact ⟨_, _, remote, localId, _, envelope, exported, rfl⟩
  | address bytes => contradiction
  | block data => contradiction

theorem Agreed.receiveReply (agreed : Agreed lib site imported made net) (law : Sealed lib)
    {chance : Chance} (received : receiveReply lib site net who chance = .ok (next, outputs)) :
    Steps lib site imported made next outputs := by
  have waits := agreed.waits who
  rw [Waits] at waits
  simp only [Sfs.receiveReply] at received
  split at received
  next => cases received
  next place localId stage =>
    rw [stage] at waits
    split at received
    next chal file replied =>
      simp only [Runs.bind_ok, orUndefined_ok] at received
      obtain ⟨⟨store, request⟩, responded, received⟩ := received
      obtain ⟨kept, asks⟩ := authRespond_asks responded
      have keeps (stage : Stage pki) := (agreed.keeps who).of_store stage kept
      cases request with
      | none =>
        cases received
        exact ⟨made, agreed.setClient (keeps .idle) trivial, List.Subset.refl _, by simp⟩
      | some request =>
        obtain ⟨data, remoteId, auth⟩ := request
        cases received
        refine ⟨made, agreed.send (keeps _) ?_ ⟨kept localId waits, ⟨who, .resp data, false, none⟩,
          List.getElem?_concat_length, rfl⟩, List.Subset.refl _, by simp⟩
        rintro data' same
        cases same
        exact asks data remoteId auth rfl
    next => cases received
  next place localId remoteId auth stage =>
    rw [stage] at waits
    obtain ⟨owner, exchange, found, same⟩ := waits
    split at received
    next data replied =>
      simp only [Runs.bind_ok, orUndefined_ok, Runs.pure_ok, Prod.mk.injEq] at received
      obtain ⟨⟨result, keys⟩, finished, rfl, rfl⟩ := received
      obtain ⟨exchange', found', answered⟩ := Option.bind_eq_some_iff.1 replied
      cases found.symm.trans found'
      have answers := (agreed.sound exchange (List.mem_of_getElem? found)).answers data answered
      rw [same] at answers
      rcases authFinish_held law agreed.created.made answers finished with
        ⟨rfl, rfl⟩ | ⟨key, rfl, members, held⟩
      · refine ⟨made, agreed.setClient ?_ trivial, List.Subset.refl _, by simp⟩
        exact (agreed.keeps who).of_store .idle fun _ => id
      · refine ⟨made, agreed.setClient ?_ trivial, List.Subset.refl _, ?_⟩
        · intro other member ip port
          rcases members other member with rfl | old
          · exact ⟨localId, owner, held⟩
          · exact agreed.keeps who other old ip port
        · intro other key' returned
          cases List.mem_singleton.1 returned
          simp only [Network.setClient, Function.update_self]
          exact ⟨localId, owner, held⟩
    next => cases received

theorem Agreed.fromElsewhere (agreed : Agreed lib site imported made net) {now ip port : Nat}
    {remote : Certified pki} {flags : Byte} {shared : Shared}
    (imports : fromElsewhere lib site net who now remote ip port flags shared =
      .ok (next, outputs)) :
    Steps lib site imported made next outputs := by
  simp only [Sfs.fromElsewhere] at imports
  split at imports
  next stage =>
    split at imports
    next => cases imports
    next away =>
      simp only [Runs.bind_ok, orUndefined_ok, Runs.pure_ok, Prod.mk.injEq] at imports
      obtain ⟨⟨status, store⟩, admitted, ⟨key, keys⟩, imports, rfl, rfl⟩ := imports
      obtain ⟨sameIp, samePort, -, members⟩ := importKey_address imports
      refine ⟨made, agreed.setClient ?_ ?_, List.Subset.refl _, by simp⟩
      · intro other member ip' port'
        rcases members other member with rfl | old
        · exact absurd ⟨sameIp.symm.trans ip', samePort.symm.trans port'⟩ away
        · obtain ⟨own, owner, held⟩ := agreed.keeps who other old ip' port'
          exact ⟨own, insertRemote_own admitted owner, held⟩
      · rw [Waits]
        simp only [stage]
  next => cases imports

theorem Agreed.act (agreed : Agreed lib site imported made net) (law : Sealed lib) {op : Op env}
    (acted : act lib site net op = .ok (next, outputs)) :
    Steps lib site imported made next outputs := by
  cases op with
  | auth who => exact agreed.startAuth acted
  | serve place chance shadow key shadow2 => exact agreed.serveExchange law acted
  | visit turn => exact agreed.serveOther law acted
  | receive who chance => exact agreed.receiveReply law acted
  | fail who =>
    cases acted
    refine ⟨made, agreed.setClient ?_ trivial, List.Subset.refl _, by simp⟩
    exact (agreed.keeps who).of_store .idle fun _ => id
  | elsewhere who now remote ip port flags shared => exact agreed.fromElsewhere acted

end

open Runs

theorem auth_agreed {lib : Library env} (law : Sealed lib) (word : 4294967296 ≤ env.ulong)
    {site : Site} {first net next last : Network env} {before after : List (Runs.Turn _ _ _)}
    {op : Op env} {outputs : List Output} {who : Nat} {key : Key} (start : Start site first)
    (run : Run (act lib site) first before net)
    (acted : act lib site net op = .ok (next, outputs)) (returned : .returned who key ∈ outputs)
    (rest : Run (act lib site) next after last)
    (few : last.server.created < 4294967296) :
    ∃ own entry, ownIdent (next.clients who).store = some own ∧
      getKey env own = some entry.id ∧ entry.ip = site.ip who ∧
      next.server.keys.find? (isPeer entry.id (site.ip who) 0) = some entry ∧
      key.shared = entry.shared ∧ key.shared.bytes = entry.shared.bytes ∧
      findKey last.server.keys key.shared.keyid = some entry := by
  have agreed : ∃ made, Agreed lib site first.server.keys made net := by
    refine run.stable (fun net => ∃ made, Agreed lib site first.server.keys made net) ?_
      ⟨[], start.agreed⟩
    rintro state next op outputs ⟨made, agreed⟩ acted
    obtain ⟨made', agreed', -⟩ := agreed.act law acted
    exact ⟨made', agreed'⟩
  obtain ⟨made, agreed⟩ := agreed
  obtain ⟨made', agreed', -, holds⟩ := agreed.act law acted
  obtain ⟨own, owner, entry, member, modulus, ip, block⟩ := holds who key returned
  have later : ∃ made, Agreed lib site first.server.keys made last ∧ made' ⊆ made := by
    refine rest.stable (fun net => ∃ made, Agreed lib site first.server.keys made net ∧ made' ⊆ made)
      ?_ ⟨made', agreed', List.Subset.refl _⟩
    rintro state next op outputs ⟨made, agreed, subset⟩ acted
    obtain ⟨made', agreed', subset', -⟩ := agreed.act law acted
    exact ⟨made', agreed', List.Subset.trans subset subset'⟩
  obtain ⟨madeLast, agreedLast, subset⟩ := later
  refine ⟨own, entry, owner, modulus, ip, ?_, block.symm, by rw [block], ?_⟩
  · rw [← ip]
    exact agreed'.created.findPeer member
  · rw [← block]
    exact agreedLast.created.findKey (subset member) word few

def pairEnv : Env duoPki :=
  { duoEnv with
    store := [⟨(1 : Nat), some ()⟩]
    importEnvelope := fun envelope reader _ =>
      match envelope with
      | [] => none
      | recipient :: data => if recipient = Nat.toUInt8 reader.cert then some data else none }

def pairLib : Library pairEnv where
  name := fun (cert : Nat) => some (if cert = 0 then doe else ⟨ascii "Jane", by decide⟩)
  issuerName _ := some doe
  privateDecrypt _ cipher := some (cipher.take Identity.plaintextSize)
  exportEnvelope data recipient _ _ := some (Nat.toUInt8 recipient.cert :: data)

theorem pair_sealed : Sealed pairLib := by
  intro data recipient signer coins envelope exported reader writer found imports
  cases exported
  by_cases same : Nat.toUInt8 recipient.cert = Nat.toUInt8 reader.cert
  next =>
    have opened : some data = some found := by
      rw [← imports]
      exact (if_pos same).symm
    refine ⟨(Option.some.inj opened).symm, congrArg some (Subtype.ext ?_)⟩
    exact congrArg (List.replicate publicKeySize) same.symm
  next =>
    have refused : none = some found := by
      rw [← imports]
      exact (if_neg same).symm
    cases refused

def pairSite : Site := ⟨fun _ => 7, 9, 8080⟩

-- a key of another server, which has the number of the first key that is made
def pairImported : Key := { id := pairEnv.modulus (5 : Nat), ip := 3, port := 8080 }

def pairStart : Network pairEnv where
  server := { keys := [pairImported] }
  clients _ := { store := [⟨.identity ⟨(0 : Nat), some ()⟩ true, none, none⟩], keys := [] }

def pairChance : Chance := ⟨10, Block.zero _, [], Block.zero _, Block.zero _⟩

theorem pair_start : Start pairSite pairStart where
  keys := by
    have imports : importKey pairEnv [] ⟨(5 : Nat), none⟩ 3 8080 0 {} =
      some (pairImported, [pairImported]) := rfl
    exact .cons .nil (by decide) imports
  keyid := rfl
  exchanges := rfl
  idle _ := rfl
  unknown _ := rfl

def pairKey : Key where
  id := pairEnv.modulus (1 : Nat)
  ip := 9
  port := 8080

-- the number of the agreed key is that of the imported one
set_option maxRecDepth 4000 in
theorem auth_agreed_pair : findKey pairStart.server.keys 0 = some pairImported ∧
    ∃ (next : Network pairEnv) (entry : Key), entry.ip = 7 ∧
      pairKey.shared.bytes = entry.shared.bytes ∧ findKey next.server.keys 0 = some entry := by
  refine ⟨rfl, ?_⟩
  have run : Runs.Run (act pairLib pairSite) pairStart
      [⟨_, .auth 0, _⟩, ⟨_, .serve 0 pairChance 0 (Block.zero _) 0, _⟩,
        ⟨_, .receive 0 pairChance, _⟩, ⟨_, .serve 1 pairChance 0 (Block.zero _) 0, _⟩] _ :=
    .cons rfl (.cons rfl (.cons rfl (.cons rfl (.nil _))))
  have word : 4294967296 ≤ pairEnv.ulong := by decide
  obtain ⟨own, entry, -, -, ip, -, -, block, found⟩ :=
    auth_agreed pair_sealed word pair_start run
      (rfl : act pairLib pairSite _ (.receive 0 pairChance) = .ok (_, [.returned 0 pairKey]))
      List.mem_cons_self (.nil _) (by decide)
  exact ⟨_, entry, ip, block, found⟩

end Sfs
