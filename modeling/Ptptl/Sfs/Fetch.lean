import Mathlib.Data.List.Nodup
import Ptptl.Ptp.CollectionRuns
import Ptptl.Sfs.Agreement
import Ptptl.Sfs.Page

set_option autoImplicit false

/-! # From a page of search results to the files -/

namespace Sfs

open Ptp Ptp.Collection CInt

variable {pki : Pki} {env : Env pki}

def issued (events : List (Event pki)) : Nat :=
  events.countP fun event =>
    match event with
    | .issued _ _ _ => true
    | .answered _ => false

theorem issued_append (events later : List (Event pki)) :
    issued (events ++ later) = issued events + issued later := List.countP_append

structure Rolled (server : Server pki) (turn : Turn env) (key : Key) : Prop where
  keyid : key.keyid = server.keyid
  number : key.shared.keyid = set32 server.keyid
  shadow : key.shadow = turn.shadow ^^^ turn.shadow2

def Key.Unrolled (key later : Key) : Prop := later = { key with flags := later.flags }

theorem or_rollFlag (flags : Byte) : (flags ||| rollFlag) &&& rollFlag = rollFlag := by
  apply UInt8.eq_of_toBitVec_eq
  simp only [UInt8.toBitVec_and, UInt8.toBitVec_or]
  ext place
  grind

theorem createKey_cases {server next : Server pki} {remote : Certified pki} {turn : Turn env}
    {flags : Byte} {key : Key}
    (created : createKey env server remote turn flags = some (key, next)) : ∃ id,
    (server.keys.find? (isPeer id turn.ip 0) = none ∧ next.keys = key :: server.keys ∧
      key.port = 0 ∧ Rolled server turn key ∧ next.keyid = (server.keyid + 1) % env.ulong) ∨
    ∃ old, server.keys.find? (isPeer id turn.ip 0) = some old ∧
      next.keys = updateFirst (isPeer id turn.ip 0) key server.keys ∧ key.port = old.port ∧
      ((Rolled server turn key ∧ next.keyid = (server.keyid + 1) % env.ulong) ∨
        (old.Unrolled key ∧ next.keyid = server.keyid)) := by
  simp only [createKey, Option.bind_eq_bind, Option.bind_eq_some_iff, Option.some.injEq,
    Prod.mk.injEq] at created
  obtain ⟨id, -, rfl, rfl⟩ := created
  refine ⟨id, ?_⟩
  cases found : server.keys.find? (isPeer id turn.ip 0) with
  | none =>
    have rolls : (flags ||| rollFlag) &&& rollFlag ≠ 0 := by
      rw [or_rollFlag]
      decide
    left
    simp only [Option.isNone_none, if_true, Option.getD_none, if_pos rolls]
    refine ⟨?_, ?_, ?_, ⟨?_, ?_, ?_⟩, ?_⟩ <;> trivial
  | some old =>
    right
    simp only [Option.isNone_some, Bool.false_eq_true, if_false, Option.getD_some]
    refine ⟨old, ?_, ?_, ?_, ?_⟩
    · trivial
    · trivial
    · split <;> rfl
    · by_cases roll : flags &&& rollFlag ≠ 0
      · left
        simp only [if_pos roll]
        refine ⟨⟨?_, ?_, ?_⟩, ?_⟩ <;> trivial
      · right
        simp only [if_neg roll]
        refine ⟨?_, ?_⟩ <;> trivial

theorem handleGet_issued {server : Server pki} {hdr : Bytes} {events : List (Event pki)}
    (handled : handleGet env server hdr = some events) : issued events = 0 := by
  rw [handleGet_lookup] at handled
  obtain ⟨found, -, handled⟩ := Option.bind_eq_some_iff.1 handled
  cases found with
  | none => cases handled; rfl
  | some found =>
    simp only at handled
    split at handled
    next => contradiction
    next =>
      split at handled
      next => cases handled; rfl
      next => cases handled; rfl

theorem handleSearch_issued {server : Server pki} {data : Bytes} {events : List (Event pki)}
    (handled : handleSearch env server data = some events) : issued events = 0 := by
  simp only [handleSearch] at handled
  split at handled
  next => cases handled; rfl
  next key found =>
    obtain ⟨⟨size, plain⟩, -, handled⟩ := Option.bind_eq_some_iff.1 handled
    simp only at handled
    split at handled
    next => cases handled; rfl
    next => cases handled; rfl

theorem handleResp_keys {server next : Server pki} {turn : Turn env} {data : Bytes}
    {events : List (Event pki)} (handled : handleResp env server turn data = some (next, events)) :
    (next.keys = server.keys ∧ next.keyid = server.keyid ∧ issued events = 0) ∨
      ∃ before remote flags key, before.keys = server.keys ∧ before.keyid = server.keyid ∧
        createKey env before remote turn flags = some (key, next) ∧ issued events = 1 := by
  rw [handleResp] at handled
  split at handled
  next => cases handled; exact .inl ⟨rfl, rfl, rfl⟩
  next =>
    dsimp only at handled
    split at handled
    next => cases handled; exact .inl ⟨rfl, rfl, rfl⟩
    next remote answered =>
      cases imported : (localId env).bind fun recipient => env.importEnvelope
          (data.drop (responseSize + Authenticator.challengeSize)) recipient remote with
      | none =>
        rw [imported] at handled
        cases handled
        exact .inl ⟨rfl, rfl, rfl⟩
      | some envelope =>
        rw [imported] at handled
        rcases envelope with _ | ⟨flags, _ | ⟨_, _⟩⟩
        · cases handled
          exact .inl ⟨rfl, rfl, rfl⟩
        · obtain ⟨⟨key, created⟩, creates, same⟩ := Option.bind_eq_some_iff.1 handled
          cases same
          let verified : Server pki := { server with
            auth := (server.auth.verify (some (Block.ofBytes digestSize data)) turn.now).2 }
          exact .inr ⟨verified, remote, flags, key, rfl, rfl, creates, rfl⟩
        · contradiction

theorem step_keys {server next : Server pki} {turn : Turn env} {events : List (Event pki)}
    (stepped : step env server turn = some (next, events)) :
    (next.keys = server.keys ∧ next.keyid = server.keyid ∧ issued events = 0) ∨
      ∃ before remote flags key, before.keys = server.keys ∧ before.keyid = server.keyid ∧
        createKey env before remote turn flags = some (key, next) ∧ issued events = 1 := by
  simp only [step] at stepped
  split at stepped
  next hdr request =>
    obtain ⟨answered, handled, same⟩ := Option.map_eq_some_iff.1 stepped
    cases same
    exact .inl ⟨rfl, rfl, handleGet_issued handled⟩
  next data request =>
    obtain ⟨answered, handled, same⟩ := Option.map_eq_some_iff.1 stepped
    cases same
    exact .inl ⟨rfl, rfl, handleSearch_issued handled⟩
  next data request =>
    obtain ⟨after, handled, same⟩ := Option.map_eq_some_iff.1 stepped
    cases same
    obtain ⟨keys, keyid⟩ := handleAuth_keys handled
    exact .inl ⟨keys, keyid, rfl⟩
  next data request => exact handleResp_keys stepped
  next =>
    cases stepped
    exact .inl ⟨rfl, rfl, rfl⟩

theorem updateFirst_split {which : Key → Bool} {keys : List Key} {old : Key}
    (found : keys.find? which = some old) (new : Key) : ∃ front back,
    keys = front ++ old :: back ∧ updateFirst which new keys = front ++ new :: back := by
  induction keys with
  | nil => simp at found
  | cons head rest ih =>
    by_cases here : which head = true
    next =>
      rw [List.find?_cons_of_pos here, Option.some.injEq] at found
      exact ⟨[], rest, by rw [found]; rfl, by rw [updateFirst, if_pos here]; rfl⟩
    next =>
      rw [List.find?_cons_of_neg here] at found
      obtain ⟨front, back, split, updated⟩ := ih found
      refine ⟨head :: front, back, by rw [split]; rfl, ?_⟩
      rw [updateFirst, if_neg here, updated]
      rfl

theorem updateFirst_append {which : Key → Bool} {front : List Key} {old : Key}
    (found : front.find? which = some old) (new : Key) (back : List Key) :
    updateFirst which new (front ++ back) = updateFirst which new front ++ back := by
  induction front with
  | nil => simp at found
  | cons head rest ih =>
    rw [List.cons_append, updateFirst, updateFirst]
    by_cases here : which head = true
    next => rw [if_pos here, if_pos here, List.cons_append]
    next =>
      rw [List.find?_cons_of_neg here] at found
      rw [if_neg here, if_neg here, ih found, List.cons_append]

structure Key.Numbered (ulong : Nat) (key : Key) : Prop where
  number : key.shared.keyid = set32 key.keyid
  shadow : key.shadow < ulong

/-- The keys of the server that it created, with different numbers below the counter, are in front
of those that it was given. -/
structure Numbering (env : Env pki) (imported made : List Key) (server : Server pki)
    (count : Nat) : Prop where
  keys : server.keys = made ++ imported
  ports : ∀ key ∈ made, key.port = 0
  below : ∀ key ∈ made, key.keyid < server.keyid
  distinct : (made.map Key.keyid).Nodup
  numbered : ∀ key ∈ made, key.Numbered env.ulong
  counter : server.keyid ≤ count

section

variable {imported made : List Key} {server next : Server pki} {turn : Turn env} {count : Nat}
  {key : Key}

theorem Numbering.rolled {front back : List Key} (old : List Key)
    (numbering : Numbering env imported (front ++ old ++ back) server count)
    (room : count + 1 < env.ulong) (rolls : Rolled server turn key) (port : key.port = 0)
    (mask : turn.shadow ^^^ turn.shadow2 < env.ulong)
    (keys : next.keys = front ++ key :: back ++ imported)
    (keyid : next.keyid = (server.keyid + 1) % env.ulong) :
    Numbering env imported (front ++ key :: back) next (count + 1) := by
  have counter := numbering.counter
  have bumped : next.keyid = server.keyid + 1 := by
    rw [keyid, Nat.mod_eq_of_lt (by omega)]
  have inside (other : Key) (member : other ∈ front ++ key :: back) :
      other = key ∨ other ∈ front ++ old ++ back := by
    simp only [List.mem_append, List.mem_cons] at member ⊢
    tauto
  refine ⟨keys, ?_, ?_, ?_, ?_, by omega⟩
  · intro other member
    rcases inside other member with rfl | member
    · exact port
    · exact numbering.ports other member
  · intro other member
    rcases inside other member with rfl | member
    · rw [rolls.keyid]
      omega
    · have less := numbering.below other member
      omega
  · have fresh : ∀ other ∈ front ++ old ++ back, other.keyid ≠ key.keyid := by
      intro other member same
      have less := numbering.below other member
      rw [same, rolls.keyid] at less
      exact absurd less (Nat.lt_irrefl _)
    have fewer : (front ++ back).Sublist (front ++ old ++ back) :=
      (List.sublist_append_left front old).append_right back
    have rest := numbering.distinct.sublist (fewer.map Key.keyid)
    rw [List.map_append, List.map_cons, List.nodup_middle, List.nodup_cons, ← List.map_append]
    refine ⟨fun member => ?_, rest⟩
    obtain ⟨other, member, same⟩ := List.mem_map.1 member
    exact fresh other (fewer.subset member) same
  · intro other member
    rcases inside other member with rfl | member
    · exact ⟨by rw [rolls.number, rolls.keyid], by rw [rolls.shadow]; exact mask⟩
    · exact numbering.numbered other member

theorem Numbering.unrolled {front back : List Key} {old : Key}
    (numbering : Numbering env imported (front ++ old :: back) server count)
    (same : old.Unrolled key) (keys : next.keys = front ++ key :: back ++ imported)
    (keyid : next.keyid = server.keyid) :
    Numbering env imported (front ++ key :: back) next count := by
  have inside (other : Key) (member : other ∈ front ++ key :: back) :
      ∃ before ∈ front ++ old :: back, before.Unrolled other := by
    simp only [List.mem_append, List.mem_cons] at member
    rcases member with member | rfl | member
    · exact ⟨other, by simp [member], rfl⟩
    · exact ⟨old, by simp, same⟩
    · exact ⟨other, by simp [member], rfl⟩
  have number : key.keyid = old.keyid := by rw [same]
  refine ⟨keys, ?_, ?_, ?_, ?_, keyid ▸ numbering.counter⟩
  · intro other member
    obtain ⟨before, known, same⟩ := inside other member
    rw [same]
    exact numbering.ports before known
  · intro other member
    obtain ⟨before, known, same⟩ := inside other member
    rw [keyid, same]
    exact numbering.below before known
  · have distinct := numbering.distinct
    rw [List.map_append, List.map_cons] at distinct ⊢
    rw [number]
    exact distinct
  · intro other member
    obtain ⟨before, known, same⟩ := inside other member
    have numbered := numbering.numbered before known
    rw [same]
    exact ⟨numbered.number, numbered.shadow⟩

theorem Numbering.createKey (numbering : Numbering env imported made server count)
    (ports : ∀ key ∈ imported, key.port ≠ 0) (room : count + 1 < env.ulong)
    (mask : turn.shadow ^^^ turn.shadow2 < env.ulong) {remote : Certified pki} {flags : Byte}
    (created : createKey env server remote turn flags = some (key, next)) :
    ∃ made', Numbering env imported made' next (count + 1) := by
  obtain ⟨id, cases_⟩ := createKey_cases created
  rcases cases_ with ⟨_, keys, port, rolls, keyid⟩ | ⟨old, found, keys, port, rest⟩
  next =>
    have all : next.keys = [] ++ key :: made ++ imported := by
      rw [keys, numbering.keys]
      rfl
    have before : Numbering env imported ([] ++ [] ++ made) server count := numbering
    exact ⟨_, before.rolled [] room rolls port mask all keyid⟩
  next =>
    have own : made.find? (isPeer id turn.ip 0) = some old := by
      rw [numbering.keys, List.find?_append] at found
      cases inside : made.find? (isPeer id turn.ip 0) with
      | some other => simpa [inside] using found
      | none =>
        rw [inside, Option.none_or] at found
        have unowned := (isPeer_iff.1 (List.find?_some found)).2.1
        exact absurd unowned (ports old (List.mem_of_find?_eq_some found))
    obtain ⟨front, back, split, updated⟩ := updateFirst_split own key
    have all : next.keys = front ++ key :: back ++ imported := by
      rw [keys, numbering.keys, updateFirst_append own, updated]
    subst split
    have zero : key.port = 0 := port.trans (numbering.ports old (by simp))
    rcases rest with ⟨rolls, keyid⟩ | ⟨same, keyid⟩
    next =>
      have before : Numbering env imported (front ++ [old] ++ back) server count := by
        rw [List.append_assoc]
        exact numbering
      exact ⟨_, before.rolled [old] room rolls zero mask all keyid⟩
    next =>
      have kept := numbering.unrolled same all keyid
      exact ⟨_, { kept with counter := Nat.le_succ_of_le kept.counter }⟩

theorem Numbering.step (numbering : Numbering env imported made server count)
    (ports : ∀ key ∈ imported, key.port ≠ 0) (mask : turn.shadow ^^^ turn.shadow2 < env.ulong)
    {events : List (Event pki)} (room : count + issued events < env.ulong)
    (stepped : step env server turn = some (next, events)) :
    ∃ made', Numbering env imported made' next (count + issued events) := by
  rcases step_keys stepped with ⟨keys, keyid, none⟩ | ⟨before, remote, flags, key, keys, keyid,
    created, one⟩
  next =>
    rw [none]
    exact ⟨made, { numbering with
      keys := keys.trans numbering.keys
      below := keyid ▸ numbering.below
      counter := keyid ▸ numbering.counter }⟩
  next =>
    rw [one] at room ⊢
    have same : Numbering env imported made before count := { numbering with
      keys := keys.trans numbering.keys
      below := keyid ▸ numbering.below
      counter := keyid ▸ numbering.counter }
    exact same.createKey ports room mask created

theorem Numbering.share {turns : List (Turn env)} : ∀ {made : List Key} {server last : Server pki}
    {count : Nat} {events : List (Event pki)},
    Numbering env imported made server count → (∀ key ∈ imported, key.port ≠ 0) →
    (∀ turn ∈ turns, turn.shadow ^^^ turn.shadow2 < env.ulong) →
    count + issued events < env.ulong → share env server turns = some (last, events) →
    ∃ made', Numbering env imported made' last (count + issued events) := by
  induction turns with
  | nil =>
    intro made server last count events numbering _ _ _ shared
    simp only [Sfs.share, Option.some.injEq, Prod.mk.injEq] at shared
    obtain ⟨rfl, rfl⟩ := shared
    exact ⟨made, numbering⟩
  | cons turn turns ih =>
    intro made server last count events numbering ports masks room shared
    simp only [Sfs.share, Option.bind_eq_bind, Option.bind_eq_some_iff, Option.some.injEq,
      Prod.mk.injEq] at shared
    obtain ⟨⟨next, before⟩, stepped, ⟨last, later⟩, shared, rfl, rfl⟩ := shared
    rw [issued_append, ← Nat.add_assoc] at room ⊢
    dsimp only at room shared ⊢
    obtain ⟨made', middle⟩ := numbering.step ports (masks turn List.mem_cons_self) (by omega) stepped
    exact ih middle ports (fun turn member => masks turn (List.mem_cons_of_mem _ member)) room shared

end

/-! # The request -/

theorem getLine_plain (ip port : Nat) (key : Key) (entry : Entry) :
    Http.Plain (getLine (fileUrl ip port key entry)) := by
  have digits (value : Nat) : Http.Plain (hexPadded value) := by
    intro char member
    have low := UInt8.le_iff_toNat_le.1 (xdigit_low (hexPadded_isxdigit value char member))
    refine ⟨?_, ?_, ?_⟩ <;>
    · rintro rfl
      exact absurd low (by decide)
  have get : Http.Plain (ascii "GET /") := by decide
  have between : Http.Plain [slash] := by decide
  have version : Http.Plain (ascii " HTTP/1.0") := by decide
  rw [getLine_fileUrl]
  exact get.append ((digits _).append (between.append ((digits _).append version)))

theorem hexPadded_short {value : Nat} (small : value < 18446744073709551616) :
    (hexPadded value).length ≤ 16 := by
  have digits : (Nat.toDigits 16 value).length ≤ 16 :=
    (Nat.length_toDigits_le_iff (by decide) (by decide)).2 small
  have same : (hexText value).length = (Nat.toDigits 16 value).length := List.length_map _
  rw [hexPadded, List.length_append, List.length_replicate]
  omega

theorem getLine_short (ip port : Nat) {key : Key} {entry : Entry}
    (number : key.shared.keyid < 18446744073709551616)
    (masked : entry.id ^^^ key.shadow < 18446744073709551616) :
    (Http.linesText [getLine (fileUrl ip port key entry)] ++ Http.crlf).length < 100 := by
  have one := hexPadded_short number
  have two := hexPadded_short masked
  have method : (ascii "GET /").length = 5 := rfl
  have version : (ascii " HTTP/1.0").length = 9 := rfl
  have crlf : Http.crlf.length = 2 := rfl
  simp only [Http.linesText, List.flatMap_cons, List.flatMap_nil, List.append_nil, getLine_fileUrl,
    List.length_append, List.length_cons]
  omega

/-- What happens to a URL: the request for it is sent whole, and a server that reads it looks up the
key and the entry. -/
def Fetches (env : Env pki) (server : Server pki) (url : Bytes) (key : Key) (entry : Entry) : Prop :=
  ∀ sender : Connection, sender.sent.Willing → sender.sent.accepted = [] →
    ∃ sent, Http.writeRequest sender none (some (ascii "GET")) (urlPath url) none none none 0 =
        some (0, sent) ∧
      ∀ (after : Bytes) (receiver : Connection), receiver.socket.Clean →
        receiver.remaining = sent.sent.accepted ++ after →
        ∃ hdr next, Http.readHttpHdr env.ulong receiver false (-1) = some (some hdr, next) ∧
          lookup env server hdr.text = some (some (key, entry))

theorem fetches_lookup {server : Server pki} {ip port : Nat} {key found : Key}
    {entry other : Entry} (number : key.shared.keyid < 18446744073709551616)
    (masked : entry.id ^^^ key.shadow < 18446744073709551616)
    (looked : lookup env server (getLine (fileUrl ip port key entry) ++ Http.crlf ++ Http.crlf) =
      some (some (found, other))) :
    Fetches env server (fileUrl ip port key entry) found other := by
  intro sender willing fresh
  let line := getLine (fileUrl ip port key entry)
  have text : Http.headerText line [] (ascii "application/binary") 0 =
      Http.linesText [line] ++ Http.crlf := by
    simp [Http.headerText, Http.linesText]
  have short : (Http.linesText [line] ++ Http.crlf).length < 100 :=
    getLine_short ip port number masked
  have whole : wrap (Http.linesText [line] ++ Http.crlf).length =
      (Http.linesText [line] ++ Http.crlf).length :=
    wrap_of_le (by unfold intMin; omega) (by unfold intMax; omega)
  obtain ⟨sent, written, accepted, -⟩ := sender.writeAll_correct willing
    (Http.linesText [line] ++ Http.crlf) (Int.le_refl _)
  refine ⟨sent, ?_, ?_⟩
  · have asked : Http.requestLine none ((some (ascii "GET")).getD (ascii "PUT"))
        ((urlPath (fileUrl ip port key entry)).getD (ascii "/tunnel")) = line := rfl
    have sized : ¬ (0 : Int) = -1 := by decide
    simp only [Http.writeRequest, Http.sendHttp, asked, Option.getD_none, if_neg sized, text, whole,
      written, Option.bind_eq_bind, Option.bind_some, Option.pure_def]
    simp
  · intro after receiver clean same
    rw [accepted, fresh, List.nil_append, Int.toNat_natCast, List.take_length] at same
    have plain : Http.PlainLines [line] := by
      intro other member
      obtain rfl := List.mem_singleton.1 member
      refine ⟨getLine_plain ip port key entry, ?_⟩
      simp only [line, getLine_fileUrl]
      exact List.append_ne_nil_of_left_ne_nil (by decide) _
    obtain ⟨next, read, -, -⟩ := Http.readHttpHdr_correct env.ulong plain (by simp)
      (Nat.lt_trans short (by decide)) receiver after same clean
    refine ⟨_, next, read, ?_⟩
    have lines : Http.linesText [line] = line ++ Http.crlf := by simp [Http.linesText]
    rw [lines]
    exact looked

theorem searchPage_text {server : Server pki} {ip port : Nat} {data : Bytes} {page : Page}
    (made : searchPage env ip port server data = some (some page)) :
    page.text = pageText ip port page.key page.entries ∧
      ∀ entry ∈ page.entries, entry ∈ env.collect.entries := by
  simp only [searchPage] at made
  split at made
  next => simp at made
  next key found =>
    obtain ⟨⟨size, plain⟩, -, made⟩ := Option.bind_eq_some_iff.1 made
    simp only at made
    split at made
    next => simp at made
    next =>
      split at made
      next => simp at made
      next =>
        simp only [Option.some.injEq] at made
        subst made
        exact ⟨rfl, fun entry member => (List.mem_filter.1 member).1⟩

theorem Numbering.findKey {imported made : List Key} {server : Server pki} {count : Nat} {key : Key}
    (numbering : Numbering env imported made server count) (member : key ∈ made)
    (few : count < 4294967296) :
    findKey server.keys key.shared.keyid = some key ∧ key.shared.keyid < 4294967296 := by
  have below := numbering.below key member
  have counter := numbering.counter
  have number : key.shared.keyid = key.keyid := by
    rw [(numbering.numbered key member).number]
    exact Nat.mod_eq_of_lt (by omega)
  rw [number]
  refine ⟨?_, by omega⟩
  rw [Sfs.findKey, numbering.keys]
  refine find?_only member (beq_self_eq_true _) ?_
  intro other inside same
  exact List.inj_on_of_nodup_map numbering.distinct inside member (beq_iff_eq.1 same)

theorem find_listed {collect : Collection} {entry : Entry}
    (distinct : (collect.entries.map Entry.id).Nodup) (member : entry ∈ collect.entries) :
    collect.find entry.id = some entry := by
  have all : collect.entries ++ [] = collect.entries := List.append_nil _
  rw [Collection.find, ← all]
  refine find?_only member (decide_eq_true rfl) ?_
  intro other inside same
  exact List.inj_on_of_nodup_map distinct inside member (of_decide_eq_true same)

theorem xor_lt_ulong (word : env.ulong = 4294967296 ∨ env.ulong = 18446744073709551616)
    {one two : Nat} (first : one < env.ulong) (second : two < env.ulong) :
    one ^^^ two < env.ulong := by
  have power : ∃ bits, env.ulong = 2 ^ bits := by
    rcases word with word | word
    · exact ⟨32, word⟩
    · exact ⟨64, word⟩
  obtain ⟨bits, power⟩ := power
  rw [power] at first second ⊢
  exact Nat.xor_lt_two_pow first second

theorem fileLink_page (ip port : Nat) (key : Key) {entries : List Entry} {entry : Entry}
    (listed : entry ∈ entries) : fileLink ip port key entry <:+: pageText ip port key entries := by
  obtain ⟨front, back, rfl⟩ := List.append_of_mem listed
  refine ⟨ascii "<HTML>\n" ++ front.flatMap (fileLink ip port key),
    back.flatMap (fileLink ip port key) ++ ascii "</HTML>\n", ?_⟩
  simp [pageText]

/-- As long as neither counter has wrapped, a listed entry is fetched under the key of its page. -/
theorem search_fetched {start server later : Server pki} {turns more : List (Turn env)}
    {events events' : List (Event pki)} {ip port : Nat} {data : Bytes} {page : Page} {key : Key}
    {entry : Entry} (word : env.ulong = 4294967296 ∨ env.ulong = 18446744073709551616)
    (imported : Imported env start.keys) (keyid : start.keyid = 0)
    (masks : ∀ turn ∈ turns ++ more, turn.shadow < env.ulong ∧ turn.shadow2 < env.ulong)
    (ids : ∀ entry ∈ env.collect.entries, entry.id < env.ulong)
    (distinct : (env.collect.entries.map Entry.id).Nodup)
    (shared : share env start turns = some (server, events))
    (made : searchPage env ip port server data = some (some page)) (own : page.key.port = 0)
    (listed : entry ∈ page.entries)
    (shared' : share env server more = some (later, events'))
    (few : issued events + issued events' < 4294967296)
    (kept : key ∈ later.keys) (unrolled : page.key.Unrolled key) :
    fileLink ip port page.key entry <:+: page.text ∧
      Fetches env later (fileUrl ip port page.key entry) key entry := by
  obtain ⟨text, collected⟩ := searchPage_text made
  refine ⟨text ▸ fileLink_page ip port page.key listed, ?_⟩
  have wide : 4294967296 ≤ env.ulong := by omega
  have narrow : env.ulong ≤ 18446744073709551616 := by omega
  have masked (turn : Turn env) (member : turn ∈ turns ++ more) :
      turn.shadow ^^^ turn.shadow2 < env.ulong :=
    xor_lt_ulong word (masks turn member).1 (masks turn member).2
  -- the keys that the server made up to the search, and up to the request
  have first : Numbering env start.keys [] start 0 :=
    ⟨rfl, by simp, by simp, by simp, by simp, by omega⟩
  obtain ⟨made', middle⟩ := first.share imported.ports
    (fun turn member => masked turn (List.mem_append_left _ member)) (by omega) shared
  rw [Nat.zero_add] at middle
  obtain ⟨all, last⟩ := middle.share imported.ports
    (fun turn member => masked turn (List.mem_append_right _ member)) (by omega) shared'
  have member : key ∈ all := by
    rw [last.keys, List.mem_append] at kept
    refine kept.resolve_right fun other => imported.ports key other ?_
    rw [unrolled]
    exact own
  obtain ⟨found, number⟩ := last.findKey member few
  have shadow : key.shadow = page.key.shadow := by rw [unrolled]
  have same : key.shared = page.key.shared := by rw [unrolled]
  rw [same] at found number
  have mask : entry.id ^^^ page.key.shadow < env.ulong := by
    rw [← shadow]
    exact xor_lt_ulong word (ids entry (collected entry listed)) (last.numbered key member).shadow
  have entry' : env.collect.find entry.id = some entry :=
    find_listed distinct (collected entry listed)
  refine fetches_lookup (by omega) (by omega) ?_
  rw [lookup_getLine env later ip port (by omega) mask, found]
  simp only [shadow, xor_cancel, entry', Option.map_some]

def noteEnv (collect : Collection) : Env duoPki := { duoEnv with collect := collect }

def noteTurn (collect : Collection) (now : Nat) (request : Request (noteEnv collect)) :
    Turn (noteEnv collect) where
  ip := 1
  now := now
  request := request
  nonce := Block.zero _
  shadow := 5
  key := Block.zero _
  shadow2 := 0

def noteVisit (collect : Collection) : List (Turn (noteEnv collect)) :=
  [noteTurn collect 10 (.auth (duoArchive 1)), noteTurn collect 20 (.resp (List.replicate 149 0))]

def starSearch : Bytes := List.replicate 12 0 ++ 42 :: List.replicate 20 0

def noteKey : Key where
  id := duoEnv.modulus (1 : Nat)
  ip := 1
  shadow := 5
  shared := { keyid := 0, shadow := 5, key := Block.zero _ }

def fileOf (name : Byte) (named : name ≠ 0) : Entry where
  content := .file ⟨[name], by simpa using named.symm⟩ 1

def oneFile : Collection := { id := 1, entries := [fileOf 97 (by decide)] }

theorem noteTurn_masks (collect : Collection) : ∀ turn ∈ noteVisit collect ++ [],
    turn.shadow < (noteEnv collect).ulong ∧ turn.shadow2 < (noteEnv collect).ulong := by
  intro turn member
  have five : 5 < 4294967296 ∧ 0 < 4294967296 := by decide
  simp only [noteVisit, List.append_nil, List.mem_cons, List.not_mem_nil, or_false] at member
  rcases member with rfl | rfl <;> exact five

set_option maxRecDepth 4000 in
theorem starSearch_page {collect : Collection} {server : Server duoPki}
    (keys : server.keys = [noteKey])
    (short : (pageText 1 80 noteKey (collect.findPat [42])).length ≤ 2020) :
    searchPage (noteEnv collect) 1 80 server starSearch = some (some
      ⟨noteKey, collect.findPat [42], pageText 1 80 noteKey (collect.findPat [42])⟩) := by
  have found : findKey server.keys (get32 starSearch) = some noteKey := by
    rw [keys]
    rfl
  have decrypted : ∃ plain, Key.decrypt duoEnv.cipher noteKey.shared.key (some (starSearch.drop 4))
      ((starSearch.length : Int) - 4) true true true = some (1, plain) ∧ cString plain = [42] :=
    ⟨_, rfl, rfl⟩
  obtain ⟨plain, decrypted, pattern⟩ := decrypted
  have fits : ¬ pageSize <
      (pageText 1 80 noteKey (collect.findPat [42])).length + Key.overhead true true := by
    have overhead : Key.overhead true true = 28 := rfl
    rw [overhead, pageSize]
    omega
  have decrypted' : Key.decrypt (noteEnv collect).cipher noteKey.shared.key
      (some (starSearch.drop 4)) ((starSearch.length : Int) - 4) true true true =
        some (1, plain) := decrypted
  have collected : (noteEnv collect).collect = collect := rfl
  simp only [searchPage, found, decrypted', collected, pattern, Option.bind_eq_bind,
    Option.bind_some, if_neg fits]
  rfl

set_option maxRecDepth 4000 in
theorem oneFile_share : ∃ server,
    share (noteEnv oneFile) {} (noteVisit oneFile) =
        some (server, [.issued 20 ⟨(1 : Nat), none⟩ noteKey]) ∧
      server.keys = [noteKey] := by
  refine ⟨_, rfl, ?_⟩
  rfl

set_option maxRecDepth 4000 in
theorem search_fetched_file : ∃ server page,
    share (noteEnv oneFile) {} (noteVisit oneFile) =
        some (server, [.issued 20 ⟨(1 : Nat), none⟩ noteKey]) ∧
      searchPage (noteEnv oneFile) 1 80 server starSearch = some (some page) ∧
      page.entries = oneFile.entries ∧
      Fetches (noteEnv oneFile) server (fileUrl 1 80 noteKey (fileOf 97 (by decide))) noteKey
        (fileOf 97 (by decide)) := by
  obtain ⟨server, shared, keys⟩ := oneFile_share
  have listed : oneFile.findPat [42] = oneFile.entries := by decide
  have made := starSearch_page keys (by rw [listed]; decide)
  have kept : noteKey ∈ server.keys := by simp [keys]
  have member : fileOf 97 (by decide) ∈ oneFile.findPat [42] := by
    rw [listed]
    exact List.mem_cons_self
  have word : (noteEnv oneFile).ulong = 4294967296 ∨
    (noteEnv oneFile).ulong = 18446744073709551616 := .inl rfl
  have fetched := search_fetched word .nil rfl (noteTurn_masks oneFile) (by decide) (by decide)
    shared made rfl member rfl (by decide) kept rfl
  exact ⟨server, _, shared, made, listed, fetched.2⟩

theorem fetches_other {env : Env pki} {server : Server pki} {url : Bytes} {key other : Key}
    {entry later : Entry} (one : Fetches env server url key entry)
    (two : Fetches env server url other later) : key = other ∧ entry = later := by
  let sender : Connection := { unget := [], socket := [], sent := { accepted := [], plan := [] } }
  have willing : sender.sent.Willing := ⟨by simp [sender], by simp [sender]⟩
  obtain ⟨sent, written, reads⟩ := one sender willing rfl
  obtain ⟨sent', written', reads'⟩ := two sender willing rfl
  rw [written] at written'
  cases written'
  let receiver : Connection := { sender with unget := sent.sent.accepted }
  have same : receiver.remaining = sent.sent.accepted ++ [] := rfl
  obtain ⟨hdr, next, read, looked⟩ := reads [] receiver rfl same
  obtain ⟨hdr', next', read', looked'⟩ := reads' [] receiver rfl same
  rw [read] at read'
  cases read'
  rw [looked] at looked'
  cases looked'
  exact ⟨rfl, rfl⟩

def twoFiles : Collection :=
  { id := 1, entries := [fileOf 98 (by decide), { content := Counted.note }] }

set_option maxRecDepth 4000 in
theorem twoFiles_share : ∃ server,
    share (noteEnv twoFiles) {} (noteVisit twoFiles) =
        some (server, [.issued 20 ⟨(1 : Nat), none⟩ noteKey]) ∧
      server.keys = [noteKey] := by
  refine ⟨_, rfl, ?_⟩
  rfl

theorem twoFiles_run : ∃ turns, Runs.Run (Counted.step 4294967296) {} turns
    { collect := twoFiles, size := 2 } := by
  let two : Counted :=
    { collect := { id := 0, entries :=
        [{ id := 4294967295, content := Counted.note }, { content := Counted.note }] }
      size := 2 }
  have first : Counted.step 4294967296 {} (.add Counted.note none) =
      .ok (Counted.noted 1, [{ content := Counted.note }]) := rfl
  have second : Counted.step 4294967296 (Counted.noted (1 + 4294967294)) (.add Counted.note none) =
      .ok (two, [{ id := 4294967295, content := Counted.note }]) := rfl
  have gone : Counted.step 4294967296 two (.destroy 0) = .ok (Counted.noted 0, []) := rfl
  have third : Counted.step 4294967296 (Counted.noted 0) (.add (fileOf 98 (by decide)).content none) =
      .ok ({ collect := twoFiles, size := 2 }, [fileOf 98 (by decide)]) := rfl
  obtain ⟨turns, run⟩ := Counted.ids_used 4294967294 1 (by decide)
    (.cons second (.cons gone (.cons third (.nil _))))
  exact ⟨_, .cons first run⟩

set_option maxRecDepth 4000 in
/-- An id that the counter gave twice is that of the later file. -/
theorem search_other : ¬ ∀ (env : Env duoPki) (start server later : Server duoPki)
    (turns more : List (Turn env)) (events events' : List (Event duoPki)) (ip port : Nat)
    (data : Bytes) (page : Page) (key : Key) (entry : Entry),
    env.ulong = 4294967296 → Imported env start.keys → start.keyid = 0 →
    (∀ turn ∈ turns ++ more, turn.shadow < env.ulong ∧ turn.shadow2 < env.ulong) →
    (∃ ops size, Runs.Run (Counted.step env.ulong) {} ops { collect := env.collect, size := size }) →
    share env start turns = some (server, events) →
    searchPage env ip port server data = some (some page) → page.key.port = 0 →
    entry ∈ page.entries → share env server more = some (later, events') →
    key ∈ later.keys → page.key.Unrolled key →
    Fetches env later (fileUrl ip port page.key entry) key entry := by
  intro fetched
  obtain ⟨server, shared, keys⟩ := twoFiles_share
  obtain ⟨ops, run⟩ := twoFiles_run
  have listed : twoFiles.findPat [42] = twoFiles.entries := by decide
  have made := starSearch_page keys (by rw [listed]; decide)
  have kept : noteKey ∈ server.keys := by simp [keys]
  have member : ({ content := Counted.note } : Entry) ∈ twoFiles.findPat [42] := by
    rw [listed]
    exact List.mem_cons_of_mem _ List.mem_cons_self
  have one := fetched (noteEnv twoFiles) {} server server (noteVisit twoFiles) [] _ _ 1 80 starSearch _
    noteKey { content := Counted.note } rfl .nil rfl (noteTurn_masks twoFiles) ⟨ops, 2, run⟩ shared
    made rfl member rfl kept rfl
  have two : Fetches (noteEnv twoFiles) server (fileUrl 1 80 noteKey { content := Counted.note })
      noteKey (fileOf 98 (by decide)) := by
    have number : noteKey.shared.keyid < 4294967296 := by decide
    have masked : 0 ^^^ noteKey.shadow < 4294967296 := by decide
    have found : findKey server.keys noteKey.shared.keyid = some noteKey := by
      rw [keys]
      rfl
    refine fetches_lookup (Nat.lt_trans number (by decide)) (Nat.lt_trans masked (by decide)) ?_
    rw [lookup_getLine (noteEnv twoFiles) server 1 80 number masked, found]
    rfl
  have same := (fetches_other one two).2
  exact absurd same (by decide)

end Sfs
