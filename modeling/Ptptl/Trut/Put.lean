import Ptptl.Ptp.Http
import Ptptl.Ptp.Identity
import Ptptl.Ptp.Key
import Ptptl.Trut.Groups

set_option autoImplicit false

/-! # The file server -/

namespace Trut

open Ptp Ptp.Collection CInt Chunked

inductive Body (Id : Type) where
  | plain (data : Bytes)
  | encrypted (key : SessionKey) (data : Bytes)
  -- RSA, for the holder of a certificate
  | sealed (id : Id) (data : Bytes)

inductive Reply (Id : Type) where
  | notFound
  | ok (header : Bytes) (entry : Entry) (body : Body Id)
  -- the file that the header announces does not open
  | cut (header : Bytes)

/-- What `fopen` finds at a path, for the size and for the data. -/
structure Disk where
  atSize : CString → Option (Source Byte)
  atData : CString → Option (Source Byte)

inductive Request where
  | get (ref : Nat)
  | gets (group : Bytes) (ref : Nat)
  | other
deriving DecidableEq

/-- A group name that no slash ends is written through the NULL of `strchr`. -/
def parseRequest (ulong : Nat) (hdr : Bytes) : Option Request :=
  if ascii "GET /get/" <+: hdr then
    some (.get (strtoul ulong (hdr.drop (ascii "GET /get/").length)))
  else if ascii "GET /gets/" <+: hdr then
    let start := hdr.drop (ascii "GET /gets/").length
    let name := start.takeWhile (· ≠ slash)
    if slash ∈ start then some (.gets name (strtoulHex ulong (start.drop (name.length + 1))))
    else none
  else some .other

def isKey (name : Bytes) : Bool :=
  ascii "/secure/" <+: name && afterLast slash name == some (ascii "key")

/-- The result of `Encrypt` for the size of its output; -1 when a read fails. -/
def encryptedSize (source : Source Byte) : Int :=
  if source.failures = 0 then wrap (source.contents.length + Key.overhead true true : Nat) else -1

section

variable {Id : Type} (getName : Id → Option CString)

def Group.rejects (group : Group) (id : Option Id) : Bool :=
  match group.accept, id with
  | some accept, some id => accept (getName id) == 0
  | _, _ => false

variable (disk : Disk)

def contentLength (entry : Entry) (key : Option SessionKey) (id : Option Id) : Option Int :=
  match id, key, entry.content with
  | some _, _, _ => some Identity.ciphertextSize
  | none, some _, .file path _ => (disk.atSize path).map encryptedSize
  | none, some _, .data _ data =>
    some (if wrap data.length ≤ 0 then -1
      else wrap (data.length + Key.overhead true true : Nat))
  | none, none, _ => some (wrap entry.getSize)

def okHeader (size : Int) (resp : Bytes) : Bytes :=
  ascii "HTTP 200" ++ Http.crlf ++ ascii "Content-type:application/binary" ++ Http.crlf ++
    ascii "Content-length:" ++ printInt size ++ Http.crlf ++ cString resp ++ Http.crlf

/-- The part of `PutThread` from `get data size` on. -/
def sendEntry (resp : Bytes) (entry : Entry) (key : Option SessionKey) (id : Option Id) :
    Reply Id :=
  match contentLength disk entry key id with
  | none => .notFound
  | some size =>
    let header := okHeader size resp
    match entry.content with
    | .file path _ =>
      match disk.atData path with
      | none => .cut header
      | some source =>
        match key with
        | some key => .ok header entry (.encrypted key source.contents)
        | none => .ok header entry (.plain source.contents)
    | .data _ data =>
      match id, key with
      | some id, _ => .ok header entry (.sealed id data)
      | none, some key => .ok header entry (.encrypted key data)
      | none, none => .ok header entry (.plain data)

/-- `PutThread` after `ReadHttpHdr` has read `hdr`; `resp` and `id` are the results of `PutAuth`. -/
def putThread (ulong : Nat) (trut : Trut) (hdr resp : Bytes) (id : Option Id) :
    Option (Reply Id) :=
  match parseRequest ulong hdr with
  | none => none
  | some .other => some .notFound
  | some (.get ref) =>
    match trut.collect.find ref with
    | none => some .notFound
    | some entry => some (sendEntry disk resp entry none id)
  | some (.gets name ref) =>
    match trut.findGroup name with
    | none => some .notFound
    | some group =>
      match group.key with
      | none => some .notFound
      | some key =>
        match trut.collect.find ref with
        -- GetName of a NULL
        | none => none
        | some entry =>
          some (if isKey entry.getName.val then
              if group.rejects getName id then .notFound else sendEntry disk resp entry none id
            else sendEntry disk resp entry (some key) id)

def Accepts (trut : Trut) (name : CString) (id : Id) : Prop :=
  ∀ group, trut.findGroup name.val = some group → group.rejects getName (some id) = false

/-- A group's key goes only to a client it accepts, and what is shared with a group only under its
key. -/
def Authorized (trut : Trut) (id : Option Id) : Reply Id → Prop
  | .ok _ entry body =>
    (∀ name, entry.getName = keyName name → ∃ client data, id = some client ∧
      body = .sealed client data ∧ Accepts getName trut name client) ∧
    ((∀ name, entry.getName ≠ keyName name) → ∀ ref, entry.context = some ref →
      ∃ group key data, trut.group ref = some group ∧ group.key = some key ∧
        body = .encrypted key data)
  | _ => True

def Opens (path : CString) (key : Option SessionKey) (id : Option Id) : Prop :=
  (key.isSome → id.isNone → (disk.atSize path).isSome) ∧ (disk.atData path).isSome

/-- What has to hold of the entry that a request selects under the URL's group and its key. -/
def Permitted (trut : Trut) (id : Option Id) (entry : Entry) (url : Option (Group × SessionKey)) :
    Prop :=
  match entry.content with
  | .data _ _ => ∃ client, id = some client ∧
    ((∃ group key, url = some (group, key) ∧ group.rejects getName id = true) ∨
      ∀ name, entry.getName = keyName name → Accepts getName trut name client)
  | .file path _ => Opens disk path (url.map Prod.snd) id →
    ∀ ref, entry.context = some ref → ∃ group key, trut.group ref = some group ∧
      group.key = some key ∧ url.map Prod.snd = some key

/-- The condition on a request: what it selects is permitted. -/
def Proper (ulong : Nat) (trut : Trut) (hdr : Bytes) (id : Option Id) : Prop :=
  match parseRequest ulong hdr with
  | some (.get ref) =>
    ∀ entry, trut.collect.find ref = some entry → Permitted getName disk trut id entry none
  | some (.gets name ref) =>
    ∀ group, trut.findGroup name = some group → ∀ key, group.key = some key →
      ∀ entry, trut.collect.find ref = some entry →
        Permitted getName disk trut id entry (some (group, key))
  | _ => True

end

theorem isKey_keyName (name : CString) : isKey (keyName name).val = true := by
  have tail : slash ∉ ascii "key" := by decide
  have last : afterLast slash (keyName name).val = some (ascii "key") :=
    afterLast_append slash (ascii "/secure/" ++ name.val) tail
  have front : ascii "/secure/" <+: (keyName name).val :=
    ⟨name.val ++ ascii "/key", (List.append_assoc _ _ _).symm⟩
  simp [isKey, last, front]

theorem isKey_plain {name : Bytes} (plain : slash ∉ name) : isKey name = false := by
  simp [isKey, afterLast_none.2 plain]

section

variable {Id : Type} (getName : Id → Option CString) (disk : Disk)

theorem authorized_data {trut : Trut} {entry : Entry} {group : CString} {data : Bytes}
    (content : entry.content = .data (keyName group) data) (resp : Bytes) (id : Option Id) :
    Authorized getName trut id (sendEntry disk resp entry none id) ↔
      ∃ client, id = some client ∧
        ∀ name, entry.getName = keyName name → Accepts getName trut name client := by
  have named : entry.getName = keyName group := by simp [Entry.getName, content]
  cases id with
  | none =>
    simp only [sendEntry, contentLength, content, Authorized]
    constructor
    · rintro ⟨keys, -⟩
      obtain ⟨client, -, none, -⟩ := keys group named
      simp at none
    · rintro ⟨client, none, -⟩
      simp at none
  | some client =>
    simp only [sendEntry, contentLength, content, Authorized]
    constructor
    · rintro ⟨keys, -⟩
      refine ⟨client, rfl, ?_⟩
      intro name same
      obtain ⟨other, _, equal, -, accepts⟩ := keys name same
      rw [Option.some.injEq] at equal
      exact equal ▸ accepts
    · rintro ⟨other, equal, accepts⟩
      rw [Option.some.injEq] at equal
      subst equal
      constructor
      · intro name same
        exact ⟨client, data, rfl, rfl, accepts name same⟩
      · intro unnamed
        exact absurd named (unnamed group)

theorem authorized_file {trut : Trut} {entry : Entry} {path : CString} {size : Nat}
    (content : entry.content = .file path size) (resp : Bytes) (key : Option SessionKey)
    (id : Option Id) :
    Authorized getName trut id (sendEntry disk resp entry key id) ↔
      (Opens disk path key id → ∀ ref, entry.context = some ref →
        ∃ group own, trut.group ref = some group ∧ group.key = some own ∧ key = some own) := by
  have unnamed (name : CString) : entry.getName ≠ keyName name := by
    intro same
    have plain := baseName_plain path
    have base : entry.getName = baseName path := by simp [Entry.getName, content]
    rw [← base, same] at plain
    exact plain (slash_keyName name)
  -- nothing but the file itself can be sent, and it is sent under `key` or as it is
  cases found : disk.atData path with
  | none =>
    refine iff_of_true ?_ (fun opens => by simp [Opens, found] at opens)
    cases length : contentLength disk entry key id <;>
      simp [sendEntry, content, found, Authorized, length]
  | some source =>
    by_cases sized : key.isSome → id.isNone → (disk.atSize path).isSome
    next =>
      have opens : Opens disk path key id := ⟨sized, by simp [found]⟩
      have length : (contentLength disk entry key id).isSome := by
        cases id <;> cases key <;> simp_all [contentLength]
      obtain ⟨size, length⟩ := Option.isSome_iff_exists.1 length
      simp only [sendEntry, length, content, found, opens, forall_const]
      cases key with
      | none => simp [Authorized, unnamed]
      | some key => simp [Authorized, unnamed, eq_comm]
    next =>
      have closed : ¬ Opens disk path key id := fun opens => sized opens.1
      have length : contentLength disk entry key id = none := by
        cases id <;> cases key <;> simp_all [contentLength]
      simp [sendEntry, length, Authorized, closed]

theorem isKey_file {entry : Entry} {path : CString} {size : Nat}
    (content : entry.content = .file path size) : isKey entry.getName.val = false := by
  have base : entry.getName = baseName path := by simp [Entry.getName, content]
  exact base ▸ isKey_plain (baseName_plain path)

theorem permitted_get {trut : Trut} {entry : Entry} (shares : Shares entry) (resp : Bytes)
    (id : Option Id) :
    Authorized getName trut id (sendEntry disk resp entry none id) ↔
      Permitted getName disk trut id entry none := by
  unfold Permitted
  unfold Shares at shares
  cases content : entry.content with
  | file path size => simpa using authorized_file getName disk content resp none id
  | data name data =>
    rw [content] at shares
    obtain ⟨group, rfl⟩ := shares
    simpa using authorized_data getName disk content resp id

theorem permitted_gets {trut : Trut} {entry : Entry} (shares : Shares entry) (resp : Bytes)
    (id : Option Id) (group : Group) (key : SessionKey) :
    Authorized getName trut id
        (if isKey entry.getName.val then
          if group.rejects getName id then .notFound else sendEntry disk resp entry none id
        else sendEntry disk resp entry (some key) id) ↔
      Permitted getName disk trut id entry (some (group, key)) := by
  unfold Permitted
  unfold Shares at shares
  cases content : entry.content with
  | file path size =>
    rw [isKey_file content]
    exact authorized_file getName disk content resp (some key) id
  | data name data =>
    rw [content] at shares
    obtain ⟨owner, rfl⟩ := shares
    have named : entry.getName = keyName owner := by simp [Entry.getName, content]
    rw [named, isKey_keyName, if_pos rfl]
    cases rejects : group.rejects getName id with
    | true =>
      refine iff_of_true trivial ?_
      cases id with
      | none => simp [Group.rejects] at rejects
      | some client => exact ⟨client, rfl, .inl ⟨group, key, rfl, rejects⟩⟩
    | false =>
      rw [if_neg (by simp), authorized_data getName disk content, named]
      constructor
      · rintro ⟨client, same, accepts⟩
        exact ⟨client, same, .inr accepts⟩
      · rintro ⟨client, same, ⟨other, _, equal, contrary⟩ | accepts⟩
        · simp only [Option.some.injEq, Prod.mk.injEq] at equal
          rw [← equal.1, rejects] at contrary
          simp at contrary
        · exact ⟨client, same, accepts⟩

/-- In every reachable state and for every request and result of the authentication, the reply is
authorized exactly when the request is proper. -/
theorem putThread_authorized_iff {ulong : Nat} {trut : Trut} (reachable : Reachable ulong trut)
    (hdr resp : Bytes) (id : Option Id) :
    (∀ reply, putThread getName disk ulong trut hdr resp id = some reply →
        Authorized getName trut id reply) ↔
      Proper getName disk ulong trut hdr id := by
  have shares {ref : Nat} {entry : Entry} (found : trut.collect.find ref = some entry) :
      Shares entry :=
    reachable.shares entry (List.mem_of_find?_eq_some found)
  unfold putThread Proper
  cases parseRequest ulong hdr with
  | none => simp
  | some request =>
    cases request with
    | other => simp [Authorized]
    | get ref =>
      cases found : trut.collect.find ref with
      | none => simp [found, Authorized]
      | some entry =>
        simp only [found, Option.some.injEq, forall_eq']
        exact permitted_get getName disk (shares found) resp id
    | gets name ref =>
      cases named : trut.findGroup name with
      | none => simp [named, Authorized]
      | some group =>
        simp only [named, Option.some.injEq, forall_eq']
        cases keyed : group.key with
        | none => simp [Authorized]
        | some key =>
          simp only [Option.some.injEq, forall_eq']
          cases found : trut.collect.find ref with
          | none => simp
          | some entry =>
            simp only [Option.some.injEq, forall_eq']
            exact permitted_gets getName disk (shares found) resp id group key

end

def friends : CString := ⟨ascii "friends", by decide⟩

def joined : Trut := (({} : Trut).joinGroup friends none).joinCreate 4294967296 0 (Block.zero _)

theorem joined_reachable : Reachable 4294967296 joined :=
  .joinCreate (.joinGroup .start friends none) 0 (Block.zero _)

def noDisk : Disk := ⟨fun _ => none, fun _ => none⟩

theorem putThread_authorized_client : ∃ reply,
    putThread (fun _ : Unit => none) noDisk 4294967296 joined
        (ascii "GET /gets/friends/0000 HTTP/1.0") [] (some ()) = some reply ∧
      Authorized (fun _ => none) joined (some ()) reply := by
  have proper : Proper (fun _ : Unit => none) noDisk 4294967296 joined
      (ascii "GET /gets/friends/0000 HTTP/1.0") (some ()) := by
    intro group found key keyed entry selected
    have content : entry.content = .data (keyName friends) (Block.zero sessionKeySize).val := by
      rw [← Option.some.inj selected]
    unfold Permitted
    rw [content]
    refine ⟨(), rfl, .inr ?_⟩
    intro name _ owner named
    have only : owner ∈ joined.groups := List.mem_of_find?_eq_some named
    rw [List.mem_singleton.1 only]
    rfl
  exact ⟨_, rfl, (putThread_authorized_iff (fun _ : Unit => none) noDisk joined_reachable
    (ascii "GET /gets/friends/0000 HTTP/1.0") [] (some ())).2 proper _ rfl⟩

/-- The group's key goes in clear to a client that never authenticated. -/
theorem putThread_key_in_clear : ∃ header entry,
    putThread (fun _ : Unit => none) noDisk 4294967296 joined (ascii "GET /get/0/key HTTP/1.0") []
        none = some (.ok header entry (.plain (Block.zero sessionKeySize).val)) ∧
      entry.getName = keyName friends :=
  ⟨_, _, rfl, rfl⟩

end Trut
