import Ptptl.Ptp.StoreBags

set_option autoImplicit false

/-! # Saving a store and loading it again -/

namespace Ptp.Store

variable {pki : Pki} {pkcs12 : Pkcs12 pki}

def emptyName : CString := ⟨[], List.not_mem_nil⟩

def emptyId : Buffer := ⟨[], by decide⟩

theorem sessionKey_small (data : SessionKey) : data.val.length < 2147483647 := by
  rw [data.property]
  decide

def keyBuffer (data : SessionKey) : Buffer := ⟨data.val, sessionKey_small data⟩

def Payload.written : Payload pki → Payload pki
  | .identity ident exportkey =>
    let key := (Payload.identity ident exportkey).exportedKey
    .identity ⟨ident.cert, key⟩ key.isSome
  | .key data => .key data
  | .secret data => .secret data

/-- The payload that `Import` makes again: the friendly name tells a key from a secret. -/
def Entry.reloadedPayload (entry : Entry pki) : Payload pki :=
  match entry.payload with
  | .identity ident exportkey => (Payload.identity ident exportkey).written
  | .key data => dataPayload entry.friendly (keyBuffer data)
  | .secret data => dataPayload entry.friendly data

def Entry.attributes (entry : Entry pki) : Option CString × Option Buffer :=
  (entry.friendly, entry.id)

def Entry.bare (entry : Entry pki) : Bool :=
  match entry.payload with
  | .identity ident exportkey => (Payload.identity ident exportkey).exportedKey.isNone
  | _ => false

/-- The entry whose friendly name and id an entry in front of `rest` comes back with. -/
def Entry.owner (entry : Entry pki) (rest : List (Entry pki)) : Entry pki :=
  match rest with
  | [] => entry
  | next :: _ => if entry.bare then next else entry

/-- The entries that `Import` makes of what `Export` wrote. -/
def reloaded : List (Entry pki) → List (Entry pki)
  | [] => []
  | entry :: rest =>
    ⟨entry.reloadedPayload, (entry.owner rest).friendly, storedId (entry.owner rest).id⟩ ::
      reloaded rest

def headBag (entry : Entry pki) : Bag pkcs12 where
  value := entry.payload.bagValue
  friendlyName := entry.friendly.map fun friendly => .bmpString (asc2uni friendly.val)
  localKeyId := entry.id.map .string

def keyBags (entry : Entry pki) : List (Bag pkcs12) :=
  match entry.payload.exportedKey with
  | some key => [{ value := .keyBag (some key) }]
  | none => []

theorem exportEntry_eq (entry : Entry pki) :
    exportEntry entry = (headBag entry : Bag pkcs12) :: keyBags entry := rfl

theorem getFriendlyname_headBag (entry : Entry pki) :
    (headBag entry : Bag pkcs12).getFriendlyname =
      if entry.friendly = some emptyName then none else some entry.friendly := by
  unfold headBag SafeBag.getFriendlyname
  cases name : entry.friendly with
  | none => rfl
  | some friendly =>
    have empty : friendly.val = [] ↔ friendly = emptyName := by
      rw [Subtype.ext_iff]
      rfl
    simp only [Option.map_some, uni2asc_asc2uni, empty, Option.some.injEq]
    split <;> rfl

theorem getLocalKeyId_headBag (entry : Entry pki) :
    (headBag entry : Bag pkcs12).getLocalKeyId = some entry.id := by
  unfold headBag SafeBag.getLocalKeyId
  cases entry.id <;> rfl

theorem bagFriendly_headBag {entry : Entry pki} (named : entry.friendly ≠ some emptyName) :
    bagFriendly (headBag entry : Bag pkcs12) = entry.friendly := by
  simp [bagFriendly, getFriendlyname_headBag, named]

theorem bagId_headBag (entry : Entry pki) : bagId (headBag entry : Bag pkcs12) = entry.id := by
  simp [bagId, getLocalKeyId_headBag]

theorem isKeyBag_headBag (entry : Entry pki) : isKeyBag (headBag entry : Bag pkcs12) = false := by
  unfold isKeyBag headBag
  cases entry.payload <;> rfl

theorem readable_exportEntry (entry : Entry pki) :
    (exportEntry entry : List (Bag pkcs12)).all readable =
      decide (entry.friendly ≠ some emptyName) := by
  have keys : (keyBags entry : List (Bag pkcs12)).all readable = true := by
    unfold keyBags
    split <;> rfl
  have head : readable (headBag entry : Bag pkcs12) =
      ((headBag entry : Bag pkcs12).getFriendlyname.isSome) := by
    unfold readable
    rw [getLocalKeyId_headBag]
    simp only [headBag]
    cases entry.payload <;> simp [Payload.bagValue, Asn1Value.octetString]
  rw [exportEntry_eq, List.all_cons, keys, head, getFriendlyname_headBag, Bool.and_true]
  split <;> simp_all

theorem readable_exportBags (list : List (Entry pki)) :
    (exportBags list : List (Bag pkcs12)).all readable =
      decide (∀ entry ∈ list, entry.friendly ≠ some emptyName) := by
  unfold exportBags
  rw [List.all_flatMap]
  simp only [readable_exportEntry]
  rw [Bool.eq_iff_iff]
  simp

theorem certEntry_exportBags (passwd : Option CString) (cert : pki.Cert)
    (friendly : Option CString) (id : Option Buffer) {rest : List (Entry pki)}
    (named : ∀ entry ∈ rest, entry.friendly ≠ some emptyName) :
    certEntry passwd cert friendly id (exportBags rest : List (Bag pkcs12)) =
      match rest with
      | [] => ⟨.identity ⟨cert, none⟩ false, friendly, storedId id⟩
      | next :: _ => ⟨.identity ⟨cert, none⟩ false, next.friendly, storedId next.id⟩ := by
  cases rest with
  | nil => rfl
  | cons next rest =>
    simp [exportBags, exportEntry_eq, certEntry, isKeyBag_headBag, bagId_headBag,
      bagFriendly_headBag (named next List.mem_cons_self)]

theorem Entry.owner_own {entry : Entry pki} (full : entry.bare = false) (rest : List (Entry pki)) :
    entry.owner rest = entry := by
  cases rest <;> simp [Entry.owner, full]

theorem bagEntry_headBag (passwd : Option CString) (entry : Entry pki) {rest : List (Entry pki)}
    (named : ∀ other ∈ entry :: rest, other.friendly ≠ some emptyName) :
    bagEntry passwd (headBag entry : Bag pkcs12) (keyBags entry ++ exportBags rest) =
      some ⟨entry.reloadedPayload, (entry.owner rest).friendly,
        storedId (entry.owner rest).id⟩ := by
  have friendly : bagFriendly (headBag entry : Bag pkcs12) = entry.friendly :=
    bagFriendly_headBag (named entry List.mem_cons_self)
  have later := fun other member => named other (List.mem_cons_of_mem entry member)
  unfold bagEntry secretEntry
  rw [friendly, bagId_headBag]
  cases payload : entry.payload with
  | key data =>
    have full : entry.bare = false := by simp [Entry.bare, payload]
    simp [bagCert, headBag, bagSecret, Payload.bagValue, payload, Entry.owner_own full,
      Entry.reloadedPayload, Asn1Value.octetString, keyBuffer]
  | secret data =>
    have full : entry.bare = false := by simp [Entry.bare, payload]
    simp [bagCert, headBag, bagSecret, Payload.bagValue, payload, Entry.owner_own full,
      Entry.reloadedPayload, Asn1Value.octetString]
  | identity ident exportkey =>
    have cert : bagCert (headBag entry : Bag pkcs12) = some ident.cert := by
      simp [bagCert, headBag, Payload.bagValue, payload]
    cases exported : (Payload.identity ident exportkey).exportedKey with
    | some key =>
      have full : entry.bare = false := by simp [Entry.bare, payload, exported]
      simp [cert, keyBags, payload, exported, certEntry, isKeyBag, bagKey, Entry.owner_own full,
        Entry.reloadedPayload, Payload.written]
    | none =>
      have bare : entry.bare = true := by simp [Entry.bare, payload, exported]
      have alone : (keyBags entry : List (Bag pkcs12)) = [] := by simp [keyBags, payload, exported]
      simp only [cert, alone, List.nil_append, certEntry_exportBags passwd _ _ _ later]
      cases rest with
      | nil => simp [Entry.owner, Entry.reloadedPayload, payload, Payload.written, exported]
      | cons next rest =>
        simp [Entry.owner, bare, Entry.reloadedPayload, payload, Payload.written, exported]

theorem yields_exportBags (passwd : Option CString) {list : List (Entry pki)}
    (named : ∀ entry ∈ list, entry.friendly ≠ some emptyName) :
    yields passwd (exportBags list : List (Bag pkcs12)) = reloaded list := by
  induction list with
  | nil => rfl
  | cons entry rest ih =>
    have later := fun other member => named other (List.mem_cons_of_mem entry member)
    have split : (exportBags (entry :: rest) : List (Bag pkcs12)) =
        headBag entry :: (keyBags entry ++ exportBags rest) := rfl
    have keys : yields passwd (keyBags entry ++ exportBags rest : List (Bag pkcs12)) =
        reloaded rest := by
      unfold keyBags
      cases entry.payload.exportedKey with
      | none => exact ih later
      | some key => exact ih later
    rw [split, yields, keys, reloaded, bagEntry_headBag passwd entry named]
    rfl

theorem safeBags_exportSafe (lawful : pkcs12.Lawful) (list : List (Entry pki))
    (passwd : Option CString) :
    safeBags passwd (exportSafe list passwd : pkcs12.Safe) = exportBags list := by
  unfold safeBags exportSafe
  cases passwd with
  | none => rw [lawful.data, Option.getD_some]
  | some passwd => rw [lawful.encrypted, Option.getD_some]

theorem importFile_exportFile (lawful : pkcs12.Lawful) (list : List (Entry pki))
    (passwd macpasswd : Option CString) :
    importFile (exportFile list passwd macpasswd : pkcs12.File) passwd macpasswd [] =
      if ∀ entry ∈ list, entry.friendly ≠ some emptyName then some (0, reloaded list)
      else none := by
  unfold importFile exportFile
  simp only [lawful.file, lawful.mac, if_true, lawful.authsafes, importSafes_eq,
    safeBags_exportSafe lawful, List.all_cons, List.all_nil, Bool.and_true, List.flatMap_cons,
    List.flatMap_nil, List.append_nil, List.nil_append, readable_exportBags, decide_eq_true_eq]
  by_cases named : ∀ entry ∈ list, entry.friendly ≠ some emptyName
  · rw [if_pos named, if_pos named, yields_exportBags passwd named]
    rfl
  · rw [if_neg named, if_neg named]
    rfl

theorem load_save (lawful : pkcs12.Lawful) (store : Store pkcs12) (path : store.path = true) :
    store.save.2.load =
      if ∀ entry ∈ store.entries, entry.friendly ≠ some emptyName then
        some (0, { store.save.2 with entries := reloaded store.entries })
      else none := by
  simp only [save, path, if_true, load, importFile_exportFile lawful]
  split <;> rfl

theorem storedId_ne (id : Option Buffer) : storedId id ≠ some emptyId := by
  cases id with
  | none => simp [storedId]
  | some id =>
    simp only [storedId, Option.filter]
    split
    next present =>
      intro same
      rw [Option.some.injEq] at same
      simp [same, emptyId] at present
    next => simp

theorem storedId_eq {id : Option Buffer} : storedId id = id ↔ id ≠ some emptyId := by
  constructor
  · intro same
    rw [← same]
    exact storedId_ne id
  · intro present
    cases id with
    | none => rfl
    | some id =>
      have nonempty : id.val ≠ [] := by
        intro empty
        exact present (congrArg some (Subtype.ext empty))
      simp [storedId, Option.filter, nonempty]

/-- No certificate without its private key precedes an entry of other attributes. -/
def Undisturbed (list : List (Entry pki)) : Prop :=
  list.IsChain fun entry next => entry.bare = true → next.attributes = entry.attributes

theorem reloaded_attributes (list : List (Entry pki)) :
    (reloaded list).map Entry.attributes = list.map Entry.attributes ↔
      (∀ entry ∈ list, entry.id ≠ some emptyId) ∧ Undisturbed list := by
  induction list with
  | nil => simp [reloaded, Undisturbed]
  | cons entry rest ih =>
    simp only [reloaded, List.map_cons, List.cons.injEq, ih, List.forall_mem_cons]
    cases rest with
    | nil =>
      have head : Entry.attributes ⟨entry.reloadedPayload, entry.friendly, storedId entry.id⟩ =
          entry.attributes ↔ entry.id ≠ some emptyId := by
        simp [Entry.attributes, storedId_eq]
      simp [Entry.owner, Undisturbed, head]
    | cons next rest =>
      simp only [Undisturbed, List.isChain_cons_cons, List.forall_mem_cons]
      by_cases kept : next.id ≠ some emptyId
      next =>
        have same : storedId next.id = next.id := storedId_eq.2 kept
        cases bare : entry.bare with
        | false =>
          simp [Entry.owner, bare, Entry.attributes, storedId_eq, and_assoc]
        | true =>
          have moves : next.attributes = entry.attributes → entry.id ≠ some emptyId := by
            intro equal
            have ids : next.id = entry.id := congrArg Prod.snd equal
            exact ids ▸ kept
          simp only [Entry.owner, bare, if_true, same, forall_const]
          constructor
          · rintro ⟨equal, ids, chain⟩
            exact ⟨⟨moves equal, ids⟩, equal, chain⟩
          · rintro ⟨⟨-, ids⟩, equal, chain⟩
            exact ⟨equal, ids, chain⟩
      next => simp [kept]

theorem attributes_survive_iff (lawful : pkcs12.Lawful) (list : List (Entry pki))
    (passwd macpasswd : Option CString) :
    (∃ copy, importFile (exportFile list passwd macpasswd : pkcs12.File) passwd macpasswd [] =
        some (0, copy) ∧ copy.map Entry.attributes = list.map Entry.attributes) ↔
      (∀ entry ∈ list, entry.friendly ≠ some emptyName ∧ entry.id ≠ some emptyId) ∧
        Undisturbed list := by
  rw [importFile_exportFile lawful]
  constructor
  · rintro ⟨copy, loaded, same⟩
    split at loaded
    next named =>
      simp only [Option.some.injEq, Prod.mk.injEq, true_and] at loaded
      subst loaded
      obtain ⟨ids, undisturbed⟩ := (reloaded_attributes list).1 same
      exact ⟨fun entry member => ⟨named entry member, ids entry member⟩, undisturbed⟩
    next => simp at loaded
  · rintro ⟨present, undisturbed⟩
    have named := fun entry member => (present entry member).1
    have ids := fun entry member => (present entry member).2
    exact ⟨reloaded list, if_pos named, (reloaded_attributes list).2 ⟨ids, undisturbed⟩⟩

def plainPkcs12 (pki : Pki) : Pkcs12 pki where
  Shrouded := pki.PrivateKey
  File := List (Option CString × List (SafeBag pki pki.PrivateKey)) × Option (Option CString)
  Archive := List (Option CString × List (SafeBag pki pki.PrivateKey)) × Option (Option CString)
  Safe := Option CString × List (SafeBag pki pki.PrivateKey)
  decryptKey key _ := some key
  packData bags := (none, bags)
  packEncrypted passwd bags := (some passwd, bags)
  unpack safe passwd := if safe.1 = none ∨ safe.1 = passwd then some safe.2 else none
  packAuthsafes safes := (safes, none)
  unpackAuthsafes archive := archive.1
  setMac archive macpasswd := (archive.1, some macpasswd)
  verifyMac archive macpasswd := archive.2 = some macpasswd
  encode := id
  decode := some

theorem plainPkcs12_lawful (pki : Pki) : (plainPkcs12 pki).Lawful where
  data _ _ := by simp [plainPkcs12]
  encrypted _ _ := by simp [plainPkcs12]
  authsafes _ _ := rfl
  mac _ _ := by simp [plainPkcs12]
  file _ := rfl

def doe : CString := ⟨ascii "Doe", by decide⟩

def johnDoe (exportkey : Bool) : List (Entry plainPki) :=
  [⟨.identity ⟨(), some ()⟩ exportkey, some ⟨ascii "John Doe", by decide⟩,
      some ⟨ascii "1234", by decide⟩⟩,
    ⟨.secret ⟨ascii "John", by decide⟩, some doe, none⟩]

theorem john_small : (ascii "John").length < 2147483647 := by decide

theorem johnDoe_named (exportkey : Bool) :
    ∀ entry ∈ johnDoe exportkey, entry.friendly ≠ some emptyName := by
  intro entry member
  rcases List.mem_cons.1 member with rfl | member
  · cases exportkey <;> decide
  · rw [List.mem_singleton.1 member]
    decide

theorem attributes_survive_exported : ∃ copy,
    importFile (exportFile (johnDoe true) none none : (plainPkcs12 plainPki).File) none none [] =
      some (0, copy) ∧ copy.map Entry.attributes = (johnDoe true).map Entry.attributes := by
  refine (attributes_survive_iff (plainPkcs12_lawful plainPki) _ none none).2 ⟨?_, ?_⟩
  · intro entry member
    refine ⟨johnDoe_named true entry member, ?_⟩
    rcases List.mem_cons.1 member with rfl | member
    · decide
    · rw [List.mem_singleton.1 member]
      decide
  · exact List.isChain_cons_cons.2 ⟨by decide, List.IsChain.singleton _⟩

/-- The certificate comes back under the secret's name. -/
theorem attributes_misplaced :
    (importFile (exportFile (johnDoe false) none none : (plainPkcs12 plainPki).File) none none
      []).map (fun result => result.2.map Entry.friendly) = some [some doe, some doe] ∧
    (johnDoe false).map Entry.friendly ≠ [some doe, some doe] := by
  rw [importFile_exportFile (plainPkcs12_lawful plainPki), if_pos (johnDoe_named false)]
  exact ⟨rfl, by decide⟩

end Ptp.Store
