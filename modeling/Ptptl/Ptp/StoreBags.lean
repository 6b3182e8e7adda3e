import Ptptl.Ptp.Store

set_option autoImplicit false

/-!
# What a sequence of safe bags yields

The loop of `Import` holds a certificate back until the next bag. Here is its result without the
loop: bags yield their entries in order, and each certificate looks one bag ahead.
-/

namespace Ptp.Store

variable {pki : Pki} {pkcs12 : Pkcs12 pki}

def isKeyBag (bag : Bag pkcs12) : Bool :=
  match bag.value with
  | .keyBag _ => true
  | .shroudedKeyBag _ => true
  | _ => false

def bagKey (passwd : Option CString) (bag : Bag pkcs12) : Option pki.PrivateKey :=
  match bag.value with
  | .keyBag key => key
  | .shroudedKeyBag shrouded => pkcs12.decryptKey shrouded passwd
  | _ => none

def bagCert (bag : Bag pkcs12) : Option pki.Cert :=
  match bag.value with
  | .certBag cert => cert
  | _ => none

def bagSecret (bag : Bag pkcs12) : Option Buffer :=
  match bag.value with
  | .secretBag value => value.octetString.join
  | _ => none

def readable (bag : Bag pkcs12) : Bool :=
  match bag.value with
  | .keyBag _ => true
  | .shroudedKeyBag _ => true
  | .badBag => false
  | .secretBag value =>
    bag.getFriendlyname.isSome && bag.getLocalKeyId.isSome && value.octetString.isSome
  | _ => bag.getFriendlyname.isSome && bag.getLocalKeyId.isSome

def bagFriendly (bag : Bag pkcs12) : Option CString := bag.getFriendlyname.join

def bagId (bag : Bag pkcs12) : Option Buffer := bag.getLocalKeyId.join

def storedId (id : Option Buffer) : Option Buffer := id.filter fun id => id.val ≠ []

def dataPayload (friendly : Option CString) (data : Buffer) : Payload pki :=
  if friendly = some keyFriendly then .key (Block.ofBytes sessionKeySize data.val)
  else .secret data

theorem copyBlock_length (data : Buffer) : copyBlock data.val data.val.length = some data := by
  have other : ¬ ((data.val.length : Int) = -1) := by omega
  have fits : ¬ ((data.val.length : Int) < 0 ∨ (data.val.length : Int) < data.val.length) := by
    omega
  simp [copyBlock, other, data.property]

theorem copyId_idData (id : Option Buffer) : copyId (idData id) (idLength id) = some (storedId id) := by
  cases id with
  | none => rfl
  | some id =>
    change (if (id.val.length : Int) = 0 then some none
      else (copyBlock id.val id.val.length).map some) = _
    by_cases empty : id.val = []
    · simp [empty, storedId, Option.filter]
    · have present : ¬ ((id.val.length : Int) = 0) := by simpa using empty
      rw [if_neg present, copyBlock_length]
      simp [storedId, Option.filter, empty]

theorem ofBytes_take (size : Nat) (bytes : Bytes) :
    Block.ofBytes size (bytes.take (min bytes.length size)) = Block.ofBytes size bytes := by
  apply Subtype.ext
  have front : (bytes.take (min bytes.length size)).take size = bytes.take size := by
    rw [List.take_take, Nat.min_comm bytes.length, ← Nat.min_assoc, Nat.min_self,
      ← List.take_eq_take_min]
  have missing : size - (bytes.take (min bytes.length size)).length = size - bytes.length := by
    rw [List.length_take]
    omega
  simp only [Block.ofBytes, front, missing]

theorem copyData_length (friendly : Option CString) (data : Buffer) :
    copyData friendly data.val data.val.length = some (dataPayload friendly data : Payload pki) := by
  unfold copyData dataPayload
  split
  next =>
    have fits : ¬ (min (data.val.length : Int) sessionKeySize < 0 ∨
        (data.val.length : Int) < min (data.val.length : Int) sessionKeySize) := by omega
    have size : (min (data.val.length : Int) sessionKeySize).toNat =
        min data.val.length sessionKeySize := by omega
    simp only [if_neg fits, size, ofBytes_take]
  next => rw [copyBlock_length, Option.map_some]

def certEntry (passwd : Option CString) (cert : pki.Cert) (friendly : Option CString)
    (id : Option Buffer) (rest : List (Bag pkcs12)) : Entry pki :=
  match rest with
  | [] => ⟨.identity ⟨cert, none⟩ false, friendly, storedId id⟩
  | bag :: _ =>
    if isKeyBag bag then
      ⟨.identity ⟨cert, bagKey passwd bag⟩ (bagKey passwd bag).isSome, friendly, storedId id⟩
    -- the next bag has overwritten friendly and id
    else ⟨.identity ⟨cert, none⟩ false, bagFriendly bag, storedId (bagId bag)⟩

def secretEntry (bag : Bag pkcs12) : Option (Entry pki) :=
  (bagSecret bag).map fun data =>
    ⟨dataPayload (bagFriendly bag) data, bagFriendly bag, storedId (bagId bag)⟩

def bagEntry (passwd : Option CString) (bag : Bag pkcs12) (rest : List (Bag pkcs12)) :
    Option (Entry pki) :=
  match bagCert bag with
  | some cert => some (certEntry passwd cert (bagFriendly bag) (bagId bag) rest)
  | none => secretEntry bag

def yields (passwd : Option CString) : List (Bag pkcs12) → List (Entry pki)
  | [] => []
  | bag :: rest => (bagEntry passwd bag rest).toList ++ yields passwd rest

theorem insertIdentity_eq (list : List (Entry pki)) (ident : Certified pki) (exportkey : Bool)
    (friendly : Option CString) (id : Option Buffer) :
    insertIdentity list ident exportkey friendly (idData id) (idLength id) =
      some (list ++ [⟨.identity ident exportkey, friendly, storedId id⟩]) := by
  simp [insertIdentity, copyId_idData]

theorem insertData_eq (list : List (Entry pki)) (data : Buffer) (friendly : Option CString)
    (id : Option Buffer) :
    insertData list data.val data.val.length friendly (idData id) (idLength id) =
      some (list ++ [⟨dataPayload friendly data, friendly, storedId id⟩]) := by
  simp [insertData, copyData_length, copyId_idData]

/-- The pending certificate as the entry that it becomes in front of `rest`. -/
def ImportState.flush (passwd : Option CString) (state : ImportState pki)
    (rest : List (Bag pkcs12)) : List (Entry pki) :=
  (state.cert.map fun cert => certEntry passwd cert state.friendly state.id rest).toList

theorem insertPending_end (passwd : Option CString) (state : ImportState pki) :
    insertPending state.list state.cert none state.friendly state.id =
      some (state.list ++ state.flush passwd ([] : List (Bag pkcs12))) := by
  cases pending : state.cert with
  | none => simp [insertPending, ImportState.flush, pending]
  | some cert =>
    simp [insertPending, insertIdentity_eq, ImportState.flush, pending, certEntry]

theorem insertPending_key (passwd : Option CString) (state : ImportState pki) (bag : Bag pkcs12)
    (rest : List (Bag pkcs12)) (key : isKeyBag bag = true) :
    insertPending state.list state.cert (bagKey passwd bag) state.friendly state.id =
      some (state.list ++ state.flush passwd (bag :: rest)) := by
  cases pending : state.cert with
  | none => simp [insertPending, ImportState.flush, pending]
  | some cert =>
    simp [insertPending, insertIdentity_eq, ImportState.flush, pending, certEntry, key]

theorem insertPending_other (passwd : Option CString) (state : ImportState pki) (bag : Bag pkcs12)
    (rest : List (Bag pkcs12)) (other : isKeyBag bag = false) :
    insertPending state.list state.cert none (bagFriendly bag) (bagId bag) =
      some (state.list ++ state.flush passwd (bag :: rest)) := by
  cases pending : state.cert with
  | none => simp [insertPending, ImportState.flush, pending]
  | some cert =>
    simp [insertPending, insertIdentity_eq, ImportState.flush, pending, certEntry, other]

theorem bagAttributes_key (passwd : Option CString) (friendly : Option CString)
    (id : Option Buffer) (bag : Bag pkcs12) (key : isKeyBag bag = true) :
    bagAttributes passwd friendly id bag = some (bagKey passwd bag, friendly, id) := by
  unfold isKeyBag at key
  unfold bagAttributes bagKey
  cases value : bag.value <;> simp_all

theorem bagAttributes_other (passwd : Option CString) (friendly : Option CString)
    (id : Option Buffer) (bag : Bag pkcs12) (other : isKeyBag bag = false)
    (read : readable bag = true) :
    bagAttributes passwd friendly id bag = some (none, bagFriendly bag, bagId bag) := by
  unfold isKeyBag at other
  unfold readable at read
  unfold bagAttributes bagFriendly bagId
  cases name : bag.getFriendlyname <;> cases id : bag.getLocalKeyId <;>
    cases value : bag.value <;> simp_all

def ImportState.next (passwd : Option CString) (state : ImportState pki) (bag : Bag pkcs12) :
    ImportState pki where
  list := state.list ++ state.flush passwd [bag] ++ (secretEntry bag).toList
  cert := bagCert bag
  friendly := if isKeyBag bag then state.friendly else bagFriendly bag
  id := if isKeyBag bag then state.id else bagId bag

theorem importBag_key (passwd : Option CString) (state : ImportState pki) (bag : Bag pkcs12)
    (key : isKeyBag bag = true) :
    importBag passwd state bag = some (state.next passwd bag) := by
  simp only [importBag, bagAttributes_key passwd _ _ bag key, Option.bind_eq_bind,
    Option.bind_some, insertPending_key passwd state bag [] key]
  unfold isKeyBag at key
  cases value : bag.value <;>
    simp_all [ImportState.next, importValue, bagCert, secretEntry, bagSecret, isKeyBag]

theorem importBag_other (passwd : Option CString) (state : ImportState pki) (bag : Bag pkcs12)
    (other : isKeyBag bag = false) (read : readable bag = true) :
    importBag passwd state bag = some (state.next passwd bag) := by
  simp only [importBag, bagAttributes_other passwd _ _ bag other read, Option.bind_eq_bind,
    Option.bind_some, insertPending_other passwd state bag [] other, ImportState.next, other,
    importValue, secretEntry, bagSecret, bagCert]
  unfold isKeyBag at other
  unfold readable at read
  cases value : bag.value with
  | keyBag key => simp [value] at other
  | shroudedKeyBag shrouded => simp [value] at other
  | badBag => simp [value] at read
  | certBag cert => simp
  | otherBag => simp
  | secretBag content =>
    have decoded : content.octetString.isSome := by simp_all
    obtain ⟨data, decoded⟩ := Option.isSome_iff_exists.1 decoded
    cases data <;> simp [decoded, insertData_eq]

theorem insertPending_some (list : List (Entry pki)) (cert : Option pki.Cert)
    (key : Option pki.PrivateKey) (friendly : Option CString) (id : Option Buffer) :
    ∃ next, insertPending list cert key friendly id = some next := by
  cases cert with
  | none => exact ⟨list, rfl⟩
  | some cert => exact ⟨_, insertIdentity_eq list ⟨cert, key⟩ key.isSome friendly id⟩

theorem importBag_unreadable (passwd : Option CString) (state : ImportState pki)
    (bag : Bag pkcs12) (unread : readable bag = false) : importBag passwd state bag = none := by
  unfold readable at unread
  unfold importBag
  cases attributes : bagAttributes passwd state.friendly state.id bag with
  | none => rfl
  | some attributes' =>
    obtain ⟨key, friendly, id⟩ := attributes'
    obtain ⟨list, flushed⟩ := insertPending_some state.list state.cert key friendly id
    simp only [Option.bind_eq_bind, Option.bind_some, flushed]
    -- the attributes were read, so what is left to fail is the octet string of a secret bag
    unfold bagAttributes at attributes
    unfold importValue
    cases name : bag.getFriendlyname <;> cases local' : bag.getLocalKeyId <;>
      cases value : bag.value <;> simp_all

theorem importBag_eq (passwd : Option CString) (state : ImportState pki) (bag : Bag pkcs12) :
    importBag passwd state bag = if readable bag then some (state.next passwd bag) else none := by
  cases read : readable bag with
  | false => exact importBag_unreadable passwd state bag read
  | true =>
    cases key : isKeyBag bag with
    | true => exact importBag_key passwd state bag key
    | false => exact importBag_other passwd state bag key read

theorem secretEntry_flush (passwd : Option CString) (state : ImportState pki) (bag : Bag pkcs12)
    (rest : List (Bag pkcs12)) :
    (secretEntry bag).toList ++ (state.next passwd bag).flush passwd rest =
      (bagEntry passwd bag rest).toList := by
  unfold ImportState.flush ImportState.next secretEntry bagEntry bagSecret bagCert isKeyBag
  cases value : bag.value with
  | certBag cert => cases cert <;> simp [secretEntry, bagSecret, value]
  | _ => simp [secretEntry, bagSecret, value]

theorem importBags_run (passwd : Option CString) (bags : List (Bag pkcs12))
    (state : ImportState pki) :
    (do
      let state ← bags.foldlM (importBag passwd) state
      insertPending state.list state.cert none state.friendly state.id) =
    if bags.all readable then
      some (state.list ++ state.flush passwd bags ++ yields passwd bags)
    else none := by
  induction bags generalizing state with
  | nil =>
    simpa [yields] using @insertPending_end pki pkcs12 passwd state
  | cons bag rest ih =>
    rw [List.foldlM_cons, importBag_eq]
    cases read : readable bag with
    | false => simp [read]
    | true =>
      simp only [if_true, Option.bind_eq_bind, Option.bind_some, List.all_cons, read,
        Bool.true_and]
      refine (ih (state.next passwd bag)).trans ?_
      split
      next =>
        have first : state.flush passwd [bag] = state.flush passwd (bag :: rest) := rfl
        have own := secretEntry_flush passwd state bag rest
        simp only [yields, ← own, ← first, List.append_assoc, ImportState.next]
      next => rfl

theorem importBags_eq (passwd : Option CString) (list : List (Entry pki))
    (bags : List (Bag pkcs12)) :
    importBags passwd list bags =
      if bags.all readable then some (list ++ yields passwd bags) else none := by
  simpa [importBags, ImportState.flush] using importBags_run passwd bags { list := list }

def safeBags (passwd : Option CString) (safe : pkcs12.Safe) : List (Bag pkcs12) :=
  (pkcs12.unpack safe passwd).getD []

theorem importSafe_eq (passwd : Option CString) (list : List (Entry pki)) (safe : pkcs12.Safe) :
    importSafe passwd list safe =
      if (safeBags passwd safe).all readable then
        some (list ++ yields passwd (safeBags passwd safe))
      else none := by
  unfold importSafe safeBags
  cases pkcs12.unpack safe passwd with
  | none => simp [yields]
  | some bags => exact importBags_eq passwd list bags

theorem importSafes_eq (passwd : Option CString) (list : List (Entry pki))
    (safes : List pkcs12.Safe) :
    safes.foldlM (importSafe passwd) list =
      if safes.all fun safe => (safeBags passwd safe).all readable then
        some (list ++ safes.flatMap fun safe => yields passwd (safeBags passwd safe))
      else none := by
  induction safes generalizing list with
  | nil => simp
  | cons safe safes ih =>
    rw [List.foldlM_cons, importSafe_eq]
    by_cases read : (safeBags passwd safe).all readable = true
    · simp only [read, if_true, Option.bind_eq_bind, Option.bind_some, ih, List.all_cons,
        Bool.true_and, List.flatMap_cons, List.append_assoc]
    · simp [read]

end Ptp.Store
