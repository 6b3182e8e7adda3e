import Ptptl.Ptp.Pkcs12

set_option autoImplicit false

namespace Ptp

/-- An `Identity` that holds a certificate. -/
structure Certified (pki : Pki) where
  cert : pki.Cert
  key : Option pki.PrivateKey := none

namespace Store

variable {pki : Pki}

inductive Payload (pki : Pki) where
  | identity (ident : Certified pki) (exportkey : Bool)
  | key (data : SessionKey)
  | secret (data : Buffer)

/-- `Store::Entry`; the size of a secret or an id is that of its block. -/
structure Entry (pki : Pki) where
  payload : Payload pki
  friendly : Option CString
  id : Option Buffer

def keyFriendly : CString := ⟨ascii ".KEYDATA.", by decide⟩

/-- A copy of `size` bytes, where -1 stands for the length of a string. -/
def copyBlock (data : Bytes) (size : Int) : Option Buffer :=
  if size = -1 then
    if (0 : Byte) ∈ data then
      if small : (cString data).length < 2147483647 then some ⟨cString data, small⟩ else none
    else none
  else if size < 0 ∨ data.length < size then none
  else if small : (data.take size.toNat).length < 2147483647 then
    some ⟨data.take size.toNat, small⟩
  else none

/-- `entry->id` of the `Insert` functions. -/
def copyId (id : Option Bytes) (idsize : Int) : Option (Option Buffer) :=
  match id with
  | none => some none
  | some id => if idsize = 0 then some none else (copyBlock id idsize).map some

/-- `Insert` of a certificate into a list. -/
def insertIdentity (list : List (Entry pki)) (ident : Certified pki) (exportkey : Bool)
    (friendly : Option CString) (id : Option Bytes) (idsize : Int) : Option (List (Entry pki)) := do
  let id ← copyId id idsize
  some (list ++ [⟨.identity ident exportkey, friendly, id⟩])

def copyData (friendly : Option CString) (data : Bytes) (size : Int) : Option (Payload pki) :=
  if friendly = some keyFriendly then
    let size := min size sessionKeySize
    -- memcpy takes a negative size as a huge one
    if size < 0 ∨ data.length < size then none
    else some (.key (Block.ofBytes sessionKeySize (data.take size.toNat)))
  else (copyBlock data size).map .secret

/-- `Insert` of a key or secret data into a list. -/
def insertData (list : List (Entry pki)) (data : Bytes) (size : Int) (friendly : Option CString)
    (id : Option Bytes) (idsize : Int) : Option (List (Entry pki)) := do
  let payload ← copyData friendly data size
  let id ← copyId id idsize
  some (list ++ [⟨payload, friendly, id⟩])

variable (pkcs12 : Pkcs12 pki)

abbrev Bag := SafeBag pki pkcs12.Shrouded

/-- The local variables of the loop over the bags of a safe. -/
structure ImportState (pki : Pki) where
  list : List (Entry pki)
  cert : Option pki.Cert := none
  friendly : Option CString := none
  id : Option Buffer := none

variable {pkcs12}

/-- The variables `key`, `friendly` and `id` after the first switch. -/
def bagAttributes (passwd : Option CString) (friendly : Option CString) (id : Option Buffer)
    (bag : Bag pkcs12) : Option (Option pki.PrivateKey × Option CString × Option Buffer) :=
  match bag.value with
  | .keyBag key => some (key, friendly, id)
  | .shroudedKeyBag shrouded => some (pkcs12.decryptKey shrouded passwd, friendly, id)
  | .badBag => none
  | _ => do
    let friendly ← bag.getFriendlyname
    let id ← bag.getLocalKeyId
    some (none, friendly, id)

def idData (id : Option Buffer) : Option Bytes := id.map Subtype.val

def idLength (id : Option Buffer) : Int := (id.elim 0 fun id => id.val.length : Nat)

/-- `Insert` of the pending certificate, when there is one. -/
def insertPending (list : List (Entry pki)) (cert : Option pki.Cert) (key : Option pki.PrivateKey)
    (friendly : Option CString) (id : Option Buffer) : Option (List (Entry pki)) :=
  match cert with
  | none => some list
  | some cert => insertIdentity list ⟨cert, key⟩ key.isSome friendly (idData id) (idLength id)

def importValue (list : List (Entry pki)) (friendly : Option CString) (id : Option Buffer)
    (bag : Bag pkcs12) : Option (ImportState pki) :=
  -- a certificate becomes pending, secret data is inserted
  match bag.value with
  | .certBag cert => some { list := list, cert := cert, friendly := friendly, id := id }
  | .secretBag value =>
    match value.octetString with
    | none => none
    | some none => some { list := list, friendly := friendly, id := id }
    | some (some secret) => do
      let list ← insertData list secret.val secret.val.length friendly (idData id) (idLength id)
      some { list := list, friendly := friendly, id := id }
  | _ => some { list := list, friendly := friendly, id := id }

def importBag (passwd : Option CString) (state : ImportState pki) (bag : Bag pkcs12) :
    Option (ImportState pki) := do
  let (key, friendly, id) ← bagAttributes passwd state.friendly state.id bag
  let list ← insertPending state.list state.cert key friendly id
  importValue list friendly id bag

def importBags (passwd : Option CString) (list : List (Entry pki)) (bags : List (Bag pkcs12)) :
    Option (List (Entry pki)) := do
  let state ← bags.foldlM (importBag passwd) { list := list }
  insertPending state.list state.cert none state.friendly state.id

def importSafe (passwd : Option CString) (list : List (Entry pki)) (safe : pkcs12.Safe) :
    Option (List (Entry pki)) :=
  match pkcs12.unpack safe passwd with
  | none => some list
  | some bags => importBags passwd list bags

/-- `Import` from a file into a list. -/
def importFile (file : pkcs12.File) (passwd macpasswd : Option CString) (list : List (Entry pki)) :
    Option (Int × List (Entry pki)) :=
  match pkcs12.decode file with
  | none => some (-1, list)
  | some archive =>
    if pkcs12.verifyMac archive macpasswd then do
      let list ← (pkcs12.unpackAuthsafes archive).foldlM (importSafe passwd) list
      some (0, list)
    else some (-1, list)

/-- The value of the bag that `Export` makes for an entry, with the entry's attributes. -/
def Payload.bagValue : Payload pki → BagValue pki pkcs12.Shrouded
  | .identity ident _ => .certBag (some ident.cert)
  | .key data => .secretBag (.string ⟨data.val, by rw [data.property]; decide⟩)
  | .secret data => .secretBag (.string data)

/-- The private key that `Export` writes after an entry. -/
def Payload.exportedKey : Payload pki → Option pki.PrivateKey
  | .identity ident true => ident.key
  | _ => none

def exportEntry (entry : Entry pki) : List (Bag pkcs12) :=
  { value := entry.payload.bagValue
    friendlyName := entry.friendly.map fun friendly => .bmpString (asc2uni friendly.val)
    localKeyId := entry.id.map .string } ::
  (match entry.payload.exportedKey with
  | some key => [{ value := .keyBag (some key) }]
  | none => [])

def exportBags (list : List (Entry pki)) : List (Bag pkcs12) := list.flatMap exportEntry

def exportSafe (list : List (Entry pki)) (passwd : Option CString) : pkcs12.Safe :=
  match passwd with
  | some passwd => pkcs12.packEncrypted passwd (exportBags list)
  | none => pkcs12.packData (exportBags list)

/-- `Export` of a list to a file; it always returns 0. -/
def exportFile (list : List (Entry pki)) (passwd macpasswd : Option CString) : pkcs12.File :=
  let archive := pkcs12.packAuthsafes [exportSafe list passwd]
  pkcs12.encode (pkcs12.setMac archive macpasswd)

end Store

/-- `Store`, with what its medium holds. -/
structure Store {pki : Pki} (pkcs12 : Pkcs12 pki) where
  path : Bool
  medium : Option pkcs12.File
  passwd : Option CString
  macpasswd : Option CString
  entries : List (Store.Entry pki)

namespace Store

variable {pki : Pki} {pkcs12 : Pkcs12 pki}

def load (store : Store pkcs12) : Option (Int × Store pkcs12) :=
  if store.path then
    match store.medium with
    | none => some (-1, { store with entries := [] })
    | some file => do
      let (status, entries) ← importFile file store.passwd store.macpasswd []
      some (status, { store with entries := entries })
  else some (-1, store)

def save (store : Store pkcs12) : Int × Store pkcs12 :=
  if store.path then
    (0, { store with medium := some (exportFile store.entries store.passwd store.macpasswd) })
  else (-1, store)

/-- `Insert` of a certificate: a private key that is not to be exported is destroyed. -/
def insertIdent (store : Store pkcs12) (ident : Option (Certified pki)) (exportkey : Bool)
    (friendly : Option CString) (id : Option Bytes) (idsize : Int) :
    Option (Int × Store pkcs12) :=
  match ident with
  | none => some (-1, store)
  | some ident => do
    let copy := if exportkey then ident else { ident with key := none }
    let entries ← insertIdentity store.entries copy exportkey friendly id idsize
    some (0, { store with entries := entries })

def insertKey (store : Store pkcs12) (key : Option SessionKey) (id : Option Bytes)
    (idsize : Int) : Option (Int × Store pkcs12) :=
  match key with
  | none => some (-1, store)
  | some key => do
    let entries ← insertData store.entries key.val sessionKeySize (some keyFriendly) id idsize
    some (0, { store with entries := entries })

def insertSecret (store : Store pkcs12) (secret : Option Bytes) (size : Int)
    (friendly : Option CString) (id : Option Bytes) (idsize : Int) :
    Option (Int × Store pkcs12) :=
  match secret with
  | none => some (-1, store)
  | some secret => do
    let entries ← insertData store.entries secret size friendly id idsize
    some (0, { store with entries := entries })

end Store

end Ptp
