import Ptptl.Ptp.Encode
import Ptptl.Ptp.Key
import Ptptl.Trut.Gnutella
import Ptptl.Trut.Groups

set_option autoImplicit false

/-! # Search packets -/

namespace Trut

open Ptp Ptp.Collection CInt

namespace Gnutella

/-- `sizeof(SearchRqst)` up to `search`. -/
def searchOffset : Nat := 25

def guid (packet : Bytes) : Bytes := packet.take 16

def payload (packet : Bytes) : Bytes := packet.drop headerSize

def set16 (value : Nat) : Bytes := [value.toUInt8, (value / 256).toUInt8]

def set32 (value : Nat) : Bytes :=
  [value.toUInt8, (value / 256).toUInt8, (value / 65536).toUInt8, (value / 16777216).toUInt8]

def packet (guid : Bytes) (type : Byte) (payload : Bytes) : Bytes :=
  guid ++ [type, 7, 0] ++ set32 payload.length ++ payload

def searchRqst (guid str : Bytes) : Bytes := packet guid 0x80 (set16 0 ++ str ++ [0, 0])

/-- `rqst->search`; without a NUL it is read past the packet. -/
def searchText (rqst : Bytes) : Option Bytes :=
  let text := rqst.drop searchOffset
  if 0 ∈ text then some (cString text) else none

structure SearchEntry where
  ref : Nat
  size : Nat
  name : Bytes
deriving DecidableEq

/-- `sizeof(SearchEntry)`, whose name counts two bytes. -/
def entrySize : Nat := 10

def SearchEntry.write (entry : SearchEntry) : Bytes :=
  set32 entry.ref ++ set32 entry.size ++ entry.name ++ [0, 0]

/-- The entries that the walk by `GetNext` meets; `none` when it leaves the packet. -/
def readEntries : Nat → Bytes → Option (List SearchEntry)
  | 0, _ => some []
  | count + 1, bytes =>
    let text := bytes.drop 8
    if 0 ∈ text then do
      let name := cString text
      let entry := ⟨get32 (bytes.take 4), get32 ((bytes.drop 4).take 4), name⟩
      let rest ← readEntries count (bytes.drop (entrySize + name.length))
      some (entry :: rest)
    else none

end Gnutella

open Gnutella

/-- Memory that an operation must not touch: a group that was left, a NULL key, and the rest. -/
inductive Fault where
  | left (ref : Nat)
  | keyless (ref : Nat)
  | undefined
deriving DecidableEq

def orUndefined {α : Type} : Option α → Except Fault α
  | none => .error .undefined
  | some value => .ok value

/-- `group->m_key`, used. -/
def Group.useKey (group : Group) : Except Fault SessionKey :=
  match group.key with
  | none => .error (.keyless group.ref)
  | some key => .ok key

def deref (trut : Trut) (ref : Nat) : Except Fault Group :=
  match trut.group ref with
  | none => .error (.left ref)
  | some group => .ok group

theorem orUndefined_ok {α : Type} {option : Option α} {value : α} :
    orUndefined option = .ok value ↔ option = some value := by
  cases option with
  | none => simp [orUndefined]
  | some other => simp [orUndefined]

theorem useKey_ok {group : Group} {key : SessionKey} :
    group.useKey = .ok key ↔ group.key = some key := by
  cases found : group.key with
  | none => simp [Group.useKey, found]
  | some other => simp [Group.useKey, found]

theorem deref_ok {trut : Trut} {ref : Nat} {group : Group} :
    trut.deref ref = .ok group ↔ trut.group ref = some group := by
  cases found : trut.group ref with
  | none => simp [deref, found]
  | some other => simp [deref, found]

def securePrefix : Bytes := ascii "/secure/"

/-- What a search string asks for. -/
inductive Target where
  | invalid
  | all (key : Bool)
  -- the entries of a group, by an encrypted pattern
  | secure (group : Group) (cipher : Bytes)

/-- The first part of `HandleSearchRequest`. -/
def target (trut : Trut) (str : Bytes) : Target :=
  if securePrefix <+: str then
    let start := str.drop securePrefix.length
    let name := start.takeWhile (· ≠ slash)
    let rest := start.drop (name.length + 1)
    if slash ∉ start then .invalid
    else if rest = ascii "key" then .all true
    else
      match trut.findGroup name with
      | none => .all false
      | some group => .secure group rest
  else .all false

section

variable (evp : Cipher)

/-- The pattern of a request to a group; `none` when its decryption fails. -/
def decryptPattern (group : Group) (cipher : Bytes) : Except Fault (Option Bytes) := do
  let key ← group.useKey
  let plain := Encoding.decodeBase64 cipher
  let (size, plain) ← orUndefined (Key.decrypt evp key (some plain) plain.length true true true)
  if size < 0 then return none
  return some (cString plain)

/-- What the answer to a request depends on besides the collection: the peer's address, and the
random bytes of the trailer and of the encryption. -/
structure Answering where
  ip : Nat
  port : Nat
  trailer : Bytes
  iv : Iv

def searchEntry (key : Bool) (entry : Entry) : SearchEntry :=
  { ref := entry.id, size := entry.getSize, name := if key then ascii "key" else entry.getName.val }

def answerPayload (answering : Answering) (entries : List SearchEntry) : Bytes :=
  [entries.length.toUInt8] ++ set16 answering.port ++ (set32 answering.ip).reverse ++ set32 0 ++
    entries.flatMap SearchEntry.write ++ answering.trailer

/-- The second part of `HandleSearchRequest`: the packet to send, unless nothing is found. -/
def answer (trut : Trut) (answering : Answering) (guid pattern : Bytes) (key : Bool)
    (group : Option Group) : Except Fault (Option Bytes) :=
  let entries := (trut.collect.findPat pattern).filter
    fun entry => entry.context = group.map Group.ref
  let payload := answerPayload answering (entries.map (searchEntry key))
  if entries = [] then .ok none
  else
    match group with
    | none => .ok (some (packet guid 0x81 payload))
    | some group => do
      let key ← group.useKey
      let (_, payload) ← orUndefined
        (Key.encrypt evp key (some payload) payload.length true true true answering.iv)
      return some (packet guid 0x81 payload)

def handleSearchRequest (trut : Trut) (answering : Answering) (rqst : Bytes) :
    Except Fault (Option Bytes) := do
  let str ← orUndefined (searchText rqst)
  match target trut str with
  | .invalid => return none
  | .all key => answer evp trut answering (guid rqst) str key none
  | .secure group cipher =>
    match ← decryptPattern evp group cipher with
    | none => return none
    | some pattern => answer evp trut answering (guid rqst) pattern false (some group)

/-- Of an empty string nothing is encrypted, and `EncodeBase64` refuses the size -1. -/
def encodeQuery (size : Int) (cipher : Bytes) : Except Fault Bytes :=
  if size < 0 then .ok [] else orUndefined (Encoding.encodeBase64 cipher cipher.length)

/-- What `Search` sends: `str`, which for a group with a key is encrypted under it. -/
def searchString (str : Bytes) (group : Option Group) (iv : Iv) : Except Fault Bytes :=
  match group with
  | none => .ok str
  | some group =>
    match group.key with
    | none => .ok str
    | some key => do
      let (size, cipher) ← orUndefined
        (Key.encrypt evp key (some str) str.length true true true iv)
      let text ← encodeQuery size cipher
      return securePrefix ++ group.name.val ++ ascii "/" ++ text

/-- `Trut::File`, a search result. -/
structure File where
  name : Bytes
  size : Nat
  ref : Nat
  ip : Nat
  port : Nat
  speed : Nat
  group : Option Nat
deriving DecidableEq

def File.ofEntry (payload : Bytes) (group : Option Nat) (entry : SearchEntry) : File where
  name := entry.name
  size := entry.size
  ref := entry.ref
  port := get32 ((payload.drop 1).take 2)
  ip := get32 ((payload.drop 3).take 4).reverse
  speed := get32 ((payload.drop 7).take 4)
  group := group

/-- `sizeof(SearchResp)` without the header. -/
def respSize : Nat := 11

def readFiles (payload : Bytes) (group : Option Nat) : Except Fault (List File) :=
  match payload with
  | [] => .error .undefined
  | count :: _ => do
    let entries ← orUndefined (readEntries count.toNat (payload.drop respSize))
    return entries.map (File.ofEntry payload group)

/-- The payload of an answer to a search in a group, decrypted in place; `none` when that fails. -/
def decryptAnswer (trut : Trut) (group : Option Nat) (resp : Bytes) :
    Except Fault (Option Bytes) :=
  match group with
  | none => .ok (some (payload resp))
  | some ref => do
    let group ← deref trut ref
    let key ← group.useKey
    let (size, data) ← orUndefined
      (Key.decrypt evp key (some (payload resp)) (wrap (get32 (sizeField resp))) true true true)
    if size ≤ 0 then return none
    return some (data ++ (payload resp).drop data.length)

end

end Trut
