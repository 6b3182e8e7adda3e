import Ptptl.Ptp.FindNext
import Ptptl.Ptp.StoreReachable

set_option autoImplicit false

/-! # Secret data: `Insert`, `Find` and `Remove` -/

namespace Ptp.Store

open Cursor

variable {pki : Pki} {pkcs12 : Pkcs12 pki}

def secretSize (secret : Bytes) (size : Int) : Option Int :=
  -- -1 stands for the length of a string
  if size = -1 then
    if (0 : Byte) ∈ secret then some (CInt.wrap (cString secret).length) else none
  else some size

/-- Whether an entry is the secret to remove; `memcmp` reads only when the sizes are equal. -/
def sameSecret (secret : Bytes) (size : Int) (entry : Entry pki) : Option Bool :=
  match entry.payload with
  | .secret data =>
    if data.val.length = size then
      if secret.length < size then none else some (data.val = secret.take size.toNat)
    else some false
  | _ => some false

/-- The loop of `Remove`: the list without the entry, or nothing when there is none. -/
def removeSecretLoop (secret : Bytes) (size : Int) :
    List (Entry pki) → Option (Option (List (Entry pki)))
  | [] => some none
  | entry :: rest => do
    let same ← sameSecret secret size entry
    if same then some (some rest)
    else
      let removed ← removeSecretLoop secret size rest
      some (removed.map (entry :: ·))

def removeSecret (store : Store pkcs12) (secret : Bytes) (size : Int) :
    Option (Int × Store pkcs12) := do
  let size ← secretSize secret size
  let removed ← removeSecretLoop secret size store.entries
  match removed with
  | none => some (-1, store)
  | some entries => some (0, { store with entries := entries })

def secretBytes (secret : Bytes) (size : Int) : Bytes :=
  if size = -1 then cString secret else secret.take size.toNat

def holdsSecret (data : Bytes) (entry : Entry pki) : Bool :=
  match entry.payload with
  | .secret block => block.val = data
  | _ => false

/-- The stores that the public functions make. Each `Remove`, and `Reset`, takes entries out. -/
inductive Made : Store pkcs12 → Prop where
  | empty {store : Store pkcs12} (none : store.entries = []) : Made store
  | identity {store next : Store pkcs12} (made : Made store) (ident : Option (Certified pki))
      (exportkey : Bool) (friendly : Option CString) (id : Option Bytes) (idsize status : Int)
      (inserted : store.insertIdent ident exportkey friendly id idsize = some (status, next)) :
      Made next
  | key {store next : Store pkcs12} (made : Made store) (key : Option SessionKey)
      (id : Option Bytes) (idsize status : Int)
      (inserted : store.insertKey key id idsize = some (status, next)) : Made next
  | secret {store next : Store pkcs12} (made : Made store) (secret : Option Bytes)
      (size : Int) (friendly : Option CString) (id : Option Bytes) (idsize status : Int)
      (inserted : store.insertSecret secret size friendly id idsize = some (status, next)) :
      Made next
  | load {store next : Store pkcs12} (made : Made store) (status : Int)
      (loaded : store.load = some (status, next)) : Made next
  | save {store : Store pkcs12} (made : Made store) : Made store.save.2
  | remove {store next : Store pkcs12} (made : Made store)
      (fewer : next.entries.Sublist store.entries) : Made next

theorem dataPayload_consistent (friendly : Option CString) (data : Buffer) (id : Option Buffer) :
    Consistent (⟨dataPayload friendly data, friendly, id⟩ : Entry pki) := by
  unfold dataPayload
  split
  next named => exact named
  next other => exact other

theorem bagEntry_consistent {passwd : Option CString} {bag : Bag pkcs12}
    {rest : List (Bag pkcs12)} {entry : Entry pki} (made : bagEntry passwd bag rest = some entry) :
    Consistent entry := by
  unfold bagEntry at made
  split at made
  next cert _ =>
    rw [← Option.some.inj made]
    unfold certEntry
    split
    next => trivial
    next => split <;> trivial
  next =>
    obtain ⟨data, -, rfl⟩ := Option.map_eq_some_iff.1 made
    exact dataPayload_consistent _ _ _

theorem yields_consistent (passwd : Option CString) (bags : List (Bag pkcs12)) :
    ∀ entry ∈ yields passwd bags, Consistent entry := by
  induction bags with
  | nil =>
    intro entry member
    cases member
  | cons bag rest ih =>
    intro entry member
    rw [yields, List.mem_append, Option.mem_toList] at member
    rcases member with first | later
    · exact bagEntry_consistent first
    · exact ih entry later

theorem importFile_consistent {file : pkcs12.File} {passwd macpasswd : Option CString}
    {status : Int} {list : List (Entry pki)}
    (imported : importFile file passwd macpasswd [] = some (status, list)) :
    ∀ entry ∈ list, Consistent entry := by
  have nothing : ∀ entry ∈ ([] : List (Entry pki)), Consistent entry := by
    intro entry member
    cases member
  unfold importFile at imported
  split at imported
  next =>
    rw [Option.some.injEq, Prod.mk.injEq] at imported
    exact imported.2 ▸ nothing
  next archive _ =>
    split at imported
    next =>
      simp only [importSafes_eq, Option.bind_eq_bind, Option.bind_eq_some_iff, Option.some.injEq,
        Option.ite_none_right_eq_some, Prod.mk.injEq] at imported
      obtain ⟨entries, ⟨-, rfl⟩, -, rfl⟩ := imported
      intro entry member
      rw [List.nil_append, List.mem_flatMap] at member
      obtain ⟨safe, -, yielded⟩ := member
      exact yields_consistent passwd _ entry yielded
    next =>
      rw [Option.some.injEq, Prod.mk.injEq] at imported
      exact imported.2 ▸ nothing

theorem load_consistent {store next : Store pkcs12} {status : Int}
    (consistent : ∀ entry ∈ store.entries, Consistent entry)
    (loaded : store.load = some (status, next)) : ∀ entry ∈ next.entries, Consistent entry := by
  unfold load at loaded
  split at loaded
  next =>
    split at loaded
    next =>
      rw [Option.some.injEq, Prod.mk.injEq] at loaded
      rw [← loaded.2]
      intro entry member
      cases member
    next file _ =>
      simp only [Option.bind_eq_bind, Option.bind_eq_some_iff, Option.some.injEq,
        Prod.mk.injEq] at loaded
      obtain ⟨result, imported, -, rfl⟩ := loaded
      exact importFile_consistent imported
  next =>
    rw [Option.some.injEq, Prod.mk.injEq] at loaded
    exact loaded.2 ▸ consistent

theorem save_entries (store : Store pkcs12) : store.save.2.entries = store.entries := by
  unfold save
  split <;> rfl

theorem Made.consistent {store : Store pkcs12} (made : Made store) :
    ∀ entry ∈ store.entries, Consistent entry := by
  induction made with
  | empty none => simp [none]
  | identity _ _ _ _ _ _ _ inserted ih => exact insertIdent_consistent ih inserted
  | key _ _ _ _ _ inserted ih => exact insertKey_consistent ih inserted
  | secret _ _ _ _ _ _ _ inserted ih => exact insertSecret_consistent ih inserted
  | load _ _ loaded ih => exact load_consistent ih loaded
  | save _ ih =>
    rw [save_entries]
    exact ih
  | remove _ fewer ih => exact fun entry member => ih entry (fewer.subset member)

/-- What a block is copied from, and how its size is read again. -/
structure Copied (data : Bytes) (size : Int) (block : Buffer) (count : Nat) : Prop where
  sized : secretSize data size = some (count : Int)
  within : count ≤ data.length
  taken : block.val = data.take count
  bytes : secretBytes data size = data.take count
  readable : Readable (some data) size
  wanted : wantedId data size = some block.val

theorem copyBlock_copied {data : Bytes} {size : Int} {block : Buffer}
    (copied : copyBlock data size = some block) : ∃ count, Copied data size block count := by
  unfold copyBlock at copied
  split at copied
  next string =>
    subst string
    split at copied
    next ended =>
      split at copied
      next small =>
        have same : block = ⟨cString data, small⟩ := (Option.some.inj copied).symm
        have taken : cString data = data.take (cString data).length :=
          List.prefix_iff_eq_take.1 (cString_front data)
        have shorter := cString_length_le data
        have wrapped : CInt.wrap (cString data).length = (cString data).length :=
          CInt.wrap_of_le (by unfold CInt.intMin; omega) (by unfold CInt.intMax; omega)
        refine ⟨(cString data).length, ?_, shorter, ?_, ?_, ?_, ?_⟩
        · rw [secretSize, if_pos rfl, if_pos ended, wrapped]
        · rw [same]
          exact taken
        · rw [secretBytes, if_pos rfl]
          exact taken
        · intro other here
          rw [if_pos rfl, ← Option.some.inj here]
          exact ended
        · have nonneg : ¬ ((cString data).length : Int) < 0 := by omega
          simp only [wantedId, if_true, wrapped, if_neg nonneg, Int.toNat_natCast, same]
          exact congrArg some taken.symm
      next => cases copied
    next => cases copied
  next other =>
    split at copied
    next => cases copied
    next fits =>
      rw [not_or, Int.not_lt, Int.not_lt] at fits
      split at copied
      next small =>
        have same : block = ⟨data.take size.toNat, small⟩ := (Option.some.inj copied).symm
        have count : (size.toNat : Int) = size := Int.toNat_of_nonneg fits.1
        refine ⟨size.toNat, ?_, by omega, ?_, ?_, ?_, ?_⟩
        · rw [secretSize, if_neg other, count]
        · rw [same]
        · rw [secretBytes, if_neg other]
        · intro given here
          rw [if_neg other, ← Option.some.inj here]
          exact fits.2
        · simp only [wantedId, if_neg other, if_neg (Int.not_lt.2 fits.1), same]
      next => cases copied

theorem sameSecret_eq {secret : Bytes} {count : Nat} (within : count ≤ secret.length)
    (entry : Entry pki) :
    sameSecret secret count entry = some (holdsSecret (secret.take count) entry) := by
  unfold sameSecret holdsSecret
  cases entry.payload with
  | identity ident exportkey => rfl
  | key data => rfl
  | secret block =>
    by_cases same : (block.val.length : Int) = count
    next =>
      have enough : ¬ (secret.length : Int) < count := by omega
      simp only [same, if_true, if_neg enough, Int.toNat_natCast]
    next =>
      have differ : block.val ≠ secret.take count := by
        intro equal
        rw [equal, List.length_take] at same
        omega
      simp [same, differ]

theorem removeSecretLoop_eq {secret : Bytes} {count : Nat} (within : count ≤ secret.length)
    (list : List (Entry pki)) :
    removeSecretLoop secret count list =
      some (if list.any (holdsSecret (secret.take count)) then
        some (list.eraseP (holdsSecret (secret.take count))) else none) := by
  induction list with
  | nil => rfl
  | cons entry rest ih =>
    rw [removeSecretLoop, sameSecret_eq within, ih]
    cases holds : holdsSecret (secret.take count) entry with
    | true => simp [holds]
    | false =>
      simp only [Option.bind_eq_bind, Option.bind_some, List.any_cons, holds, Bool.false_or,
        List.eraseP_cons, Bool.false_eq_true, if_false, cond_false]
      split
      next => rfl
      next => rfl

theorem copyId_readable {id : Option Bytes} {idsize : Int} {stored : Option Buffer}
    (copied : copyId id idsize = some stored) :
    Readable id idsize ∧ ∀ data ∈ id, wantedId data idsize = some (stored.elim [] Subtype.val) := by
  cases id with
  | none =>
    constructor
    next =>
      intro data absent
      cases absent
    next =>
      intro data absent
      cases absent
  | some data =>
    rw [copyId] at copied
    split at copied
    next zero =>
      subst zero
      rw [← Option.some.inj copied]
      constructor
      next =>
        intro given _
        exact Int.natCast_nonneg _
      next =>
        intro given _
        simp [wantedId]
    next =>
      obtain ⟨block, filled, rfl⟩ := Option.map_eq_some_iff.1 copied
      obtain ⟨count, filled⟩ := copyBlock_copied filled
      constructor
      next => exact filled.readable
      next =>
        intro given here
        rw [← Option.some.inj here]
        exact filled.wanted

/-- The bytes of a secret come back from `Find`, and `Remove` takes one entry of them out. -/
structure Kept (next : Store pkcs12) (secret : Bytes) (size : Int) (friendly : Option CString)
    (id : Option Bytes) (idsize : Int) : Prop where
  found : ∃ results entry place,
    Enumerates (findEntry next.entries .secret friendly id idsize) none results ∧
      (entry, place) ∈ results ∧ holdsSecret (secretBytes secret size) entry = true
  removed : ∃ front entry back, next.entries = front ++ entry :: back ∧
    holdsSecret (secretBytes secret size) entry = true ∧
      next.removeSecret secret size = some (0, { next with entries := front ++ back })

theorem insertSecret_added {store next : Store pkcs12} {secret : Bytes} {size status : Int}
    {friendly : Option CString} {id : Option Bytes} {idsize : Int}
    (inserted : store.insertSecret (some secret) size friendly id idsize = some (status, next)) :
    ∃ payload stored, copyData friendly secret size = some payload ∧
      copyId id idsize = some stored ∧
        next = { store with entries := store.entries ++ [⟨payload, friendly, stored⟩] } := by
  simp only [insertSecret, insertData, Option.bind_eq_bind, Option.bind_eq_some_iff,
    Option.some.injEq, Prod.mk.injEq] at inserted
  obtain ⟨entries, ⟨payload, copied, stored, identified, rfl⟩, -, rfl⟩ := inserted
  exact ⟨payload, stored, copied, identified, rfl⟩

theorem removeSecret_held {store : Store pkcs12} {secret : Bytes} {size : Int} {block : Buffer}
    {count : Nat} (copied : Copied secret size block count)
    (held : store.entries.any (holdsSecret (secretBytes secret size)) = true) :
    ∃ front entry back, store.entries = front ++ entry :: back ∧
      holdsSecret (secretBytes secret size) entry = true ∧
        store.removeSecret secret size = some (0, { store with entries := front ++ back }) := by
  obtain ⟨entry, member, holds⟩ := List.any_eq_true.1 held
  obtain ⟨removed, front, back, -, holds, split, erased⟩ := List.exists_of_eraseP member holds
  refine ⟨front, removed, back, split, holds, ?_⟩
  rw [copied.bytes] at held erased
  simp only [removeSecret, copied.sized, removeSecretLoop_eq copied.within, held, if_true,
    Option.bind_eq_bind, Option.bind_some, erased]

theorem secret_kept_iff {store next : Store pkcs12} (made : Made store) {secret : Bytes}
    {size : Int} {friendly : Option CString} {id : Option Bytes} {idsize : Int}
    (inserted : store.insertSecret (some secret) size friendly id idsize = some (0, next)) :
    Kept next secret size friendly id idsize ↔ friendly ≠ some keyFriendly := by
  have consistent := insertSecret_consistent made.consistent inserted
  obtain ⟨payload, stored, copied, identified, rfl⟩ := insertSecret_added inserted
  obtain ⟨readable, wanted⟩ := copyId_readable identified
  have search := findEntry_enumerates .secret friendly readable
    (store.entries ++ [⟨payload, friendly, stored⟩])
  constructor
  next =>
    intro kept named
    obtain ⟨results, entry, place, enumerates, member, holds⟩ := kept.found
    rw [enumerates.unique search, List.mem_filter] at member
    obtain ⟨there, selected⟩ := member
    have stored' := consistent entry (List.fst_mem_of_mem_zipIdx there)
    have name : entry.friendly = some keyFriendly := by
      subst named
      simp only [selects, Bool.and_eq_true, Option.isNone_some, Bool.false_or,
        decide_eq_true_eq] at selected
      exact selected.1.2
    unfold holdsSecret at holds
    split at holds
    next block payload' =>
      rw [Consistent, payload'] at stored'
      exact stored' name
    next => cases holds
  next =>
    intro other
    rw [copyData, if_neg other, Option.map_eq_some_iff] at copied
    obtain ⟨block, copied, rfl⟩ := copied
    obtain ⟨count, copied⟩ := copyBlock_copied copied
    have holds : holdsSecret (secretBytes secret size)
        (⟨.secret block, friendly, stored⟩ : Entry pki) = true :=
      decide_eq_true (copied.taken.trans copied.bytes.symm)
    constructor
    next =>
      refine ⟨_, ⟨.secret block, friendly, stored⟩, store.entries.length, search, ?_, holds⟩
      rw [List.mem_filter, List.mem_zipIdx_iff_getElem?]
      constructor
      next => simp
      next =>
        have any : id.all (fun data =>
            wantedId data idsize =
              some (@Entry.idBytes pki ⟨.secret block, friendly, stored⟩)) = true := by
          cases id with
          | none => rfl
          | some data => exact decide_eq_true (wanted data rfl)
        simp [selects, Payload.type, any]
    next =>
      apply removeSecret_held copied
      rw [List.any_append, Bool.or_eq_true]
      exact .inr (by simp [holds])

def filed : Store (plainPkcs12 plainPki) :=
  ⟨true, none, none, none, [⟨.secret ⟨ascii "John", john_small⟩, some doe, none⟩]⟩

theorem filed_inserted : emptyStore.insertSecret (some (ascii "John" ++ [0])) (-1) (some doe) none 0 =
    some (0, filed) := rfl

theorem secret_kept_john : Made emptyStore ∧
    emptyStore.insertSecret (some (ascii "John" ++ [0])) (-1) (some doe) none 0 =
      some (0, filed) ∧
    (Kept filed (ascii "John" ++ [0]) (-1) (some doe) none 0 ↔ some doe ≠ some keyFriendly) :=
  ⟨.empty rfl, filed_inserted, secret_kept_iff (.empty rfl) filed_inserted⟩

/-- A secret under the friendly name of keys becomes a key. -/
theorem secret_lost : ∃ next : Store (plainPkcs12 plainPki),
    emptyStore.insertSecret (some (ascii "John")) 4 (some keyFriendly) none 0 = some (0, next) ∧
      (next.removeSecret (ascii "John") 4).map Prod.fst = some (-1) ∧
        findEntry next.entries .secret (some keyFriendly) none 0 none = some none ∧
          ¬ Kept next (ascii "John") 4 (some keyFriendly) none 0 := by
  refine ⟨_, rfl, rfl, rfl, ?_⟩
  intro kept
  obtain ⟨front, entry, back, -, -, removed⟩ := kept.removed
  cases removed

end Ptp.Store
