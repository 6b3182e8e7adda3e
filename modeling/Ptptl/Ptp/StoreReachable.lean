import Ptptl.Ptp.StoreRoundTrip

set_option autoImplicit false

/-! # Payloads of the stores that the insert functions make -/

namespace Ptp.Store

variable {pki : Pki} {pkcs12 : Pkcs12 pki}

inductive Reachable : Store pkcs12 → Prop where
  | empty {store : Store pkcs12} (none : store.entries = []) : Reachable store
  | identity {store next : Store pkcs12} (reached : Reachable store)
      (ident : Option (Certified pki)) (exportkey : Bool) (friendly : Option CString)
      (id : Option Bytes) (idsize status : Int)
      (inserted : store.insertIdent ident exportkey friendly id idsize = some (status, next)) :
      Reachable next
  | key {store next : Store pkcs12} (reached : Reachable store) (key : Option SessionKey)
      (id : Option Bytes) (idsize status : Int)
      (inserted : store.insertKey key id idsize = some (status, next)) : Reachable next
  | secret {store next : Store pkcs12} (reached : Reachable store) (secret : Option Bytes)
      (size : Int) (friendly : Option CString) (id : Option Bytes) (idsize status : Int)
      (inserted : store.insertSecret secret size friendly id idsize = some (status, next)) :
      Reachable next

/-- The friendly name of keys is theirs alone. -/
def Consistent (entry : Entry pki) : Prop :=
  match entry.payload with
  | .identity _ _ => True
  | .key _ => entry.friendly = some keyFriendly
  | .secret _ => entry.friendly ≠ some keyFriendly

theorem insertIdentity_consistent {list next : List (Entry pki)} {ident : Certified pki}
    {exportkey : Bool} {friendly : Option CString} {id : Option Bytes} {idsize : Int}
    (consistent : ∀ entry ∈ list, Consistent entry)
    (inserted : insertIdentity list ident exportkey friendly id idsize = some next) :
    ∀ entry ∈ next, Consistent entry := by
  simp only [insertIdentity, Option.bind_eq_bind, Option.bind_eq_some_iff,
    Option.some.injEq] at inserted
  obtain ⟨copy, -, rfl⟩ := inserted
  intro entry member
  rcases List.mem_append.1 member with before | new
  · exact consistent entry before
  · rw [List.mem_singleton.1 new]
    trivial

theorem copyData_consistent {friendly : Option CString} {data : Bytes} {size : Int}
    {payload : Payload pki} (copied : copyData friendly data size = some payload)
    (id : Option Buffer) : Consistent ⟨payload, friendly, id⟩ := by
  unfold copyData at copied
  split at copied
  next named =>
    simp only at copied
    split at copied
    · simp at copied
    · rw [Option.some.injEq] at copied
      subst copied
      exact named
  next other =>
    obtain ⟨block, -, rfl⟩ := Option.map_eq_some_iff.1 copied
    exact other

theorem insertData_consistent {list next : List (Entry pki)} {data : Bytes} {size : Int}
    {friendly : Option CString} {id : Option Bytes} {idsize : Int}
    (consistent : ∀ entry ∈ list, Consistent entry)
    (inserted : insertData list data size friendly id idsize = some next) :
    ∀ entry ∈ next, Consistent entry := by
  simp only [insertData, Option.bind_eq_bind, Option.bind_eq_some_iff,
    Option.some.injEq] at inserted
  obtain ⟨payload, copied, copy, -, rfl⟩ := inserted
  intro entry member
  rcases List.mem_append.1 member with before | new
  · exact consistent entry before
  · rw [List.mem_singleton.1 new]
    exact copyData_consistent copied copy

section

variable {store next : Store pkcs12} {friendly : Option CString} {id : Option Bytes}
  {idsize status : Int}

theorem insertIdent_consistent {ident : Option (Certified pki)} {exportkey : Bool}
    (consistent : ∀ entry ∈ store.entries, Consistent entry)
    (inserted : store.insertIdent ident exportkey friendly id idsize = some (status, next)) :
    ∀ entry ∈ next.entries, Consistent entry := by
  cases ident with
  | none =>
    simp only [insertIdent, Option.some.injEq, Prod.mk.injEq] at inserted
    exact inserted.2 ▸ consistent
  | some ident =>
    simp only [insertIdent, Option.bind_eq_bind, Option.bind_eq_some_iff, Option.some.injEq,
      Prod.mk.injEq] at inserted
    obtain ⟨entries, added, -, rfl⟩ := inserted
    exact insertIdentity_consistent consistent added

theorem insertKey_consistent {key : Option SessionKey}
    (consistent : ∀ entry ∈ store.entries, Consistent entry)
    (inserted : store.insertKey key id idsize = some (status, next)) :
    ∀ entry ∈ next.entries, Consistent entry := by
  cases key with
  | none =>
    simp only [insertKey, Option.some.injEq, Prod.mk.injEq] at inserted
    exact inserted.2 ▸ consistent
  | some key =>
    simp only [insertKey, Option.bind_eq_bind, Option.bind_eq_some_iff, Option.some.injEq,
      Prod.mk.injEq] at inserted
    obtain ⟨entries, added, -, rfl⟩ := inserted
    exact insertData_consistent consistent added

theorem insertSecret_consistent {secret : Option Bytes} {size : Int}
    (consistent : ∀ entry ∈ store.entries, Consistent entry)
    (inserted : store.insertSecret secret size friendly id idsize = some (status, next)) :
    ∀ entry ∈ next.entries, Consistent entry := by
  cases secret with
  | none =>
    simp only [insertSecret, Option.some.injEq, Prod.mk.injEq] at inserted
    exact inserted.2 ▸ consistent
  | some secret =>
    simp only [insertSecret, Option.bind_eq_bind, Option.bind_eq_some_iff, Option.some.injEq,
      Prod.mk.injEq] at inserted
    obtain ⟨entries, added, -, rfl⟩ := inserted
    exact insertData_consistent consistent added

end

theorem Reachable.consistent {store : Store pkcs12} (reachable : Reachable store) :
    ∀ entry ∈ store.entries, Consistent entry := by
  induction reachable with
  | empty none => simp [none]
  | identity _ _ _ _ _ _ _ inserted ih => exact insertIdent_consistent ih inserted
  | key _ _ _ _ _ inserted ih => exact insertKey_consistent ih inserted
  | secret _ _ _ _ _ _ _ inserted ih => exact insertSecret_consistent ih inserted

theorem reloadedPayload_written {entry : Entry pki} (consistent : Consistent entry) :
    entry.reloadedPayload = entry.payload.written := by
  unfold Consistent at consistent
  unfold Entry.reloadedPayload
  cases payload : entry.payload with
  | identity ident exportkey => rfl
  | key data =>
    rw [payload] at consistent
    have named : entry.friendly = some keyFriendly := consistent
    have whole : Block.ofBytes sessionKeySize data.val = data := by
      simpa using Block.ofBytes_append data []
    simp [dataPayload, named, keyBuffer, whole, Payload.written]
  | secret data =>
    rw [payload] at consistent
    have other : entry.friendly ≠ some keyFriendly := consistent
    simp [dataPayload, other, Payload.written]

theorem reloaded_payloads {list : List (Entry pki)}
    (consistent : ∀ entry ∈ list, Consistent entry) :
    (reloaded list).map Entry.payload = list.map fun entry => entry.payload.written := by
  induction list with
  | nil => rfl
  | cons entry rest ih =>
    rw [List.forall_mem_cons] at consistent
    simp only [reloaded, List.map_cons, ih consistent.2, reloadedPayload_written consistent.1]

theorem exportBags_keys (passwd : Option CString) (list : List (Entry pki)) :
    (exportBags list : List (Bag pkcs12)).filterMap (bagKey passwd) =
      list.filterMap fun entry => entry.payload.exportedKey := by
  induction list with
  | nil => rfl
  | cons entry rest ih =>
    have head : bagKey passwd (headBag entry : Bag pkcs12) = none := by
      unfold bagKey headBag
      cases entry.payload <;> rfl
    have split : (exportBags (entry :: rest) : List (Bag pkcs12)) =
        headBag entry :: (keyBags entry ++ exportBags rest) := rfl
    rw [split, List.filterMap_cons, head, List.filterMap_append, ih, List.filterMap_cons]
    unfold keyBags
    cases entry.payload.exportedKey <;> rfl

theorem payloads_survive_iff (lawful : pkcs12.Lawful) {store : Store pkcs12}
    (reachable : Reachable store) (passwd macpasswd : Option CString) :
    ((∃ copy, importFile (exportFile store.entries passwd macpasswd : pkcs12.File) passwd
          macpasswd [] = some (0, copy) ∧
        copy.map Entry.payload = store.entries.map fun entry => entry.payload.written) ∧
      (exportBags store.entries : List (Bag pkcs12)).filterMap (bagKey passwd) =
        store.entries.filterMap fun entry => entry.payload.exportedKey) ↔
      ∀ entry ∈ store.entries, entry.friendly ≠ some emptyName := by
  rw [importFile_exportFile lawful]
  constructor
  · rintro ⟨⟨copy, loaded, -⟩, -⟩
    split at loaded
    next named => exact named
    next => simp at loaded
  · intro named
    refine ⟨⟨reloaded store.entries, if_pos named, ?_⟩, exportBags_keys passwd store.entries⟩
    exact reloaded_payloads reachable.consistent

def emptyStore : Store (plainPkcs12 plainPki) := ⟨true, none, none, none, []⟩

theorem payloads_survive_inserted : ∃ store : Store (plainPkcs12 plainPki), Reachable store ∧
    store.entries.length = 2 ∧
    (∃ copy, importFile (exportFile store.entries none none : (plainPkcs12 plainPki).File) none
        none [] = some (0, copy) ∧
      copy.map Entry.payload = store.entries.map fun entry => entry.payload.written) ∧
    (exportBags store.entries : List (Bag (plainPkcs12 plainPki))).filterMap (bagKey none) =
      store.entries.filterMap fun entry => entry.payload.exportedKey := by
  have first : Reachable _ :=
    .identity (.empty (rfl : emptyStore.entries = [])) (some ⟨(), some ()⟩) true (some doe) none 0
      0 rfl
  have second := Reachable.secret first (some (ascii "John")) 4 none none 0 0 rfl
  refine ⟨_, second, rfl, (payloads_survive_iff (plainPkcs12_lawful plainPki) second none none).2 ?_⟩
  intro entry member
  rcases List.mem_cons.1 member with rfl | member
  · decide
  · rw [List.mem_singleton.1 member]
    decide

/-- A secret with an empty friendly name: loading reads before the name. -/
theorem payloads_unnamed : ∃ store : Store (plainPkcs12 plainPki), Reachable store ∧
    importFile (exportFile store.entries none none : (plainPkcs12 plainPki).File) none none [] =
      none := by
  have reached : Reachable _ :=
    .secret (.empty (rfl : emptyStore.entries = [])) (some (ascii "John")) 4 (some emptyName) none 0
      0 rfl
  refine ⟨_, reached, ?_⟩
  rw [importFile_exportFile (plainPkcs12_lawful plainPki), if_neg]
  intro named
  exact named _ (List.mem_singleton_self _) rfl

end Ptp.Store
