import Ptptl.Ptp.Collection

set_option autoImplicit false

/-! # Secure groups and what is shared -/

open Ptp

/-- `Trut::Group`; `ref` tells groups apart, as their addresses do. -/
structure Trut.Group where
  ref : Nat
  name : CString
  responses : Nat := 0
  -- the result of the accept callback for a client's name
  accept : Option (Option CString → Int)
  key : Option SessionKey := none

structure Trut where
  groups : List Trut.Group := []
  allocated : Nat := 0
  collect : Collection := {}

namespace Trut

def keyName (name : CString) : CString :=
  ⟨ascii "/secure/" ++ name.val ++ ascii "/key", by
    have clean := name.property
    simp only [List.mem_append, not_or]
    exact ⟨⟨by decide, clean⟩, by decide⟩⟩

theorem slash_keyName (name : CString) : Collection.slash ∈ (keyName name).val := by
  have first : Collection.slash ∈ ascii "/secure/" := by decide
  simp [keyName, first]

theorem keyName_injective : Function.Injective keyName := by
  intro name other same
  have text := congrArg Subtype.val same
  simp only [keyName, List.append_cancel_right_eq, List.append_cancel_left_eq] at text
  exact Subtype.ext text

def findGroup (trut : Trut) (name : Bytes) : Option Group :=
  trut.groups.find? fun group => group.name.val = name

def group (trut : Trut) (ref : Nat) : Option Group :=
  trut.groups.find? fun group => group.ref = ref

def update (trut : Trut) (ref : Nat) (change : Group → Group) : Trut :=
  { trut with
    groups := trut.groups.map fun group => if group.ref = ref then change group else group }

def addKey (ulong : Nat) (trut : Trut) (name : CString) (data : Bytes) : Trut :=
  { trut with collect := trut.collect.add ulong { content := .data (keyName name) data } }

def joinGroup (trut : Trut) (name : CString) (accept : Option (Option CString → Int)) : Trut :=
  match trut.findGroup name.val with
  | none =>
    { trut with
      groups := { ref := trut.allocated, name := name, accept := accept } :: trut.groups
      allocated := trut.allocated + 1 }
  | some group =>
    if group.key.isSome then
      trut.update group.ref fun group => { group with accept := accept, responses := 0 }
    else trut

/-- `JoinGroup` after its sleep, which found no one to answer: `key` is the new `Key`. -/
def joinCreate (ulong : Nat) (trut : Trut) (ref : Nat) (key : SessionKey) : Trut :=
  match trut.group ref with
  | none => trut
  | some group =>
    if group.key.isSome ∨ 0 < group.responses then trut
    else (trut.update ref fun group => { group with key := some key }).addKey ulong group.name key.val

/-- `FindKey`: a search response for the key of a group. -/
def findKey (trut : Trut) (ref : Nat) (fileName : Bytes) : Trut :=
  trut.update ref fun group =>
    if group.key.isNone ∧ fileName = ascii "key" then
      { group with responses := group.responses + 1 }
    else group

/-- `FetchKey` when the transfer is done: a buffer, of which `size` bytes were received. -/
def fetchKey (ulong : Nat) (trut : Trut) (ref : Nat) (data : Bytes) (size : Nat) : Option Trut :=
  match trut.group ref with
  | none => none
  | some group =>
    if data.length < sessionKeySize ∨ data.length < size then none
    else
      let key := Block.ofBytes sessionKeySize data
      some ((trut.update ref fun group => { group with key := some key }).addKey ulong group.name
        (data.take size))

/-- `AddShared`; `files` are the matching files that the scan finds under a directory. -/
def addShared (ulong : Nat) (trut : Trut) (path : CString) (ext : Option CString)
    (group : Option Nat) (files : Collection.Dir → List (CString × Nat)) : Trut :=
  { trut with collect := (trut.collect.addDir path ext group).rescan ulong files }

theorem group_update (trut : Trut) (ref other : Nat) (change : Group → Group)
    (kept : ∀ group, (change group).ref = group.ref) :
    (trut.update ref change).group other =
      (trut.group other).map fun group => if group.ref = ref then change group else group := by
  simp only [group, update, List.find?_map]
  congr 2
  funext group
  by_cases same : group.ref = ref
  · simp [same, kept]
  · simp [same]

theorem group_ref {trut : Trut} {ref : Nat} {group : Group} (found : trut.group ref = some group) :
    group.ref = ref := by
  simpa using List.find?_some found

@[simp] theorem addKey_group (ulong : Nat) (trut : Trut) (name : CString) (data : Bytes)
    (ref : Nat) : (trut.addKey ulong name data).group ref = trut.group ref := rfl

theorem joinCreate_group {ulong : Nat} {trut : Trut} {ref : Nat} {key : SessionKey} {group : Group}
    (found : trut.group ref = some group) (keyless : ¬ (group.key.isSome ∨ 0 < group.responses)) :
    (trut.joinCreate ulong ref key).group ref = some { group with key := some key } := by
  have updated := group_update trut ref ref (fun group => { group with key := some key }) fun _ => rfl
  simp only [joinCreate, found, keyless, if_false, addKey_group, updated]
  simp [group_ref found]

theorem fetchKey_spec {ulong : Nat} {trut next : Trut} {ref size : Nat} {data : Bytes}
    (fetched : trut.fetchKey ulong ref data size = some next) :
    ∃ group, trut.group ref = some group ∧ sessionKeySize ≤ data.length ∧ size ≤ data.length ∧
      next = (trut.update ref fun group =>
        { group with key := some (Block.ofBytes sessionKeySize data) }).addKey ulong group.name
          (data.take size) := by
  simp only [fetchKey] at fetched
  cases found : trut.group ref with
  | none => simp [found] at fetched
  | some group =>
    simp only [found] at fetched
    split at fetched
    next => simp at fetched
    next long =>
      rw [Option.some.injEq] at fetched
      exact ⟨group, rfl, by omega, by omega, fetched.symm⟩

theorem fetchKey_group {ulong : Nat} {trut next : Trut} {ref size : Nat} {data : Bytes}
    (fetched : trut.fetchKey ulong ref data size = some next) :
    (next.group ref).bind Group.key = some (Block.ofBytes sessionKeySize data) := by
  obtain ⟨group, found, _, _, rfl⟩ := fetchKey_spec fetched
  have updated := group_update trut ref ref
    (fun group => { group with key := some (Block.ofBytes sessionKeySize data) })
    fun _ => rfl
  rw [addKey_group, updated]
  simp [found, group_ref found]

inductive Reachable (ulong : Nat) : Trut → Prop where
  | start : Reachable ulong {}
  | joinGroup {trut : Trut} (reached : Reachable ulong trut) (name : CString)
      (accept : Option (Option CString → Int)) : Reachable ulong (trut.joinGroup name accept)
  | joinCreate {trut : Trut} (reached : Reachable ulong trut) (ref : Nat) (key : SessionKey) :
      Reachable ulong (trut.joinCreate ulong ref key)
  | findKey {trut : Trut} (reached : Reachable ulong trut) (ref : Nat) (fileName : Bytes) :
      Reachable ulong (trut.findKey ref fileName)
  | fetchKey {trut next : Trut} (reached : Reachable ulong trut) (ref : Nat) (data : Bytes)
      (size : Nat) (fetched : trut.fetchKey ulong ref data size = some next) :
      Reachable ulong next
  | addShared {trut : Trut} (reached : Reachable ulong trut) (path : CString)
      (ext : Option CString) (group : Option Nat)
      (files : Collection.Dir → List (CString × Nat)) :
      Reachable ulong (trut.addShared ulong path ext group files)

/-- Data entries are the keys of groups. -/
def Shares (entry : Collection.Entry) : Prop :=
  match entry.content with
  | .file _ _ => True
  | .data name _ => ∃ group, name = keyName group

theorem addKey_shares (ulong : Nat) {trut : Trut} (name : CString) (data : Bytes)
    (shares : ∀ entry ∈ trut.collect.entries, Shares entry) :
    ∀ entry ∈ (trut.addKey ulong name data).collect.entries, Shares entry := by
  intro entry member
  rcases List.mem_cons.1 member with rfl | member
  · exact ⟨name, rfl⟩
  · exact shares entry member

theorem Reachable.shares {ulong : Nat} {trut : Trut} (reachable : Reachable ulong trut) :
    ∀ entry ∈ trut.collect.entries, Shares entry := by
  induction reachable with
  | start => simp
  | @joinGroup trut _ name accept ih =>
    unfold Trut.joinGroup
    split
    · exact ih
    · split <;> exact ih
  | @joinCreate trut _ ref key ih =>
    unfold Trut.joinCreate
    split
    · exact ih
    · split
      · exact ih
      · exact addKey_shares ulong _ _ ih
  | findKey _ ref fileName ih => exact ih
  | @fetchKey trut next _ ref data size fetched ih =>
    unfold Trut.fetchKey at fetched
    split at fetched
    · simp at fetched
    · split at fetched
      · simp at fetched
      · rw [Option.some.injEq] at fetched
        subst fetched
        exact addKey_shares ulong _ _ ih
  | addShared _ path ext group files ih =>
    apply Collection.rescan_forall
    · exact ih
    · intro dir file id
      trivial

end Trut
