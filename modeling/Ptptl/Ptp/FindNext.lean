import Ptptl.Library.CInt
import Ptptl.Library.Cursor
import Ptptl.Ptp.Collection
import Ptptl.Ptp.StoreFind

set_option autoImplicit false

/-! # `Find` behind its last result, where places in the list stand for pointers -/

namespace Ptp

open Cursor

namespace Store

variable {pki : Pki}

/-- `Store::Type`. -/
inductive EntryType where
  | all
  | identity
  | key
  | secret
deriving DecidableEq

def Payload.type : Payload pki → EntryType
  | .identity _ _ => .identity
  | .key _ => .key
  | .secret _ => .secret

def Entry.idBytes (entry : Entry pki) : Bytes := entry.id.elim [] Subtype.val

def findSize (id : Option Bytes) (idsize : Int) : Option Int :=
  -- -1 stands for the length of a string
  match id with
  | none => some idsize
  | some id =>
    if idsize = -1 then
      if (0 : Byte) ∈ id then some (CInt.wrap (cString id).length) else none
    else some idsize

/-- The comparison of ids; `memcmp` reads only when the sizes are equal. -/
def sameId (id : Bytes) (idsize : Int) (entry : Entry pki) : Option Bool :=
  if entry.idBytes.length = idsize then
    if id.length < idsize then none else some (id.take idsize.toNat = entry.idBytes)
  else some false

def sameFriendly (friendly : Option CString) (entry : Entry pki) : Bool :=
  match friendly with
  | none => true
  | some friendly =>
    match entry.friendly with
    | none => false
    | some other => friendly = other

def matchesEntry (type : EntryType) (friendly : Option CString) (id : Option Bytes) (idsize : Int)
    (entry : Entry pki) : Option Bool :=
  if (type = .all || type = entry.payload.type) && sameFriendly friendly entry then
    match id with
    | none => some true
    | some id => sameId id idsize entry
  else some false

def findLoop (type : EntryType) (friendly : Option CString) (id : Option Bytes) (idsize : Int) :
    Option Nat → Nat → List (Entry pki) → Option (Option (Entry pki × Nat))
  | _, _, [] => some none
  | last, place, entry :: rest => do
    let stops ← if last.isNone then matchesEntry type friendly id idsize entry else some false
    if stops then some (some (entry, place))
    else
      findLoop type friendly id idsize (if last = some place then none else last) (place + 1) rest

def findEntry (list : List (Entry pki)) (type : EntryType) (friendly : Option CString)
    (id : Option Bytes) (idsize : Int) (last : Option Nat) :
    Option (Option (Entry pki × Nat)) := do
  let idsize ← findSize id idsize
  findLoop type friendly id idsize last 0 list

def isNamed (names : Names pki) (name : Option CString) (last : Option Nat)
    (ident : Certified pki) : Option Bool :=
  if last.isSome then some false
  else if name.isNone then some true else sameName name (names.name ident.cert)

def findIdentLoop (names : Names pki) (name : Option CString) (haskey : Bool)
    (modulus : Option (Block publicKeySize)) :
    Option Nat → Nat → List (Entry pki) → Option (Option (Certified pki × Nat))
  | _, _, [] => some none
  | last, place, entry :: rest =>
    match entry.payload.certified with
    | none => findIdentLoop names name haskey modulus last (place + 1) rest
    | some ident => do
      let named ← isNamed names name last ident
      if named && (!haskey || ident.key.isSome) then
        match modulus with
        | none => some (some (ident, place))
        | some modulus => do
          let mod ← names.getKey ident.cert
          if mod = modulus then some (some (ident, place))
          else findIdentLoop names name haskey (some modulus) last (place + 1) rest
      else
        findIdentLoop names name haskey modulus (if last = some place then none else last)
          (place + 1) rest

/-- The caller's promise about an id: its size is not more than there is to read. -/
def Readable (id : Option Bytes) (idsize : Int) : Prop :=
  ∀ data ∈ id, if idsize = -1 then (0 : Byte) ∈ data else idsize ≤ data.length

def wantedId (id : Bytes) (idsize : Int) : Option Bytes :=
  -- no id has a negative size
  let size := if idsize = -1 then CInt.wrap (cString id).length else idsize
  if size < 0 then none else some (id.take size.toNat)

def selects (type : EntryType) (friendly : Option CString) (id : Option Bytes) (idsize : Int)
    (entry : Entry pki) : Bool :=
  (type = .all || entry.payload.type = type) && (friendly.isNone || entry.friendly = friendly) &&
    id.all fun id => wantedId id idsize = some entry.idBytes

def selectsIdent (names : Names pki) (name : Option CString) (haskey : Bool)
    (modulus : Option (Block publicKeySize)) (ident : Certified pki) : Bool :=
  (name.isNone || names.name ident.cert = name) && (!haskey || ident.key.isSome) &&
    (modulus.isNone || names.getKey ident.cert = modulus)

def certificates (list : List (Entry pki)) : List (Certified pki × Nat) :=
  list.zipIdx.filterMap fun found => found.1.payload.certified.map fun ident => (ident, found.2)

theorem sameId_correct {id : Bytes} {idsize size : Int} (readable : Readable (some id) idsize)
    (sized : findSize (some id) idsize = some size) (entry : Entry pki) :
    sameId id size entry = some (decide (wantedId id idsize = some entry.idBytes)) := by
  have given := readable id rfl
  have bounded : size ≤ id.length ∧
      (if idsize = -1 then CInt.wrap (cString id).length else idsize) = size := by
    by_cases string : idsize = -1
    · rw [if_pos string] at given ⊢
      simp only [findSize, string, if_true, given, Option.some.injEq] at sized
      have within := CInt.wrap_le_self (Int.natCast_nonneg (cString id).length)
      have shorter := cString_length_le id
      exact ⟨by omega, sized⟩
    · rw [if_neg string] at given ⊢
      simp only [findSize, string, if_false, Option.some.injEq] at sized
      exact ⟨by omega, sized⟩
  rw [sameId, wantedId]
  simp only [bounded.2]
  by_cases same : entry.idBytes.length = size
  · have enough : ¬ (id.length : Int) < size := by omega
    have positive : ¬ size < 0 := by omega
    rw [if_pos same, if_neg enough, if_neg positive]
    simp
  · rw [if_neg same]
    by_cases negative : size < 0
    · simp [negative]
    · have other : id.take size.toNat ≠ entry.idBytes := by
        intro equal
        have lengths := congrArg List.length equal
        rw [List.length_take] at lengths
        omega
      simp [negative, other]

theorem matchesEntry_correct (type : EntryType) (friendly : Option CString) {id : Option Bytes}
    {idsize size : Int} (readable : Readable id idsize) (sized : findSize id idsize = some size)
    (entry : Entry pki) :
    matchesEntry type friendly id size entry = some (selects type friendly id idsize entry) := by
  have named : sameFriendly friendly entry =
      (friendly.isNone || decide (entry.friendly = friendly)) := by
    cases friendly with
    | none => rfl
    | some friendly => cases other : entry.friendly <;> simp [sameFriendly, other, eq_comm]
  have typed : decide (type = entry.payload.type) = decide (entry.payload.type = type) := by
    simp only [eq_comm]
  unfold matchesEntry selects
  rw [named, typed]
  cases passed : (decide (type = .all) || decide (entry.payload.type = type)) &&
      (friendly.isNone || decide (entry.friendly = friendly)) with
  | false => simp
  | true =>
    cases id with
    | none => simp
    | some id =>
      rw [if_pos rfl, Bool.true_and]
      exact sameId_correct readable sized entry

theorem findLoop_isLoop (type : EntryType) (friendly : Option CString) {id : Option Bytes}
    {idsize size : Int} (readable : Readable id idsize) (sized : findSize id idsize = some size) :
    Loop (fun last place (entries : List (Entry pki)) =>
        findLoop type friendly id size last place entries)
      (fun entry => if selects type friendly id idsize entry then some entry else none)
      (fun _ => True) := by
  have matched (entry : Entry pki) := matchesEntry_correct type friendly readable sized entry
  have turn (place : Nat) (head : Entry pki) (tail : List (Entry pki)) :
      findLoop type friendly id size none place (head :: tail) =
        if selects type friendly id idsize head then some (some (head, place))
        else findLoop type friendly id size none (place + 1) tail := by
    rw [findLoop, Option.isNone_none, if_pos rfl, matched]
    rfl
  constructor
  · intro last place
    rfl
  · intro place head tail value _ accepts
    rw [Option.ite_none_right_eq_some, Option.some.injEq] at accepts
    obtain ⟨selected, rfl⟩ := accepts
    rw [turn, if_pos selected]
  · intro place head tail _ refuses
    have refused : ¬ selects type friendly id idsize head = true := by
      intro selected
      simp [selected] at refuses
    rw [turn, if_neg refused]
  · intro last place head tail _ other
    have behind : (if some last = some place then none else some last) = some last :=
      if_neg fun same => other (Option.some.inj same)
    rw [findLoop, behind]
    rfl
  · intro place head tail _ _
    rw [findLoop, if_pos rfl]
    rfl

theorem findSize_some {id : Option Bytes} {idsize : Int} (readable : Readable id idsize) :
    ∃ size, findSize id idsize = some size := by
  cases id with
  | none => exact ⟨idsize, rfl⟩
  | some id =>
    have given := readable id rfl
    by_cases string : idsize = -1
    · rw [if_pos string] at given
      exact ⟨_, by rw [findSize, if_pos string, if_pos given]⟩
    · exact ⟨idsize, by rw [findSize, if_neg string]⟩

theorem findEntry_enumerates (type : EntryType) (friendly : Option CString) {id : Option Bytes}
    {idsize : Int} (readable : Readable id idsize) (list : List (Entry pki)) :
    Enumerates (findEntry list type friendly id idsize) none
      (list.zipIdx.filter fun found => selects type friendly id idsize found.1) := by
  obtain ⟨size, sized⟩ := findSize_some readable
  have next : findEntry list type friendly id idsize =
      fun last => findLoop type friendly id size last 0 list := by
    funext last
    rw [findEntry, sized]
    rfl
  rw [next, ← accepted_guard]
  exact ((findLoop_isLoop type friendly readable sized).resumes list fun _ _ => trivial).enumerates

theorem isNamed_present {names : Names pki} (name : Option CString) {ident : Certified pki}
    (named : (names.name ident.cert).isSome) :
    isNamed names name none ident =
      some (name.isNone || decide (names.name ident.cert = name)) := by
  obtain ⟨common, hasName⟩ := Option.isSome_iff_exists.1 named
  cases name with
  | none => rfl
  | some name =>
    have same : (name == common) = decide (some common = some name) := by
      rw [Bool.eq_iff_iff, beq_iff_eq, decide_eq_true_eq, Option.some.injEq, eq_comm]
    simp only [isNamed, hasName]
    exact congrArg some same

theorem findIdentLoop_turn (names : Names pki) (name : Option CString) (haskey : Bool)
    (modulus : Option (Block publicKeySize)) (place : Nat) {head : Entry pki}
    (tail : List (Entry pki)) {ident : Certified pki}
    (certified : head.payload.certified = some ident)
    (named : (names.name ident.cert).isSome ∧ (names.getKey ident.cert).isSome) :
    findIdentLoop names name haskey modulus none place (head :: tail) =
      if selectsIdent names name haskey modulus ident then some (some (ident, place))
      else findIdentLoop names name haskey modulus none (place + 1) tail := by
  obtain ⟨mod, hasKey⟩ := Option.isSome_iff_exists.1 named.2
  have nameTest := isNamed_present name named.1
  rw [findIdentLoop]
  simp only [certified, nameTest, hasKey, selectsIdent, Option.bind_eq_bind, Option.bind_some]
  cases passed : (name.isNone || decide (names.name ident.cert = name)) &&
      (!haskey || ident.key.isSome) with
  | false => rfl
  | true =>
    cases modulus with
    | none => rfl
    | some modulus =>
      simp only [Option.isNone_some, Bool.false_or, Bool.true_and, Option.some.injEq,
        decide_eq_true_eq, if_true]

theorem findIdentLoop_isLoop (names : Names pki) (name : Option CString) (haskey : Bool)
    (modulus : Option (Block publicKeySize)) :
    Loop (findIdentLoop names name haskey modulus)
      (fun entry => entry.payload.certified.bind fun ident =>
        if selectsIdent names name haskey modulus ident then some ident else none)
      (fun entry => ∀ ident ∈ entry.payload.certified,
        (names.name ident.cert).isSome ∧ (names.getKey ident.cert).isSome) := by
  constructor
  · intro last place
    rfl
  · intro place head tail value good accepts
    obtain ⟨ident, certified, accepts⟩ := Option.bind_eq_some_iff.1 accepts
    rw [Option.ite_none_right_eq_some, Option.some.injEq] at accepts
    obtain ⟨selected, rfl⟩ := accepts
    rw [findIdentLoop_turn names name haskey modulus place tail certified (good ident certified),
      if_pos selected]
  · intro place head tail good refuses
    cases certified : head.payload.certified with
    | none => rw [findIdentLoop, certified]
    | some ident =>
      rw [certified, Option.bind_some] at refuses
      have refused : ¬ selectsIdent names name haskey modulus ident = true := by
        intro selected
        simp [selected] at refuses
      rw [findIdentLoop_turn names name haskey modulus place tail certified (good ident certified),
        if_neg refused]
  · intro last place head tail _ other
    have behind : (if some last = some place then none else some last) = some last :=
      if_neg fun same => other (Option.some.inj same)
    rw [findIdentLoop]
    cases certified : head.payload.certified with
    | none => rfl
    | some ident =>
      simp only [behind]
      rfl
  · intro place head tail _ accepts
    rw [findIdentLoop]
    cases certified : head.payload.certified with
    | none => simp [certified] at accepts
    | some ident =>
      simp only [if_true]
      rfl

end Store

namespace Collection

/-- The loop of `Find`, where `last` is NULL once it has started. -/
def findLoop (pat : Option CString) :
    Option Nat → Nat → List Entry → Option (Option (Entry × Nat))
  | _, _, [] => some none
  | last, place, entry :: rest =>
    if last.isNone then
      if pat.all fun pat => cmpPat pat.val entry.getName.val then some (some (entry, place))
      else findLoop pat last (place + 1) rest
    else findLoop pat (if last = some place then none else last) (place + 1) rest

def findEntry (collect : Collection) (pat : Option CString) (last : Option Nat) :
    Option (Option (Entry × Nat)) :=
  findLoop pat last 0 collect.entries

def selects (pat : Option CString) (entry : Entry) : Bool :=
  pat.all fun pat => cmpPat pat.val entry.getName.val

theorem findLoop_isLoop (pat : Option CString) :
    Loop (findLoop pat) (fun entry => if selects pat entry then some entry else none)
      (fun _ => True) := by
  constructor
  · intro last place
    rfl
  · intro place head tail value _ accepts
    rw [Option.ite_none_right_eq_some, Option.some.injEq] at accepts
    obtain ⟨selected, rfl⟩ := accepts
    exact if_pos selected
  · intro place head tail _ refuses
    have refused : ¬ selects pat head = true := by
      intro selected
      simp [selected] at refuses
    exact if_neg refused
  · intro last place head tail _ other
    have behind : (if some last = some place then none else some last) = some last :=
      if_neg fun same => other (Option.some.inj same)
    rw [findLoop, behind]
    rfl
  · intro place head tail _ _
    rw [findLoop, if_pos rfl]
    rfl

end Collection

section

variable {pki : Pki}

theorem findIdentLoop_first (names : Names pki) (name : Option CString) (haskey : Bool)
    (modulus : Option (Block publicKeySize)) (list : List (Store.Entry pki)) : ∀ place,
    Store.findIdentLoop names name haskey modulus none place list =
      (Store.findFrom names name haskey modulus place list).map (Option.map Prod.swap) := by
  induction list with
  | nil => exact fun _ => rfl
  | cons entry rest ih =>
    intro place
    rw [Store.findIdentLoop, Store.findFrom]
    cases certified : entry.payload.certified with
    | none => exact ih _
    | some ident =>
      have matched : Store.matchesIdent names name haskey modulus ident =
          (Store.isNamed names name none ident).bind fun named =>
            if named && (!haskey || ident.key.isSome) then
              match modulus with
              | none => some true
              | some modulus => (names.getKey ident.cert).map fun mod => mod == modulus
            else some false := by
        cases name <;> rfl
      simp only [matched]
      cases tested : Store.isNamed names name none ident with
      | none => rfl
      | some same =>
        simp only [Option.bind_eq_bind, Option.bind_some]
        cases passed : same && (!haskey || ident.key.isSome) with
        | false => exact ih _
        | true =>
          cases modulus with
          | none => rfl
          | some modulus =>
            cases key : names.getKey ident.cert with
            | none => rfl
            | some mod =>
              by_cases equal : mod = modulus
              · simp [equal]
              · have differ : (mod == modulus) = false := by simpa [Subtype.ext_iff] using equal
                simp only [if_true, Option.map_some, differ, equal, if_false, Option.bind_some,
                  Bool.false_eq_true]
                exact ih _

theorem findPat_enumerated (collect : Collection) (pat : CString) :
    (collect.entries.zipIdx.filter fun found => Collection.selects (some pat) found.1).map Prod.fst =
      collect.findPat pat.val := by
  have filtered : ((collect.entries.zipIdx.map Prod.fst).filter (Collection.selects (some pat))) =
      (collect.entries.zipIdx.filter fun found => Collection.selects (some pat) found.1).map
        Prod.fst := List.filter_map
  rw [← filtered, List.zipIdx_map_fst]
  rfl

theorem accepted_certificates (names : Names pki) (name : Option CString) (haskey : Bool)
    (modulus : Option (Block publicKeySize)) (list : List (Store.Entry pki)) :
    accepted (fun entry => entry.payload.certified.bind fun ident =>
        if Store.selectsIdent names name haskey modulus ident then some ident else none) 0 list =
      (Store.certificates list).filter
        fun found => Store.selectsIdent names name haskey modulus found.1 := by
  rw [accepted, Store.certificates, List.filter_filterMap]
  apply List.filterMap_congr
  intro found _
  cases certified : found.1.payload.certified with
  | none => rfl
  | some ident =>
    by_cases selected : Store.selectsIdent names name haskey modulus ident <;>
      simp [selected, Option.filter]

theorem find_enumerates (names : Names pki) {list : List (Store.Entry pki)}
    (named : ∀ ident ∈ Store.idents list,
      (names.name ident.cert).isSome ∧ (names.getKey ident.cert).isSome)
    (collect : Collection) (type : Store.EntryType) (friendly : Option CString)
    {id : Option Bytes} {idsize : Int} (readable : Store.Readable id idsize)
    (name : Option CString) (haskey : Bool) (modulus : Option (Block publicKeySize))
    (pat : Option CString) :
    Enumerates (Store.findEntry list type friendly id idsize) none
        (list.zipIdx.filter fun found => Store.selects type friendly id idsize found.1) ∧
      Enumerates (fun last => Store.findIdentLoop names name haskey modulus last 0 list) none
        ((Store.certificates list).filter
          fun found => Store.selectsIdent names name haskey modulus found.1) ∧
      Enumerates (collect.findEntry pat) none
        (collect.entries.zipIdx.filter fun found => Collection.selects pat found.1) := by
  refine ⟨?_, ?_, ?_⟩
  · exact Store.findEntry_enumerates type friendly readable list
  · rw [← accepted_certificates]
    apply ((Store.findIdentLoop_isLoop names name haskey modulus).resumes list ?_).enumerates
    intro entry member ident certified
    exact named ident (List.mem_filterMap.2 ⟨entry, member, certified⟩)
  · rw [← accepted_guard]
    exact ((Collection.findLoop_isLoop pat).resumes collect.entries fun _ _ => trivial).enumerates

def sameNames : Names plainPki where
  name _ := some ⟨ascii "John", by decide⟩
  issuerName _ := some ⟨ascii "John", by decide⟩
  modulus _ := Block.zero publicKeySize

def sameTwice : List (Store.Entry plainPki) :=
  [⟨.identity ⟨(), some ()⟩ true, none, some ⟨ascii "1", by decide⟩⟩,
    ⟨.secret ⟨ascii "secret", by decide⟩, none, none⟩,
    ⟨.identity ⟨(), none⟩ false, none, some ⟨ascii "1", by decide⟩⟩]

theorem find_enumerates_same :
    ((∀ ident ∈ Store.idents sameTwice,
        (sameNames.name ident.cert).isSome ∧ (sameNames.getKey ident.cert).isSome) ∧
      Store.Readable (some (ascii "1" ++ [0])) (-1)) ∧
    Enumerates (Store.findEntry sameTwice .all none (some (ascii "1" ++ [0])) (-1)) none
      (sameTwice.zipIdx.filter
        fun found => Store.selects .all none (some (ascii "1" ++ [0])) (-1) found.1) ∧
    Enumerates (fun last => Store.findIdentLoop sameNames none false none last 0 sameTwice) none
      ((Store.certificates sameTwice).filter
        fun found => Store.selectsIdent sameNames none false none found.1) := by
  have named : ∀ ident ∈ Store.idents sameTwice,
      (sameNames.name ident.cert).isSome ∧ (sameNames.getKey ident.cert).isSome :=
    fun _ _ => ⟨rfl, rfl⟩
  have readable : Store.Readable (some (ascii "1" ++ [0])) (-1) := by
    intro data given
    obtain rfl := Option.some.inj given
    decide
  have found := find_enumerates sameNames named {} .all none readable none false none none
  exact ⟨⟨named, readable⟩, found.1, found.2.1⟩

end

end Ptp
