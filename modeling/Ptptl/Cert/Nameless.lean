import Mathlib.Data.Fintype.EquivFin
import Ptptl.Ptp.StoreBags
import Ptptl.Sfs.Insert

set_option autoImplicit false

/-!
# Comparisons of names

`Find`, `Verify` and both `Insert` once more, with the comparison of a NULL name told apart from a
key that is not there.
-/

namespace Cert

open Ptp Ptp.Store

inductive Undefined where
  | nullName
  | noKey
deriving DecidableEq

variable {pki : Pki} {α β : Type}

/-- `strcmp` for equality. -/
def compareNames : Option CString → Option CString → Except Undefined Bool
  | some first, some second => .ok (first == second)
  | _, _ => .error .nullName

def orNoKey : Option α → Except Undefined α
  | some value => .ok value
  | none => .error .noKey

variable (names : Names pki)

def matchesIn (name : Option CString) (haskey : Bool) (modulus : Option (Block publicKeySize))
    (ident : Certified pki) : Except Undefined Bool := do
  let named ← if name.isNone then .ok true else compareNames name (names.name ident.cert)
  if named && (!haskey || ident.key.isSome) then
    match modulus with
    | none => .ok true
    | some modulus => orNoKey ((names.getKey ident.cert).map fun mod => mod == modulus)
  else .ok false

/-- `Find` of a certificate. -/
def findIn (name : Option CString) (haskey : Bool) (modulus : Option (Block publicKeySize))
    (place : Nat) : List (Entry pki) → Except Undefined (Option (Nat × Certified pki))
  | [] => .ok none
  | entry :: rest =>
    match entry.payload.certified with
    | none => findIn name haskey modulus (place + 1) rest
    | some ident => do
      if ← matchesIn names name haskey modulus ident then .ok (some (place, ident))
      else findIn name haskey modulus (place + 1) rest

def issuerOfIn (list : List (Entry pki)) (ident : Certified pki) :
    Except Undefined (Option (Certified pki)) := do
  if ← compareNames (names.name ident.cert) (names.issuerName ident.cert) then .ok (some ident)
  else
    let found ← findIn names (names.issuerName ident.cert) false none 0 list
    .ok (found.map Prod.snd)

def verifyIn (list : List (Entry pki)) (now : Nat) (ident : Certified pki) :
    Except Undefined Int := do
  match ← issuerOfIn names list ident with
  | none => .ok (-1)
  | some issuer => .ok (if issuer.identity.verify now ident.cert = 0 then 0 else -1)

def isLocalIn (list : List (Entry pki)) (ident : Certified pki) : Except Undefined Bool := do
  match ← findIn names none true none 0 list with
  | none => .ok false
  | some (_, localId) => compareNames (names.name localId.cert) (names.name ident.cert)

def clearIn (list : List (Entry pki)) (name : Option CString) :
    Except Undefined (List (Entry pki)) := do
  match ← findIn names name false none 0 list with
  | none => .ok list
  | some old => orNoKey (removeIdent names list old)

def replaceIn (list : List (Entry pki)) (ident : Certified pki) (exportkey : Bool) :
    Except Undefined (List (Entry pki)) := do
  let kept ← clearIn names list (names.name ident.cert)
  let copy := if exportkey then ident else { ident with key := none }
  orNoKey (insertIdentity kept copy exportkey none none 0)

/-- `Insert` of the certificate tool. -/
def insertIn (list : List (Entry pki)) (now : Nat) (ident : Certified pki) (exportkey : Bool) :
    Except Undefined (Int × List (Entry pki)) := do
  if (← verifyIn names list now ident) ≠ 0 then .ok (-1, list)
  else if ← isLocalIn names list ident then .ok (0, list)
  else
    let next ← replaceIn names list ident exportkey
    .ok (0, next)

/-- `Insert` of the file sharing application. -/
def sfsInsertIn (list : List (Entry pki)) (now : Nat) (ident : Certified pki) :
    Except Undefined (Int × List (Entry pki)) := do
  if ← isLocalIn names list ident then .ok (0, list)
  else if (← verifyIn names list now ident) ≠ 0 then .ok (-1, list)
  else
    let next ← replaceIn names list ident false
    .ok (0, next)

theorem toOption_bind (first : Except Undefined α) (next : α → Except Undefined β) :
    (first.bind next).toOption = first.toOption.bind fun value => (next value).toOption := by
  cases first <;> rfl

theorem orNoKey_toOption (value : Option α) : (orNoKey value).toOption = value := by
  cases value <;> rfl

theorem compareNames_toOption (first second : Option CString) :
    (compareNames first second).toOption = sameName first second := by
  cases first <;> cases second <;> rfl

theorem matchesIn_toOption (name : Option CString) (haskey : Bool)
    (modulus : Option (Block publicKeySize)) (ident : Certified pki) :
    (matchesIn names name haskey modulus ident).toOption =
      matchesIdent names name haskey modulus ident := by
  have rest (named : Bool) : (if named && (!haskey || ident.key.isSome) then
        match modulus with
        | none => Except.ok true
        | some modulus => orNoKey ((names.getKey ident.cert).map fun mod => mod == modulus)
      else .ok false).toOption = if named && (!haskey || ident.key.isSome) then
        match modulus with
        | none => some true
        | some modulus => (names.getKey ident.cert).map fun mod => mod == modulus
      else some false := by
    split
    next =>
      cases modulus with
      | none => rfl
      | some modulus => exact orNoKey_toOption _
    next => rfl
  cases name with
  | none => exact rest true
  | some name =>
    change ((compareNames (some name) (names.name ident.cert)).bind _).toOption = _
    rw [toOption_bind, compareNames_toOption]
    exact congrArg _ (funext rest)

theorem findIn_toOption (name : Option CString) (haskey : Bool)
    (modulus : Option (Block publicKeySize)) (place : Nat) (list : List (Entry pki)) :
    (findIn names name haskey modulus place list).toOption =
      findFrom names name haskey modulus place list := by
  induction list generalizing place with
  | nil => rfl
  | cons entry rest ih =>
    rw [findIn, findFrom]
    cases entry.payload.certified with
    | none => exact ih (place + 1)
    | some ident =>
      simp only [bind, toOption_bind, matchesIn_toOption]
      congr 1
      funext stops
      split
      next => rfl
      next => exact ih (place + 1)

theorem issuerOfIn_toOption (list : List (Entry pki)) (ident : Certified pki) :
    (issuerOfIn names list ident).toOption = issuerOf names list ident := by
  simp only [issuerOfIn, issuerOf, findIdent, bind, toOption_bind, compareNames_toOption]
  congr 1
  funext same
  split
  next => rfl
  next =>
    rw [toOption_bind, findIn_toOption]
    rfl

theorem verifyIn_toOption (list : List (Entry pki)) (now : Nat) (ident : Certified pki) :
    (verifyIn names list now ident).toOption = verify names list now ident := by
  simp only [verifyIn, verify, bind, toOption_bind, issuerOfIn_toOption]
  congr 1
  funext issuer
  cases issuer <;> rfl

theorem isLocalIn_toOption (list : List (Entry pki)) (ident : Certified pki) :
    (isLocalIn names list ident).toOption = isLocal names list ident := by
  simp only [isLocalIn, isLocal, findIdent, bind, toOption_bind, findIn_toOption]
  congr 1
  funext found
  cases found with
  | none => rfl
  | some found => exact compareNames_toOption _ _

theorem clearIn_toOption (list : List (Entry pki)) (name : Option CString) :
    (clearIn names list name).toOption = clear names list name := by
  simp only [clearIn, clear, findIdent, bind, toOption_bind, findIn_toOption]
  congr 1
  funext found
  cases found with
  | none => rfl
  | some found => exact orNoKey_toOption _

theorem replaceIn_toOption (list : List (Entry pki)) (ident : Certified pki) (exportkey : Bool) :
    (replaceIn names list ident exportkey).toOption = replace names list ident exportkey := by
  simp only [replaceIn, replace, bind, toOption_bind, clearIn_toOption, orNoKey_toOption]

theorem insertIn_toOption (list : List (Entry pki)) (now : Nat) (ident : Certified pki)
    (exportkey : Bool) :
    (insertIn names list now ident exportkey).toOption =
      insert names list now ident exportkey := by
  simp only [insertIn, insert, bind, toOption_bind, verifyIn_toOption]
  congr 1
  funext verdict
  split
  next => rfl
  next =>
    simp only [toOption_bind, isLocalIn_toOption]
    congr 1
    funext own
    split
    next => rfl
    next =>
      simp only [toOption_bind, replaceIn_toOption]
      rfl

theorem sfsInsertIn_toOption (list : List (Entry pki)) (now : Nat) (ident : Certified pki) :
    (sfsInsertIn names list now ident).toOption = Sfs.insert names list now ident := by
  simp only [sfsInsertIn, Sfs.insert, bind, toOption_bind, isLocalIn_toOption]
  congr 1
  funext own
  split
  next => rfl
  next =>
    simp only [toOption_bind, verifyIn_toOption]
    congr 1
    funext verdict
    split
    next => rfl
    next =>
      simp only [toOption_bind, replaceIn_toOption]
      rfl

def NoNull (result : Except Undefined α) : Prop := result ≠ .error .nullName

theorem noNull_ok (value : α) : NoNull (.ok value) := by
  intro failed
  cases failed

theorem noNull_orNoKey (value : Option α) : NoNull (orNoKey value) := by
  intro failed
  cases value <;> cases failed

theorem NoNull.bind {first : Except Undefined α} {next : α → Except Undefined β}
    (safe : NoNull first) (later : ∀ value, first = .ok value → NoNull (next value)) :
    NoNull (first.bind next) := by
  cases first with
  | error kind =>
    intro failed
    exact safe (congrArg Except.error (Except.error.inj failed))
  | ok value => exact later value rfl

theorem compareNames_noNull (first second : Option CString) :
    NoNull (compareNames first second) ↔ first.isSome = true ∧ second.isSome = true := by
  cases first <;> cases second <;> simp [compareNames, NoNull]

def AllNamed (list : List (Entry pki)) : Prop :=
  ∀ stored ∈ idents list, (names.name stored.cert).isSome = true

def BothNames (cert : pki.Cert) : Prop :=
  (names.name cert).isSome = true ∧ (names.issuerName cert).isSome = true

structure Harmless (list : List (Entry pki)) (ident : Certified pki) : Prop where
  find : ∀ name haskey modulus, NoNull (findIn names name haskey modulus 0 list)
  verify : ∀ now, NoNull (verifyIn names list now ident)
  insert : ∀ now exportkey, NoNull (insertIn names list now ident exportkey)
  sfsInsert : ∀ now, NoNull (sfsInsertIn names list now ident)

section

variable {names} {list : List (Entry pki)} {ident : Certified pki}

theorem allNamed_cons {entry : Entry pki} (certified : entry.payload.certified = some ident) :
    AllNamed names (entry :: list) ↔
      (names.name ident.cert).isSome = true ∧ AllNamed names list := by
  rw [AllNamed, idents_cons_some certified, List.forall_mem_cons]
  rfl

theorem matchesIn_noNull (named : (names.name ident.cert).isSome = true) (name : Option CString)
    (haskey : Bool) (modulus : Option (Block publicKeySize)) :
    NoNull (matchesIn names name haskey modulus ident) := by
  have rest (same : Bool) : NoNull (if same && (!haskey || ident.key.isSome) then
        match modulus with
        | none => Except.ok true
        | some modulus => orNoKey ((names.getKey ident.cert).map fun mod => mod == modulus)
      else .ok false) := by
    split
    next =>
      cases modulus with
      | none => exact noNull_ok true
      | some modulus => exact noNull_orNoKey _
    next => exact noNull_ok false
  cases name with
  | none => exact rest true
  | some name =>
    apply NoNull.bind ((compareNames_noNull (some name) (names.name ident.cert)).2 ⟨rfl, named⟩)
    intro same _
    exact rest same

theorem findIn_noNull (named : AllNamed names list) (name : Option CString) (haskey : Bool)
    (modulus : Option (Block publicKeySize)) (place : Nat) :
    NoNull (findIn names name haskey modulus place list) := by
  induction list generalizing place with
  | nil => exact noNull_ok none
  | cons entry rest ih =>
    rw [findIn]
    cases certified : entry.payload.certified with
    | none =>
      rw [AllNamed, idents_cons_none certified] at named
      exact ih named (place + 1)
    | some ident =>
      rw [allNamed_cons certified] at named
      apply NoNull.bind (matchesIn_noNull named.1 name haskey modulus)
      intro stops _
      split
      next => exact noNull_ok _
      next => exact ih named.2 (place + 1)

theorem findIn_mem {name : Option CString} {haskey : Bool}
    {modulus : Option (Block publicKeySize)} {place : Nat}
    (found : findIn names name haskey modulus 0 list = .ok (some (place, ident))) :
    ident ∈ idents list := by
  have old := findIn_toOption names name haskey modulus 0 list
  rw [found] at old
  exact Sfs.findIdent_mem old.symm

theorem findIn_fresh {name : CString}
    (fresh : ∀ stored ∈ idents list, names.name stored.cert ≠ some name)
    (nameless : ¬ AllNamed names list) (place : Nat) :
    findIn names (some name) false none place list = .error .nullName := by
  induction list generalizing place with
  | nil =>
    refine absurd ?_ nameless
    intro stored member
    cases member
  | cons entry rest ih =>
    rw [findIn]
    cases certified : entry.payload.certified with
    | none =>
      rw [AllNamed, idents_cons_none certified] at nameless
      rw [idents_cons_none certified] at fresh
      exact ih fresh nameless (place + 1)
    | some ident =>
      rw [allNamed_cons certified] at nameless
      rw [idents_cons_some certified, List.forall_mem_cons] at fresh
      cases held : names.name ident.cert with
      | none => simp [matchesIn, compareNames, held, bind, Except.bind]
      | some other =>
        have differ : (name == other) = false := by
          rw [beq_eq_false_iff_ne]
          intro same
          exact fresh.1 (held.trans (congrArg some same.symm))
        have later : ¬ AllNamed names rest := fun all => nameless ⟨by rw [held]; rfl, all⟩
        simp [matchesIn, compareNames, held, differ, bind, Except.bind, ih fresh.2 later]

theorem exists_fresh (values : List (Option CString)) : ∃ name : CString, some name ∉ values := by
  have infinite : Infinite CString := by
    refine Infinite.of_injective (fun size => ⟨List.replicate size 1, ?_⟩) ?_
    · intro member
      cases List.eq_of_mem_replicate member
    · intro first second same
      have lengths := congrArg (fun name : CString => name.val.length) same
      simpa using lengths
  obtain ⟨name, fresh⟩ := Infinite.exists_notMem_finset (values.filterMap id).toFinset
  refine ⟨name, fun member => fresh ?_⟩
  rw [List.mem_toFinset, List.mem_filterMap]
  exact ⟨some name, member, rfl⟩

theorem issuerOfIn_noNull (named : AllNamed names list) (both : BothNames names ident.cert) :
    NoNull (issuerOfIn names list ident) := by
  apply NoNull.bind ((compareNames_noNull _ _).2 both)
  intro same _
  split
  next => exact noNull_ok _
  next => exact (findIn_noNull named _ _ _ _).bind fun found _ => noNull_ok _

theorem verifyIn_noNull (named : AllNamed names list) (both : BothNames names ident.cert)
    (now : Nat) : NoNull (verifyIn names list now ident) := by
  apply NoNull.bind (issuerOfIn_noNull named both)
  intro issuer _
  cases issuer with
  | none => exact noNull_ok _
  | some issuer => exact noNull_ok _

theorem isLocalIn_noNull (named : AllNamed names list)
    (own : (names.name ident.cert).isSome = true) : NoNull (isLocalIn names list ident) := by
  apply NoNull.bind (findIn_noNull named _ _ _ _)
  intro found finds
  cases found with
  | none => exact noNull_ok _
  | some found =>
    obtain ⟨place, localId⟩ := found
    exact (compareNames_noNull _ _).2 ⟨named localId (findIn_mem finds), own⟩

theorem replaceIn_noNull (named : AllNamed names list) (exportkey : Bool) :
    NoNull (replaceIn names list ident exportkey) := by
  have cleared : NoNull (clearIn names list (names.name ident.cert)) := by
    apply NoNull.bind (findIn_noNull named _ _ _ _)
    intro found _
    cases found with
    | none => exact noNull_ok _
    | some found => exact noNull_orNoKey _
  exact cleared.bind fun kept _ => noNull_orNoKey _

theorem insertIn_noNull (named : AllNamed names list) (both : BothNames names ident.cert)
    (now : Nat) (exportkey : Bool) : NoNull (insertIn names list now ident exportkey) := by
  apply NoNull.bind (verifyIn_noNull named both now)
  intro verdict _
  split
  next => exact noNull_ok _
  next =>
    apply NoNull.bind (isLocalIn_noNull named both.1)
    intro own _
    split
    next => exact noNull_ok _
    next => exact (replaceIn_noNull named exportkey).bind fun next _ => noNull_ok _

theorem sfsInsertIn_noNull (named : AllNamed names list) (both : BothNames names ident.cert)
    (now : Nat) : NoNull (sfsInsertIn names list now ident) := by
  apply NoNull.bind (isLocalIn_noNull named both.1)
  intro own _
  split
  next => exact noNull_ok _
  next =>
    apply NoNull.bind (verifyIn_noNull named both now)
    intro verdict _
    split
    next => exact noNull_ok _
    next => exact (replaceIn_noNull named false).bind fun next _ => noNull_ok _

theorem harmless_state : Harmless names list ident ↔
    AllNamed names list ∧ BothNames names ident.cert := by
  constructor
  next =>
    intro harmless
    constructor
    next =>
      by_contra nameless
      obtain ⟨name, fresh⟩ :=
        exists_fresh ((idents list).map fun stored => names.name stored.cert)
      refine harmless.find (some name) false none (findIn_fresh ?_ nameless 0)
      intro stored member same
      exact fresh (List.mem_map.2 ⟨stored, member, same⟩)
    next =>
      have verified := harmless.verify 0
      cases compared : compareNames (names.name ident.cert) (names.issuerName ident.cert) with
      | ok same =>
        rw [BothNames, ← compareNames_noNull, compared]
        exact noNull_ok same
      | error kind =>
        have failed : verifyIn names list 0 ident = .error kind := by
          simp only [verifyIn, issuerOfIn, compared, bind, Except.bind]
        rw [BothNames, ← compareNames_noNull, compared]
        rw [failed] at verified
        intro null
        exact verified (congrArg Except.error (Except.error.inj null))
  next =>
    rintro ⟨named, both⟩
    exact ⟨fun name haskey modulus => findIn_noNull named name haskey modulus 0,
      verifyIn_noNull named both, insertIn_noNull named both, sfsInsertIn_noNull named both⟩

end

/-! # Stores that are loaded and inserted into -/

variable {pkcs12 : Pkcs12 pki}

/-- What puts entries into a store; a certificate of `Import` gets there by one of the inserts. -/
inductive Filling (pkcs12 : Pkcs12 pki) where
  -- `Load`, with the file that is there and the passwords of the store
  | load (file : Option pkcs12.File) (passwd macpasswd : Option CString)
  | add (ident : Certified pki) (exportkey : Bool) (friendly : Option CString)
    (id : Option Bytes) (idsize : Int)
  | addData (data : Bytes) (size : Int) (friendly : Option CString) (id : Option Bytes) (idsize : Int)
  | insert (now : Nat) (ident : Certified pki) (exportkey : Bool)
  | sfsInsert (now : Nat) (ident : Certified pki)

def fill (list : List (Entry pki)) : Filling pkcs12 → Option (List (Entry pki))
  | .load none _ _ => some []
  | .load (some file) passwd macpasswd => (importFile file passwd macpasswd []).map Prod.snd
  | .add ident exportkey friendly id idsize =>
    let copy := if exportkey then ident else { ident with key := none }
    insertIdentity list copy exportkey friendly id idsize
  | .addData data size friendly id idsize => insertData list data size friendly id idsize
  | .insert now ident exportkey => (insert names list now ident exportkey).map Prod.snd
  | .sfsInsert now ident => (Sfs.insert names list now ident).map Prod.snd

def fills (list : List (Entry pki)) (fillings : List (Filling pkcs12)) :
    Option (List (Entry pki)) :=
  fillings.foldlM (fill names) list

def Filling.Named : Filling pkcs12 → Prop
  | .load none _ _ => True
  | .load (some file) passwd _ => ∀ archive, pkcs12.decode file = some archive →
    ∀ safe ∈ pkcs12.unpackAuthsafes archive, ∀ bag ∈ safeBags passwd safe,
      ∀ cert ∈ bagCert bag, (names.name cert).isSome = true
  | .add ident _ _ _ _ => (names.name ident.cert).isSome = true
  | .addData _ _ _ _ _ => True
  | .insert _ ident _ | .sfsInsert _ ident => BothNames names ident.cert

section

variable {names} {list next final : List (Entry pki)}

theorem secretEntry_certified {bag : Bag pkcs12} {entry : Entry pki}
    (made : secretEntry bag = some entry) : entry.payload.certified = none := by
  obtain ⟨data, -, rfl⟩ := Option.map_eq_some_iff.1 made
  unfold dataPayload
  split <;> rfl

theorem bagEntry_certified {passwd : Option CString} {bag : Bag pkcs12}
    {rest : List (Bag pkcs12)} {entry : Entry pki} {ident : Certified pki}
    (made : bagEntry passwd bag rest = some entry)
    (certified : entry.payload.certified = some ident) : bagCert bag = some ident.cert := by
  unfold bagEntry at made
  split at made
  next cert held =>
    rw [← Option.some.inj made] at certified
    have same : ident.cert = cert := by
      unfold certEntry at certified
      split at certified
      next =>
        cases certified
        rfl
      next =>
        split at certified
        next =>
          cases certified
          rfl
        next =>
          cases certified
          rfl
    rw [held, same]
  next =>
    rw [secretEntry_certified made] at certified
    cases certified

theorem yields_certified {passwd : Option CString} {bags : List (Bag pkcs12)}
    {ident : Certified pki} (stored : ident ∈ idents (yields passwd bags)) :
    ∃ bag ∈ bags, bagCert bag = some ident.cert := by
  induction bags with
  | nil => cases stored
  | cons bag rest ih =>
    rw [yields, idents_append, List.mem_append] at stored
    rcases stored with first | later
    · obtain ⟨entry, member, certified⟩ := List.mem_filterMap.1 first
      rw [Option.mem_toList] at member
      exact ⟨bag, List.mem_cons_self, bagEntry_certified member certified⟩
    · obtain ⟨other, member, held⟩ := ih later
      exact ⟨other, List.mem_cons_of_mem bag member, held⟩

theorem importFile_named {file : pkcs12.File} {passwd macpasswd : Option CString} {status : Int}
    (named : Filling.Named names (.load (some file) passwd macpasswd))
    (imported : importFile file passwd macpasswd [] = some (status, next)) :
    AllNamed names next := by
  have nothing : AllNamed names ([] : List (Entry pki)) := by
    intro stored member
    cases member
  unfold importFile at imported
  split at imported
  next =>
    rw [Option.some.injEq, Prod.mk.injEq] at imported
    exact imported.2 ▸ nothing
  next archive decoded =>
    split at imported
    next =>
      simp only [importSafes_eq, Option.bind_eq_bind, Option.bind_eq_some_iff, Option.some.injEq,
        Option.ite_none_right_eq_some, Prod.mk.injEq] at imported
      obtain ⟨entries, ⟨-, rfl⟩, -, rfl⟩ := imported
      intro stored member
      obtain ⟨entry, listed, certified⟩ := List.mem_filterMap.1 member
      rw [List.nil_append, List.mem_flatMap] at listed
      obtain ⟨safe, packed, yielded⟩ := listed
      obtain ⟨bag, inside, held⟩ :=
        yields_certified (List.mem_filterMap.2 ⟨entry, yielded, certified⟩)
      exact named archive decoded safe packed bag inside stored.cert held
    next =>
      rw [Option.some.injEq, Prod.mk.injEq] at imported
      exact imported.2 ▸ nothing

theorem AllNamed.append {added : List (Entry pki)} (named : AllNamed names list)
    (new : AllNamed names added) : AllNamed names (list ++ added) := by
  intro stored member
  rw [idents_append, List.mem_append] at member
  exact member.elim (named stored) (new stored)

theorem replace_named {ident : Certified pki} {exportkey : Bool} (named : AllNamed names list)
    (own : (names.name ident.cert).isSome = true)
    (replaced : replace names list ident exportkey = some next) : AllNamed names next := by
  intro stored member
  rcases Sfs.replace_subset replaced stored member with old | new
  · exact named stored old
  · rw [new]
    exact own

theorem copyData_other {friendly : Option CString} {data : Bytes} {size : Int}
    {payload : Payload pki} (copied : copyData friendly data size = some payload) :
    payload.certified = none := by
  unfold copyData at copied
  split at copied
  next =>
    simp only at copied
    split at copied
    next => cases copied
    next => exact Option.some.inj copied ▸ rfl
  next =>
    obtain ⟨block, -, rfl⟩ := Option.map_eq_some_iff.1 copied
    rfl

theorem fill_named {filling : Filling pkcs12} (all : AllNamed names list)
    (named : filling.Named names) (filled : fill names list filling = some next) :
    AllNamed names next := by
  cases filling with
  | load file passwd macpasswd =>
    cases file with
    | none =>
      cases filled
      intro stored member
      cases member
    | some file =>
      obtain ⟨⟨status, _⟩, imported, rfl⟩ := Option.map_eq_some_iff.1 filled
      exact importFile_named named imported
  | add ident exportkey friendly id idsize =>
    simp only [fill, insertIdentity, Option.bind_eq_bind, Option.bind_eq_some_iff,
      Option.some.injEq] at filled
    obtain ⟨stored, -, rfl⟩ := filled
    apply all.append
    intro new member
    rw [List.mem_singleton.1 member]
    have own : (names.name ident.cert).isSome = true := named
    split
    next => exact own
    next => exact own
  | addData data size friendly id idsize =>
    simp only [fill, insertData, Option.bind_eq_bind, Option.bind_eq_some_iff,
      Option.some.injEq] at filled
    obtain ⟨payload, copied, stored, -, rfl⟩ := filled
    apply all.append
    intro new member
    rw [idents_cons_none (copyData_other copied)] at member
    cases member
  | insert now ident exportkey =>
    obtain ⟨⟨status, _⟩, inserted, rfl⟩ := Option.map_eq_some_iff.1 filled
    have both : BothNames names ident.cert := named
    rcases insert_cases inserted with ⟨-, rfl⟩ | ⟨-, -, replaced⟩
    · exact all
    · exact replace_named all both.1 replaced
  | sfsInsert now ident =>
    obtain ⟨⟨status, _⟩, inserted, rfl⟩ := Option.map_eq_some_iff.1 filled
    have both : BothNames names ident.cert := named
    rcases Sfs.insert_cases inserted with ⟨-, -, rfl⟩ | ⟨-, -, -, rfl⟩ | ⟨-, -, replaced⟩
    · exact all
    · exact all
    · exact replace_named all both.1 replaced

theorem fills_named {fillings : List (Filling pkcs12)} (all : AllNamed names list)
    (named : ∀ filling ∈ fillings, filling.Named names)
    (filled : fills names list fillings = some final) : AllNamed names final := by
  induction fillings generalizing list with
  | nil => exact Option.some.inj filled ▸ all
  | cons filling rest ih =>
    rw [fills, List.foldlM_cons, Option.bind_eq_bind, Option.bind_eq_some_iff] at filled
    obtain ⟨next, first, later⟩ := filled
    rw [List.forall_mem_cons] at named
    exact ih (fill_named all named.1 first) named.2 later

end

/-- No NULL name is compared exactly where every certificate has its names; so it is in all stores
that only such certificates get into. -/
theorem harmless_iff (names : Names pki) (pkcs12 : Pkcs12 pki) :
    (∀ (list : List (Entry pki)) (ident : Certified pki), Harmless names list ident ↔
      AllNamed names list ∧ BothNames names ident.cert) ∧
    ∀ (fillings : List (Filling pkcs12)) (final : List (Entry pki)),
      (∀ filling ∈ fillings, filling.Named names) → fills names [] fillings = some final →
        ∀ ident : Certified pki, BothNames names ident.cert → Harmless names final ident := by
  constructor
  next =>
    intro list ident
    exact harmless_state
  next =>
    intro fillings final named filled ident both
    have empty : AllNamed names ([] : List (Entry pki)) := by
      intro stored member
      cases member
    exact harmless_state.2 ⟨fills_named empty named filled, both⟩

theorem harmless_authority : ∃ final,
    fills paperNames [] [(.insert 5 ⟨authority, none⟩ false : Filling (plainPkcs12 paperPki))] =
      some final ∧ Harmless paperNames final ⟨brief, none⟩ := by
  have filled : ∃ final, fills paperNames []
      [(.insert 5 ⟨authority, none⟩ false : Filling (plainPkcs12 paperPki))] = some final :=
    ⟨_, rfl⟩
  obtain ⟨final, filled⟩ := filled
  refine ⟨final, filled, (harmless_iff paperNames (plainPkcs12 paperPki)).2 _ final ?_ filled _
    ⟨rfl, rfl⟩⟩
  intro filling member
  rw [List.mem_singleton.1 member]
  exact ⟨rfl, rfl⟩

def someNames : Names paperPki where
  name := fun paper : Paper => if paper.name = 0 then none else paperNames.name paper
  issuerName := paperNames.issuerName
  modulus := paperNames.modulus

def nameless : Paper := ⟨0, 7, 1, 1, 1000⟩

/-- A certificate without a common name is stored, and then every search for another name is
undefined. -/
theorem find_nameless : ∃ final,
    fills someNames [] [(.add ⟨nameless, none⟩ false none none 0 : Filling (plainPkcs12 paperPki))] =
        some final ∧
      findIn someNames (some doe) false none 0 final = .error .nullName ∧
        ¬ Harmless someNames final ⟨authority, none⟩ := by
  refine ⟨_, rfl, rfl, ?_⟩
  intro harmless
  exact harmless.find (some doe) false none rfl

end Cert
