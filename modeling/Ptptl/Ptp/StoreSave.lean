import Ptptl.Ptp.StoreRoundTrip

set_option autoImplicit false

/-!
# `Save` and `Export` when their steps fail

Each call of OpenSSL that can fail is a choice here; a call through a NULL is undefined behaviour.
-/

namespace Ptp.Store

/-- Which steps succeed for one entry. -/
structure EntrySteps where
  -- the certificate bag, or the structures of a secret bag
  made : Bool
  filled : Bool
  named : Bool
  identified : Bool
  pushed : Bool
  -- `EVP_PKEY2PKCS8`
  converted : Bool
  keyMade : Bool
  keyPushed : Bool
deriving DecidableEq

inductive Written {pki : Pki} (pkcs12 : Pkcs12 pki) where
  | whole
  -- a front of an encoding is no encoding
  | part (file : pkcs12.File) (broken : pkcs12.decode file = none)

structure ExportSteps {pki : Pki} (pkcs12 : Pkcs12 pki) where
  entries : Nat → EntrySteps
  packed : Bool
  safePushed : Bool
  init : Bool
  authsafes : Bool
  mac : Bool
  written : Written pkcs12

variable {pki : Pki} {pkcs12 : Pkcs12 pki}

def packBag (steps : EntrySteps) (entry : Entry pki) : Bag pkcs12 where
  value :=
    match entry.payload with
    | .identity _ _ => entry.payload.bagValue
    | _ => if steps.filled then entry.payload.bagValue else .badBag
  friendlyName :=
    if steps.named then entry.friendly.map fun friendly => .bmpString (asc2uni friendly.val)
    else none
  localKeyId := if steps.identified then entry.id.map .string else none

def packKey (steps : EntrySteps) (entry : Entry pki) : List (Bag pkcs12) :=
  match entry.payload.exportedKey with
  | none => []
  | some key =>
    -- a NULL on the stack is encoded as nothing
    if steps.keyMade && steps.keyPushed then
      if steps.converted then [{ value := .keyBag (some key) }] else [{ value := .badBag }]
    else []

def packEntry (steps : EntrySteps) (entry : Entry pki) : Option (List (Bag pkcs12)) :=
  if steps.made then
    some ((if steps.pushed then [packBag steps entry] else []) ++ packKey steps entry)
  else
    match entry.payload with
    -- the entry is passed over
    | .identity _ _ => some []
    -- the bag is filled without a look at it
    | _ => none

def packEntries (steps : Nat → EntrySteps) (place : Nat) :
    List (Entry pki) → Option (List (Bag pkcs12))
  | [] => some []
  | entry :: rest => do
    let bags ← packEntry (steps place) entry
    let others ← packEntries steps (place + 1) rest
    some (bags ++ others)

def packSafe (bags : List (Bag pkcs12)) (passwd : Option CString) : pkcs12.Safe :=
  match passwd with
  | some passwd => pkcs12.packEncrypted passwd bags
  | none => pkcs12.packData bags

/-- `Export` of a list: what the I/O sink holds afterwards. Its status is always 0. -/
def exportSteps (steps : ExportSteps pkcs12) (list : List (Entry pki))
    (passwd macpasswd : Option CString) : Option pkcs12.File := do
  let bags ← packEntries steps.entries 0 list
  let safes := if steps.packed && steps.safePushed then [packSafe bags passwd] else []
  -- packing writes to what could not be made
  if !steps.init then none
  let archive := pkcs12.packAuthsafes (if steps.authsafes then safes else [])
  let archive := if steps.mac then pkcs12.setMac archive macpasswd else archive
  match steps.written with
  | .whole => some (pkcs12.encode archive)
  | .part file _ => some file

def saveSteps (store : Store pkcs12) (opened : Bool) (steps : ExportSteps pkcs12) :
    Option (Int × Store pkcs12) :=
  if store.path then
    if opened then do
      let file ← exportSteps steps store.entries store.passwd store.macpasswd
      some (0, { store with medium := some file })
    else some (-1, store)
  else some (-1, store)

/-- The entry that `Export` of a certificate makes. -/
def exportedEntry (ident : Certified pki) (exportkey : Bool) : Entry pki :=
  ⟨.identity ident exportkey, none, none⟩

/-- `Export` of a certificate: its result, and what it stores in `data`. -/
def exportIdent (length : pkcs12.File → Nat) (ident : Option (Certified pki)) (exportkey : Bool)
    (passwd macpasswd : Option CString) (opened : Bool) (steps : ExportSteps pkcs12) :
    Option (Int × Option pkcs12.File) :=
  match ident with
  | none => some (-1, none)
  | some ident =>
    if opened then do
      let file ← exportSteps steps [exportedEntry ident exportkey] passwd macpasswd
      if length file > 0 then some (length file, some file) else some (-1, none)
    else some (-1, none)

/-- A file from which the passwords give the bags of all entries. -/
def Encodes (file : pkcs12.File) (list : List (Entry pki)) (passwd macpasswd : Option CString) :
    Prop :=
  ∃ archive, pkcs12.decode file = some archive ∧ pkcs12.verifyMac archive macpasswd = true ∧
    (pkcs12.unpackAuthsafes archive).flatMap (safeBags passwd) = exportBags list

def Payload.isIdentity : Payload pki → Bool
  | .identity _ _ => true
  | _ => false

structure EntrySteps.Done (steps : EntrySteps) (entry : Entry pki) : Prop where
  made : steps.made = true
  filled : entry.payload.isIdentity = false → steps.filled = true
  named : entry.friendly.isSome = true → steps.named = true
  identified : entry.id.isSome = true → steps.identified = true
  pushed : steps.pushed = true
  key : entry.payload.exportedKey.isSome = true →
    steps.converted = true ∧ steps.keyMade = true ∧ steps.keyPushed = true

theorem packBag_value (steps : EntrySteps) (entry : Entry pki) :
    (packBag steps entry : Bag pkcs12).value = (headBag entry : Bag pkcs12).value ↔
      (entry.payload.isIdentity = false → steps.filled = true) := by
  unfold packBag headBag
  cases entry.payload <;> cases steps.filled <;> simp [Payload.bagValue, Payload.isIdentity]

theorem packBag_eq_iff (steps : EntrySteps) (entry : Entry pki) :
    (packBag steps entry : Bag pkcs12) = headBag entry ↔
      (entry.payload.isIdentity = false → steps.filled = true) ∧
        (entry.friendly.isSome = true → steps.named = true) ∧
        (entry.id.isSome = true → steps.identified = true) := by
  have names : (packBag steps entry : Bag pkcs12).friendlyName =
      (headBag entry : Bag pkcs12).friendlyName ↔
        (entry.friendly.isSome = true → steps.named = true) := by
    unfold packBag headBag
    cases entry.friendly <;> cases steps.named <;> simp
  have ids : (packBag steps entry : Bag pkcs12).localKeyId =
      (headBag entry : Bag pkcs12).localKeyId ↔
        (entry.id.isSome = true → steps.identified = true) := by
    unfold packBag headBag
    cases entry.id <;> cases steps.identified <;> simp
  rw [← packBag_value, ← names, ← ids]
  constructor
  next =>
    intro same
    rw [same]
    exact ⟨rfl, rfl, rfl⟩
  next =>
    rintro ⟨value, name, id⟩
    exact SafeBag.mk.injEq .. ▸ ⟨value, name, id⟩

theorem packKey_length (steps : EntrySteps) (entry : Entry pki) :
    (packKey steps entry : List (Bag pkcs12)).length ≤ (keyBags entry : List (Bag pkcs12)).length := by
  unfold packKey keyBags
  cases entry.payload.exportedKey with
  | none => exact Nat.le_refl 0
  | some key =>
    simp only
    split
    next => split <;> exact Nat.le_refl 1
    next => exact Nat.zero_le _

theorem packKey_eq_iff (steps : EntrySteps) (entry : Entry pki) :
    (packKey steps entry : List (Bag pkcs12)) = keyBags entry ↔
      (entry.payload.exportedKey.isSome = true →
        steps.converted = true ∧ steps.keyMade = true ∧ steps.keyPushed = true) := by
  unfold packKey keyBags
  cases entry.payload.exportedKey with
  | none => simp
  | some key => cases steps.converted <;> cases steps.keyMade <;> cases steps.keyPushed <;> simp

theorem packEntry_length {steps : EntrySteps} {entry : Entry pki} {bags : List (Bag pkcs12)}
    (packed : packEntry steps entry = some bags) :
    bags.length ≤ (exportEntry entry : List (Bag pkcs12)).length := by
  have keys := @packKey_length _ pkcs12 steps entry
  rw [exportEntry_eq, List.length_cons]
  unfold packEntry at packed
  split at packed
  next =>
    rw [← Option.some.inj packed, List.length_append]
    split
    next =>
      rw [List.length_singleton]
      omega
    next =>
      rw [List.length_nil]
      omega
  next =>
    split at packed
    next => simp [← Option.some.inj packed]
    next => cases packed

theorem packEntry_iff (steps : EntrySteps) (entry : Entry pki) :
    packEntry steps entry = some (exportEntry entry : List (Bag pkcs12)) ↔ steps.Done entry := by
  have keys := @packKey_length _ pkcs12 steps entry
  rw [exportEntry_eq]
  constructor
  next =>
    intro packed
    unfold packEntry at packed
    split at packed
    next made =>
      rw [Option.some.injEq] at packed
      split at packed
      next pushed =>
        rw [List.singleton_append, List.cons.injEq, packBag_eq_iff, packKey_eq_iff] at packed
        obtain ⟨⟨filled, named, identified⟩, key⟩ := packed
        exact ⟨made, filled, named, identified, pushed, key⟩
      next =>
        have count := congrArg List.length packed
        rw [List.nil_append, List.length_cons] at count
        omega
    next =>
      split at packed
      next => cases packed
      next => cases packed
  next =>
    intro done
    have head := (@packBag_eq_iff _ pkcs12 steps entry).2 ⟨done.filled, done.named, done.identified⟩
    have key := (@packKey_eq_iff _ pkcs12 steps entry).2 done.key
    rw [packEntry, if_pos done.made, if_pos done.pushed, head, key]
    rfl

theorem packEntries_length {steps : Nat → EntrySteps} {place : Nat} {list : List (Entry pki)}
    {bags : List (Bag pkcs12)} (packed : packEntries steps place list = some bags) :
    bags.length ≤ (exportBags list : List (Bag pkcs12)).length := by
  induction list generalizing place bags with
  | nil =>
    rw [← Option.some.inj packed]
    exact Nat.zero_le _
  | cons entry rest ih =>
    simp only [packEntries, Option.bind_eq_bind, Option.bind_eq_some_iff] at packed
    obtain ⟨first, here, others, later, same⟩ := packed
    have head := packEntry_length here
    have tail := ih later
    rw [← Option.some.inj same, exportBags, List.flatMap_cons, List.length_append,
      List.length_append]
    exact Nat.add_le_add head tail

def AllDone (steps : Nat → EntrySteps) (list : List (Entry pki)) : Prop :=
  ∀ place entry, list[place]? = some entry → (steps place).Done entry

theorem allDone_cons {steps : Nat → EntrySteps} {entry : Entry pki} {rest : List (Entry pki)} :
    AllDone steps (entry :: rest) ↔
      (steps 0).Done entry ∧ AllDone (fun place => steps (place + 1)) rest := by
  constructor
  next =>
    intro done
    exact ⟨done 0 entry rfl, fun place other here => done (place + 1) other here⟩
  next =>
    rintro ⟨first, later⟩ place other here
    cases place with
    | zero => exact Option.some.inj here ▸ first
    | succ place => exact later place other here

theorem packEntries_iff (steps : Nat → EntrySteps) (place : Nat) (list : List (Entry pki)) :
    packEntries steps place list = some (exportBags list : List (Bag pkcs12)) ↔
      AllDone (fun index => steps (place + index)) list := by
  induction list generalizing place with
  | nil => simp [packEntries, exportBags, AllDone]
  | cons entry rest ih =>
    have shift : (fun index => steps (place + (index + 1))) =
        fun index => steps (place + 1 + index) := by
      funext index
      rw [Nat.add_comm index 1, Nat.add_assoc]
    rw [allDone_cons, Nat.add_zero, shift, ← ih, ← @packEntry_iff _ pkcs12]
    simp only [packEntries, exportBags, List.flatMap_cons, Option.bind_eq_bind,
      Option.bind_eq_some_iff, Option.some.injEq]
    constructor
    next =>
      rintro ⟨first, here, others, later, same⟩
      have head := packEntry_length here
      have tail := packEntries_length later
      have count := congrArg List.length same
      rw [List.length_append, List.length_append] at count
      rw [exportBags] at tail
      obtain ⟨whole, all⟩ := List.append_inj same (by omega)
      exact ⟨whole ▸ here, all ▸ later⟩
    next =>
      rintro ⟨here, later⟩
      exact ⟨_, here, _, later, rfl⟩

structure ExportSteps.Succeed (steps : ExportSteps pkcs12) (list : List (Entry pki)) : Prop where
  entries : AllDone steps.entries list
  safe : list ≠ [] → steps.packed = true ∧ steps.safePushed = true ∧ steps.authsafes = true
  init : steps.init = true
  mac : steps.mac = true
  written : steps.written = .whole

theorem safeBags_packSafe (lawful : pkcs12.Lawful) (bags : List (Bag pkcs12))
    (passwd : Option CString) : safeBags passwd (packSafe bags passwd) = bags := by
  unfold safeBags packSafe
  cases passwd with
  | none => rw [lawful.data, Option.getD_some]
  | some passwd => rw [lawful.encrypted, Option.getD_some]

def packedSafes (steps : ExportSteps pkcs12) (bags : List (Bag pkcs12))
    (passwd : Option CString) : List pkcs12.Safe :=
  if steps.authsafes then
    if steps.packed && steps.safePushed then [packSafe bags passwd] else []
  else []

theorem packedSafes_bags (lawful : pkcs12.Lawful) (steps : ExportSteps pkcs12)
    (bags : List (Bag pkcs12)) (passwd : Option CString) :
    (packedSafes steps bags passwd).flatMap (safeBags passwd) =
      if steps.packed ∧ steps.safePushed ∧ steps.authsafes then bags else [] := by
  unfold packedSafes
  cases steps.authsafes <;> cases steps.packed <;> cases steps.safePushed <;>
    simp [safeBags_packSafe lawful]

theorem exportSteps_eq (steps : ExportSteps pkcs12) (list : List (Entry pki))
    (passwd macpasswd : Option CString) :
    exportSteps steps list passwd macpasswd =
      (packEntries steps.entries 0 list).bind fun bags =>
        if steps.init then
          match steps.written with
          | .whole =>
            let archive := pkcs12.packAuthsafes (packedSafes steps bags passwd)
            some (pkcs12.encode (if steps.mac then pkcs12.setMac archive macpasswd else archive))
          | .part file _ => some file
        else none := by
  unfold exportSteps
  cases packEntries steps.entries 0 list with
  | none => rfl
  | some bags =>
    cases steps.init with
    | false => rfl
    | true => cases steps.written <;> rfl

theorem exportBags_nil {list : List (Entry pki)} :
    (exportBags list : List (Bag pkcs12)) = [] ↔ list = [] := by
  cases list with
  | nil => simp [exportBags]
  | cons entry rest => simp [exportBags, exportEntry_eq]

theorem exportSteps_encodes (lawful : pkcs12.Lawful)
    (unmarked : ∀ safes macpasswd,
      pkcs12.verifyMac (pkcs12.packAuthsafes safes) macpasswd = false)
    (steps : ExportSteps pkcs12) (list : List (Entry pki)) (passwd macpasswd : Option CString) :
    (∃ file, exportSteps steps list passwd macpasswd = some file ∧
        Encodes file list passwd macpasswd) ↔ steps.Succeed list := by
  have all := @packEntries_iff _ pkcs12 steps.entries 0 list
  simp only [Nat.zero_add] at all
  rw [exportSteps_eq]
  constructor
  next =>
    rintro ⟨file, run, archive, decoded, verified, bags⟩
    rw [Option.bind_eq_some_iff] at run
    obtain ⟨packed, entries, run⟩ := run
    split at run
    next init =>
      split at run
      next written =>
        rw [← Option.some.inj run, lawful.file, Option.some.injEq] at decoded
        subst decoded
        split at verified
        next mac =>
          rw [if_pos mac, lawful.authsafes, packedSafes_bags lawful] at bags
          split at bags
          next safe =>
            subst bags
            exact ⟨all.1 entries, fun _ => safe, init, mac, written⟩
          next =>
            have empty := exportBags_nil.1 bags.symm
            subst empty
            have nothing : AllDone steps.entries ([] : List (Entry pki)) := by
              intro place entry here
              cases here
            exact ⟨nothing, fun present => absurd rfl present, init, mac, written⟩
        next =>
          rw [unmarked] at verified
          cases verified
      next file' broken _ =>
        rw [← Option.some.inj run, broken] at decoded
        cases decoded
    next => cases run
  next =>
    intro succeed
    rw [all.2 succeed.entries, Option.bind_some, if_pos succeed.init, succeed.written]
    refine ⟨_, rfl, _, lawful.file _, ?_, ?_⟩
    · rw [if_pos succeed.mac, lawful.mac]
    · rw [if_pos succeed.mac, lawful.authsafes, packedSafes_bags lawful]
      split
      next => rfl
      next unsafe' =>
        by_cases empty : list = []
        · exact (exportBags_nil.2 empty).symm
        · exact absurd (succeed.safe empty) unsafe'

theorem exportSteps_exportFile (steps : ExportSteps pkcs12) {list : List (Entry pki)}
    (passwd macpasswd : Option CString) (succeed : steps.Succeed list) (present : list ≠ []) :
    exportSteps steps list passwd macpasswd = some (exportFile list passwd macpasswd) := by
  have all := @packEntries_iff _ pkcs12 steps.entries 0 list
  simp only [Nat.zero_add] at all
  obtain ⟨packed, pushed, authsafes⟩ := succeed.safe present
  rw [exportSteps_eq, all.2 succeed.entries, Option.bind_some, if_pos succeed.init,
    succeed.written]
  simp only [packedSafes, packed, pushed, authsafes, succeed.mac, Bool.and_self, if_true]
  rfl

/-- `Save` tells whether the archive now holds all entries. -/
def SaveReports (store : Store pkcs12) (opened : Bool) (steps : ExportSteps pkcs12) : Prop :=
  ∃ status after, store.saveSteps opened steps = some (status, after) ∧
    (status = 0 → ∃ file, after.medium = some file ∧
      Encodes file store.entries store.passwd store.macpasswd)

/-- `Export` returns a positive size only for as many bytes that encode the certificate. -/
def ExportReports (length : pkcs12.File → Nat) (ident : Option (Certified pki)) (exportkey : Bool)
    (passwd macpasswd : Option CString) (opened : Bool) (steps : ExportSteps pkcs12) : Prop :=
  ∃ size data, exportIdent length ident exportkey passwd macpasswd opened steps =
      some (size, data) ∧
    (0 < size → ∃ file target, data = some file ∧ (length file : Int) = size ∧
      ident = some target ∧ Encodes file [exportedEntry target exportkey] passwd macpasswd)

def Written.Nothing (length : pkcs12.File → Nat) : Written pkcs12 → Prop
  | .whole => False
  | .part file _ => length file = 0

theorem packEntries_ident (steps : Nat → EntrySteps) (ident : Certified pki) (exportkey : Bool) :
    ∃ bags : List (Bag pkcs12), packEntries steps 0 [exportedEntry ident exportkey] = some bags := by
  have first : ∃ bags : List (Bag pkcs12),
      packEntry (steps 0) (exportedEntry ident exportkey) = some bags := by
    unfold packEntry exportedEntry
    split
    next => exact ⟨_, rfl⟩
    next => exact ⟨_, rfl⟩
  obtain ⟨bags, first⟩ := first
  exact ⟨bags ++ [], by simp [packEntries, first]⟩

theorem saveReports_path {store : Store pkcs12} {opened : Bool} (steps : ExportSteps pkcs12)
    (held : store.path = true ∧ opened = true) :
    SaveReports store opened steps ↔
      ∃ file, exportSteps steps store.entries store.passwd store.macpasswd = some file ∧
        Encodes file store.entries store.passwd store.macpasswd := by
  simp only [SaveReports, saveSteps, held, if_true]
  cases exportSteps steps store.entries store.passwd store.macpasswd with
  | none => simp
  | some file => simp

theorem saveReports_closed {store : Store pkcs12} {opened : Bool} (steps : ExportSteps pkcs12)
    (closed : ¬ (store.path = true ∧ opened = true)) : SaveReports store opened steps := by
  have result : store.saveSteps opened steps = some (-1, store) := by
    unfold saveSteps
    cases path : store.path with
    | false => rfl
    | true =>
      cases opened with
      | false => rfl
      | true => exact absurd ⟨path, rfl⟩ closed
  exact ⟨-1, store, result, fun zero => by cases zero⟩

theorem exportReports_opened {length : pkcs12.File → Nat} (ident : Certified pki)
    (exportkey : Bool) (passwd macpasswd : Option CString) (steps : ExportSteps pkcs12) :
    ExportReports length (some ident) exportkey passwd macpasswd true steps ↔
      ∃ file, exportSteps steps [exportedEntry ident exportkey] passwd macpasswd = some file ∧
        (0 < length file → Encodes file [exportedEntry ident exportkey] passwd macpasswd) := by
  simp only [ExportReports, exportIdent, if_true]
  cases exportSteps steps [exportedEntry ident exportkey] passwd macpasswd with
  | none => simp
  | some file =>
    by_cases present : 0 < length file
    next =>
      simp only [Option.bind_eq_bind, Option.bind_some, if_pos present, Option.some.injEq,
        Prod.mk.injEq]
      constructor
      next =>
        rintro ⟨size, data, ⟨rfl, rfl⟩, sound⟩
        obtain ⟨file', target, same, -, rfl, encodes⟩ := sound (by omega)
        cases same
        exact ⟨file, rfl, fun _ => encodes⟩
      next =>
        rintro ⟨file', rfl, sound⟩
        exact ⟨_, _, ⟨rfl, rfl⟩, fun _ => ⟨_, ident, rfl, rfl, rfl, sound present⟩⟩
    next =>
      simp only [Option.bind_eq_bind, Option.bind_some, if_neg present, Option.some.injEq,
        Prod.mk.injEq]
      constructor
      next =>
        intro _
        exact ⟨file, rfl, fun positive => absurd positive present⟩
      next =>
        intro _
        exact ⟨_, _, ⟨rfl, rfl⟩, fun positive => by omega⟩

theorem exportSteps_ident (lawful : pkcs12.Lawful)
    (unmarked : ∀ safes macpasswd,
      pkcs12.verifyMac (pkcs12.packAuthsafes safes) macpasswd = false)
    {length : pkcs12.File → Nat} (nonempty : ∀ archive, 0 < length (pkcs12.encode archive))
    (steps : ExportSteps pkcs12) (ident : Certified pki) (exportkey : Bool)
    (passwd macpasswd : Option CString) :
    (∃ file, exportSteps steps [exportedEntry ident exportkey] passwd macpasswd = some file ∧
        (0 < length file → Encodes file [exportedEntry ident exportkey] passwd macpasswd)) ↔
      steps.Succeed [exportedEntry ident exportkey] ∨
        steps.init = true ∧ steps.written.Nothing length := by
  rw [← exportSteps_encodes lawful unmarked steps [exportedEntry ident exportkey] passwd macpasswd]
  constructor
  next =>
    rintro ⟨file, run, sound⟩
    by_cases present : 0 < length file
    next => exact .inl ⟨file, run, sound present⟩
    next =>
      rw [exportSteps_eq, Option.bind_eq_some_iff] at run
      obtain ⟨bags, -, run⟩ := run
      split at run
      next init =>
        split at run
        next =>
          rw [← Option.some.inj run] at present
          exact absurd (nonempty _) present
        next file' broken written =>
          rw [← Option.some.inj run] at present
          exact .inr ⟨init, written ▸ Nat.eq_zero_of_not_pos present⟩
      next => cases run
  next =>
    intro result
    rcases result with ⟨file, run, encodes⟩ | ⟨init, nothing⟩
    · exact ⟨file, run, fun _ => encodes⟩
    · obtain ⟨bags, packed⟩ := @packEntries_ident _ pkcs12 steps.entries ident exportkey
      cases written : steps.written with
      | whole =>
        rw [written] at nothing
        exact absurd nothing id
      | part file broken =>
        rw [written] at nothing
        have none : length file = 0 := nothing
        refine ⟨file, ?_, fun present => by omega⟩
        rw [exportSteps_eq, packed, Option.bind_some, if_pos init, written]

/-- With a file or buffer to write to, both report what happened exactly when all steps that they
need succeed, or `Export` of a certificate has written nothing at all. -/
theorem saveReports_iff (lawful : pkcs12.Lawful)
    (unmarked : ∀ safes macpasswd,
      pkcs12.verifyMac (pkcs12.packAuthsafes safes) macpasswd = false)
    {length : pkcs12.File → Nat} (nonempty : ∀ archive, 0 < length (pkcs12.encode archive))
    (store : Store pkcs12) (ident : Option (Certified pki)) (exportkey : Bool)
    (passwd macpasswd : Option CString) (opened : Bool) (steps : ExportSteps pkcs12) :
    (SaveReports store opened steps ↔
        (store.path = true ∧ opened = true → steps.Succeed store.entries)) ∧
      (ExportReports length ident exportkey passwd macpasswd opened steps ↔
        ∀ target, ident = some target → opened = true →
          steps.Succeed [exportedEntry target exportkey] ∨
            steps.init = true ∧ steps.written.Nothing length) := by
  constructor
  next =>
    by_cases held : store.path = true ∧ opened = true
    next =>
      rw [saveReports_path steps held, exportSteps_encodes lawful unmarked]
      exact ⟨fun succeed _ => succeed, fun succeed => succeed held⟩
    next =>
      exact ⟨fun _ open' => absurd open' held, fun _ => saveReports_closed steps held⟩
  next =>
    cases ident with
    | none =>
      constructor
      next =>
        intro _ target absent
        cases absent
      next =>
        intro _
        exact ⟨-1, none, rfl, fun positive => by cases positive⟩
    | some ident =>
      cases opened with
      | false =>
        constructor
        next =>
          intro _ target _ closed
          cases closed
        next =>
          intro _
          exact ⟨-1, none, rfl, fun positive => by cases positive⟩
      | true =>
        rw [exportReports_opened, exportSteps_ident lawful unmarked nonempty]
        constructor
        next =>
          intro result target same _
          exact Option.some.inj same ▸ result
        next =>
          intro result
          exact result ident rfl rfl

def plainLength (pki : Pki) (file : (plainPkcs12 pki).File) : Nat := file.1.length + 1

def allSteps (pki : Pki) : ExportSteps (plainPkcs12 pki) where
  entries _ := ⟨true, true, true, true, true, true, true, true⟩
  packed := true
  safePushed := true
  init := true
  authsafes := true
  mac := true
  written := .whole

theorem plainPkcs12_unmarked (pki : Pki) (safes : List (plainPkcs12 pki).Safe)
    (macpasswd : Option CString) :
    (plainPkcs12 pki).verifyMac ((plainPkcs12 pki).packAuthsafes safes) macpasswd = false := by
  simp [plainPkcs12]

def johnStore : Store (plainPkcs12 plainPki) := ⟨true, none, none, none, johnDoe true⟩

theorem saveReports_john :
    (SaveReports johnStore true (allSteps plainPki) ↔
        (johnStore.path = true ∧ true = true → (allSteps plainPki).Succeed johnStore.entries)) ∧
      (ExportReports (plainLength plainPki) (some ⟨(), some ()⟩) true none none true
          (allSteps plainPki) ↔
        ∀ target, some ⟨(), some ()⟩ = some target → true = true →
          (allSteps plainPki).Succeed [exportedEntry target true] ∨
            (allSteps plainPki).init = true ∧
              (allSteps plainPki).written.Nothing (plainLength plainPki)) :=
  saveReports_iff (plainPkcs12_lawful plainPki) (plainPkcs12_unmarked plainPki)
    (fun _ => Nat.succ_pos _) johnStore _ true none none true (allSteps plainPki)

/-- The MAC could not be set, and `Save` returns 0 for an archive that no password opens. -/
theorem save_unreported : let steps := { allSteps plainPki with mac := false }
    ¬ SaveReports johnStore true steps ∧
      (johnStore.saveSteps true steps).map Prod.fst = some 0 := by
  intro steps
  constructor
  next =>
    intro reports
    rw [saveReports_path steps ⟨rfl, rfl⟩, exportSteps_encodes (plainPkcs12_lawful plainPki)
      (plainPkcs12_unmarked plainPki)] at reports
    cases reports.mac
  next => rfl

end Ptp.Store
