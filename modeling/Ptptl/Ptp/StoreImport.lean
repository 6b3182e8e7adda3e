import Ptptl.Ptp.StoreReachable

set_option autoImplicit false

/-! # `Import` of one certificate from PKCS#12 data -/

namespace Ptp.Store

variable {pki : Pki} {pkcs12 : Pkcs12 pki}

inductive Variant (pki : Pki) where
  | ident (pointer : Option (Certified pki))
  | key (data : Bytes)
  | secret (data : Option Buffer) (size : Nat)

/-- What `entry->ident.ident` reads. -/
inductive Pointer (pki : Pki) where
  | null
  | identity (ident : Certified pki)
  -- the first bytes of a key, taken for an address
  | address (bytes : Bytes)
  -- the block of a secret, taken for an Identity
  | block (data : Buffer)

/-- What `Destroy` frees. -/
inductive Released (pki : Pki) where
  | identity (ident : Certified pki)
  | key
  | secret (data : Buffer)

def Payload.variant : Payload pki → Variant pki
  | .identity ident _ => .ident (some ident)
  | .key data => .key data.val
  | .secret data => .secret (some data) data.val.length

def Payload.released : Payload pki → Released pki
  | .identity ident _ => .identity ident
  | .key _ => .key
  | .secret data => .secret data

/-- `entry->ident.ident`, where a pointer has `pointerSize` bytes. -/
def Variant.readIdent (pointerSize : Nat) : Variant pki → Pointer pki
  | .ident none => .null
  | .ident (some target) => .identity target
  | .key data =>
    let bytes := data.take pointerSize
    if bytes.all (· == 0) then .null else .address bytes
  | .secret none _ => .null
  | .secret (some data) _ => .block data

/-- `entry->ident.ident = NULL`. -/
def Variant.clearIdent (pointerSize : Nat) : Variant pki → Variant pki
  | .ident _ => .ident none
  | .key data => .key (List.replicate (min pointerSize data.length) 0 ++ data.drop pointerSize)
  | .secret _ size => .secret none size

def Variant.release : Variant pki → Option (List (Released pki))
  | .ident none => some []
  | .ident (some target) => some [.identity target]
  | .key _ => some [.key]
  | .secret (some data) _ => some [.secret data]
  -- memset of a NULL
  | .secret none size => if size = 0 then some [] else none

def destroy : List (Variant pki) → Option (List (Released pki))
  | [] => some []
  | entry :: rest => do
    let first ← entry.release
    let others ← destroy rest
    some (first ++ others)

/-- `Import` of PKCS#12 data: what it returns and what it frees. -/
def importData (pointerSize : Nat) (file : pkcs12.File) (passwd macpasswd : Option CString) :
    Option (Pointer pki × List (Released pki)) := do
  let (status, list) ← importFile file passwd macpasswd []
  let entries := list.map fun entry => entry.payload.variant
  match entries with
  | head :: rest =>
    if status = 0 then do
      let released ← destroy (head.clearIdent pointerSize :: rest)
      some (head.readIdent pointerSize, released)
    else do
      let released ← destroy entries
      some (.null, released)
  | [] => some (.null, [])

def archivePayloads (passwd : Option CString) (archive : pkcs12.Archive) : List (Payload pki) :=
  (pkcs12.unpackAuthsafes archive).flatMap fun safe =>
    (yields passwd (safeBags passwd safe)).map Entry.payload

def Payload.ident : Payload pki → Option (Certified pki)
  | .identity ident _ => some ident
  | _ => none

def firstIdentity (payloads : List (Payload pki)) : Pointer pki :=
  match payloads.findSome? Payload.ident with
  | some ident => .identity ident
  | none => .null

def remaining (payloads : List (Payload pki)) : List (Payload pki) :=
  payloads.eraseP fun payload => payload.ident.isSome

def ArchiveReadable (passwd : Option CString) (archive : pkcs12.Archive) : Prop :=
  ∀ safe ∈ pkcs12.unpackAuthsafes archive, ∀ bag ∈ safeBags passwd safe, readable bag = true

/-- The first payload is a certificate or, where there is no certificate at all, nothing or a key
that starts with the bytes of NULL. -/
def Leading (pointerSize : Nat) : List (Payload pki) → Prop
  | [] => True
  | .identity _ _ :: _ => True
  | .key data :: rest =>
    (data.val.take pointerSize).all (· == 0) = true ∧ ∀ payload ∈ rest, payload.ident = none
  | .secret _ :: _ => False

theorem destroy_variants (payloads : List (Payload pki)) :
    destroy (payloads.map Payload.variant) = some (payloads.map Payload.released) := by
  induction payloads with
  | nil => rfl
  | cons payload rest ih =>
    have first : payload.variant.release = some [payload.released] := by
      cases payload <;> rfl
    simp [destroy, first, ih]

theorem importData_payloads (pointerSize : Nat) {file : pkcs12.File} {archive : pkcs12.Archive}
    {passwd macpasswd : Option CString} (decoded : pkcs12.decode file = some archive)
    (valid : pkcs12.verifyMac archive macpasswd = true)
    (read : ArchiveReadable passwd archive) :
    importData pointerSize file passwd macpasswd =
      match (archivePayloads passwd archive).map Payload.variant with
      | [] => some (.null, [])
      | head :: rest => (destroy (head.clearIdent pointerSize :: rest)).map
          fun released => (head.readIdent pointerSize, released) := by
  have all : ((pkcs12.unpackAuthsafes archive).all fun safe =>
      (safeBags passwd safe).all readable) = true := by
    simp only [List.all_eq_true]
    exact read
  have entries : ((pkcs12.unpackAuthsafes archive).flatMap fun safe =>
      yields passwd (safeBags passwd safe)).map (fun entry => entry.payload.variant) =
      (archivePayloads passwd archive).map Payload.variant := by
    simp only [archivePayloads, List.map_flatMap, List.map_map]
    rfl
  simp only [importData, importFile, decoded, valid, if_true, importSafes_eq, all, List.nil_append,
    Option.bind_eq_bind, Option.bind_some, entries]
  cases (archivePayloads passwd archive).map Payload.variant with
  | nil => rfl
  | cons head rest =>
    simp only
    cases destroy (head.clearIdent pointerSize :: rest) <;> rfl

theorem importData_unreadable (pointerSize : Nat) {file : pkcs12.File} {archive : pkcs12.Archive}
    {passwd macpasswd : Option CString} (decoded : pkcs12.decode file = some archive)
    (valid : pkcs12.verifyMac archive macpasswd = true)
    (unread : ¬ ArchiveReadable passwd archive) :
    importData pointerSize file passwd macpasswd = none := by
  have some : ((pkcs12.unpackAuthsafes archive).all fun safe =>
      (safeBags passwd safe).all readable) = false := by
    rw [← Bool.not_eq_true]
    simp only [List.all_eq_true]
    exact unread
  simp [importData, importFile, decoded, valid, importSafes_eq, some]

theorem importData_invalid (pointerSize : Nat) (file : pkcs12.File)
    (passwd macpasswd : Option CString)
    (invalid : ∀ archive, pkcs12.decode file = some archive →
      pkcs12.verifyMac archive macpasswd = false) :
    importData pointerSize file passwd macpasswd = some (.null, []) := by
  cases decoded : pkcs12.decode file with
  | none => simp [importData, importFile, decoded]
  | some archive => simp [importData, importFile, decoded, invalid archive decoded]

theorem firstIdentity_cons (payload : Payload pki) (rest : List (Payload pki)) :
    firstIdentity (payload :: rest) =
      match payload.ident with
      | some ident => .identity ident
      | none => firstIdentity rest := by
  unfold firstIdentity
  rw [List.findSome?_cons]
  cases payload.ident <;> rfl

theorem importData_identity {pointerSize : Nat} {file : pkcs12.File}
    {passwd macpasswd : Option CString} {ident : Certified pki} {released : List (Released pki)}
    (imported : importData pointerSize file passwd macpasswd = some (.identity ident, released)) :
    ∃ archive, pkcs12.decode file = some archive ∧
      firstIdentity (archivePayloads passwd archive) = .identity ident := by
  by_cases valid : ∃ archive, pkcs12.decode file = some archive ∧
      pkcs12.verifyMac archive macpasswd = true
  next =>
    rcases valid with ⟨archive, decoded, valid⟩
    by_cases read : ArchiveReadable passwd archive
    next =>
      rw [importData_payloads pointerSize decoded valid read] at imported
      cases payloads : archivePayloads passwd archive with
      | nil => simp [payloads] at imported
      | cons payload rest =>
        rw [payloads, List.map_cons] at imported
        rcases Option.map_eq_some_iff.1 imported with ⟨others, -, same⟩
        have pointer := congrArg Prod.fst same
        refine ⟨archive, decoded, ?_⟩
        rw [payloads, firstIdentity_cons]
        cases payload with
        | identity first exportkey => exact pointer
        | key data =>
          simp only [Payload.variant, Variant.readIdent] at pointer
          split at pointer <;> contradiction
        | secret data => contradiction
    next =>
      rw [importData_unreadable pointerSize decoded valid read] at imported
      contradiction
  next =>
    rw [importData_invalid pointerSize file passwd macpasswd] at imported
    · simp at imported
    · intro archive decoded
      exact Bool.eq_false_iff.2 fun verified => valid ⟨archive, decoded, verified⟩

theorem readIdent_first (pointerSize : Nat) (payload : Payload pki) (rest : List (Payload pki)) :
    payload.variant.readIdent pointerSize = firstIdentity (payload :: rest) ↔
      Leading pointerSize (payload :: rest) := by
  rw [firstIdentity_cons]
  cases payload with
  | identity ident exportkey => exact iff_of_true rfl trivial
  | secret data =>
    simp only [Payload.variant, Variant.readIdent, Payload.ident, Leading, iff_false, firstIdentity]
    split <;> simp
  | key data =>
    have other : (Payload.key data : Payload pki).ident = none := rfl
    simp only [Payload.variant, Variant.readIdent, other, Leading, firstIdentity]
    by_cases zero : (data.val.take pointerSize).all (· == 0) = true
    · rw [if_pos zero]
      cases found : rest.findSome? Payload.ident with
      | none => simpa [zero] using List.findSome?_eq_none_iff.1 found
      | some ident =>
        simp only [reduceCtorEq, false_iff]
        rintro ⟨-, none⟩
        rw [List.findSome?_eq_none_iff.2 none] at found
        simp at found
    · rw [if_neg zero]
      refine iff_of_false ?_ (fun leading => zero leading.1)
      split <;> simp

theorem destroy_remaining (pointerSize : Nat) {payload : Payload pki} {rest : List (Payload pki)}
    (leading : Leading pointerSize (payload :: rest)) :
    destroy (payload.variant.clearIdent pointerSize :: rest.map Payload.variant) =
      some ((remaining (payload :: rest)).map Payload.released) := by
  cases payload with
  | identity ident exportkey =>
    simp [destroy, Payload.variant, Variant.clearIdent, Variant.release, destroy_variants,
      remaining, Payload.ident]
  | secret data => exact absurd leading id
  | key data =>
    have kept : remaining (.key data :: rest) = .key data :: rest := by
      apply List.eraseP_of_forall_not
      intro payload member
      rcases List.mem_cons.1 member with rfl | member
      · simp [Payload.ident]
      · simp [leading.2 payload member]
    simp [destroy, Payload.variant, Variant.clearIdent, Variant.release, destroy_variants, kept,
      Payload.released]

/-- The first certificate of an archive comes back, and everything else is released as what it is,
exactly when every bag is readable and nothing but a certificate comes first. -/
theorem importData_iff (pointerSize : Nat) {file : pkcs12.File} {archive : pkcs12.Archive}
    {passwd macpasswd : Option CString} (decoded : pkcs12.decode file = some archive)
    (valid : pkcs12.verifyMac archive macpasswd = true) :
    importData pointerSize file passwd macpasswd =
        some (firstIdentity (archivePayloads passwd archive),
          (remaining (archivePayloads passwd archive)).map Payload.released) ↔
      ArchiveReadable passwd archive ∧ Leading pointerSize (archivePayloads passwd archive) := by
  by_cases read : ArchiveReadable passwd archive
  next =>
    rw [importData_payloads pointerSize decoded valid read]
    simp only [read, true_and]
    cases archivePayloads passwd archive with
    | nil => exact iff_of_true rfl trivial
    | cons payload rest =>
      rw [List.map_cons, ← readIdent_first]
      constructor
      · intro imported
        obtain ⟨released, -, same⟩ := Option.map_eq_some_iff.1 imported
        exact congrArg Prod.fst same
      · intro first
        have leading := (readIdent_first pointerSize payload rest).1 first
        simp only [destroy_remaining pointerSize leading, first, Option.map_some]
  next =>
    rw [importData_unreadable pointerSize decoded valid read]
    simp [read]

def john : Asn1Value := .string ⟨ascii "John", john_small⟩

def plainArchive (bags : List (Bag (plainPkcs12 plainPki))) : (plainPkcs12 plainPki).File :=
  ([(none, bags)], some none)

def certificateFirst : (plainPkcs12 plainPki).File :=
  plainArchive [⟨.certBag (some ()), none, none⟩, ⟨.keyBag (some ()), none, none⟩,
    ⟨.secretBag john, none, none⟩]

def secretFirst : (plainPkcs12 plainPki).File :=
  plainArchive [⟨.secretBag john, none, none⟩, ⟨.certBag (some ()), none, none⟩]

theorem importData_certificate :
    importData 4 certificateFirst none none =
      some (.identity ⟨(), some ()⟩, [.secret ⟨ascii "John", by decide⟩]) := by
  have decoded : (plainPkcs12 plainPki).decode certificateFirst = some certificateFirst := rfl
  have valid : (plainPkcs12 plainPki).verifyMac certificateFirst none = true := rfl
  refine (@importData_iff _ _ 4 _ _ none _ decoded valid).2 ⟨?_, trivial⟩
  intro safe member
  rw [List.mem_singleton.1 member]
  exact List.all_eq_true.1 rfl

/-- The secret's block is taken for the certificate and then cleared through the NULL that
replaced it. -/
theorem importData_secret :
    (plainPkcs12 plainPki).verifyMac secretFirst none = true ∧
      importData 4 secretFirst none none = none :=
  ⟨rfl, rfl⟩

end Ptp.Store
