import Ptptl.Ptp.StoreFind

set_option autoImplicit false

/-! # The certificate tool -/

namespace Cert

open Ptp Ptp.Store

variable {pki : Pki} (names : Names pki)

def issuerOf (list : List (Entry pki)) (ident : Certified pki) : Option (Option (Certified pki)) := do
  if ← sameName (names.name ident.cert) (names.issuerName ident.cert) then some (some ident)
  else
    let found ← findIdent names list (names.issuerName ident.cert) false none
    some (found.map Prod.snd)

def verify (list : List (Entry pki)) (now : Nat) (ident : Certified pki) : Option Int := do
  match ← issuerOf names list ident with
  | none => some (-1)
  | some issuer => some (if issuer.identity.verify now ident.cert = 0 then 0 else -1)

def isLocal (list : List (Entry pki)) (ident : Certified pki) : Option Bool := do
  match ← findIdent names list none true none with
  | none => some false
  | some (_, localId) => sameName (names.name localId.cert) (names.name ident.cert)

def clear (list : List (Entry pki)) (name : Option CString) : Option (List (Entry pki)) := do
  match ← findIdent names list name false none with
  | none => some list
  | some old => removeIdent names list old

/-- The end of `Insert`: a certificate of the same name goes, the new one comes last. -/
def replace (list : List (Entry pki)) (ident : Certified pki) (exportkey : Bool) :
    Option (List (Entry pki)) := do
  let kept ← clear names list (names.name ident.cert)
  let copy := if exportkey then ident else { ident with key := none }
  insertIdentity kept copy exportkey none none 0

def insert (list : List (Entry pki)) (now : Nat) (ident : Certified pki) (exportkey : Bool) :
    Option (Int × List (Entry pki)) := do
  if (← verify names list now ident) ≠ 0 then some (-1, list)
  else if ← isLocal names list ident then some (0, list)
  else
    let next ← replace names list ident exportkey
    some (0, next)

def remove (list : List (Entry pki)) (name : CString) : Option (Int × List (Entry pki)) := do
  let localId ← findIdent names list none true none
  match ← findIdent names list (some name) false none with
  | none => some (-1, list)
  | some found =>
    if localId.map Prod.fst = some found.1 then some (-1, list)
    else
      let next ← removeIdent names list found
      some (0, next)

variable {names}

theorem verify_zero {list : List (Entry pki)} {now : Nat} {ident : Certified pki} :
    verify names list now ident = some 0 ↔ ∃ issuer,
      issuerOf names list ident = some (some issuer) ∧
        issuer.identity.verify now ident.cert = 0 := by
  cases found : issuerOf names list ident with
  | none => simp [verify, found]
  | some issuer =>
    cases issuer with
    | none => simp [verify, found]
    | some issuer =>
      by_cases good : issuer.identity.verify now ident.cert = 0 <;> simp [verify, found, good]

variable (names) in
/-- `Insert` gets to `Store::Insert`. -/
def Adds (list : List (Entry pki)) (now : Nat) (ident : Certified pki) : Prop :=
  verify names list now ident = some 0 ∧ isLocal names list ident = some false

/-- The certificate that is found for the issuer verifies the signature and the certificate has
not expired. -/
def Valid (names : Names pki) (list : List (Entry pki)) (now : Nat) (ident : Certified pki) :
    Prop :=
  ∃ issuer, issuerOf names list ident = some (some issuer) ∧ Signs issuer.cert ident.cert ∧
    now < pki.notAfter ident.cert

theorem replace_added {list next : List (Entry pki)} {ident : Certified pki} {exportkey : Bool}
    (replaced : replace names list ident exportkey = some next) :
    ∃ kept copy, clear names list (names.name ident.cert) = some kept ∧
      copy = (if exportkey then ident else { ident with key := none }) ∧
      next = kept ++ [⟨.identity copy exportkey, none, none⟩] := by
  rcases Option.bind_eq_some_iff.1 replaced with ⟨kept, cleared, inserted⟩
  exact ⟨kept, _, cleared, rfl, (Option.some.inj inserted).symm⟩

theorem insert_cases {list next : List (Entry pki)} {now : Nat} {ident : Certified pki}
    {exportkey : Bool} {status : Int}
    (inserted : insert names list now ident exportkey = some (status, next)) :
    (¬ Adds names list now ident ∧ next = list) ∨
      (Adds names list now ident ∧ status = 0 ∧
        replace names list ident exportkey = some next) := by
  rcases Option.bind_eq_some_iff.1 inserted with ⟨verdict, verified, inserted⟩
  by_cases refused : verdict ≠ 0
  next =>
    rw [if_pos refused] at inserted
    cases inserted
    refine .inl ⟨fun adds => refused ?_, rfl⟩
    exact Option.some.inj (verified.symm.trans adds.1)
  next =>
    rw [if_neg refused] at inserted
    have accepted : verify names list now ident = some 0 := by
      rw [verified, not_not.1 refused]
    rcases Option.bind_eq_some_iff.1 inserted with ⟨own, compared, inserted⟩
    cases own with
    | true =>
      cases inserted
      refine .inl ⟨fun adds => ?_, rfl⟩
      exact absurd (compared.symm.trans adds.2) (by simp)
    | false =>
      rcases Option.bind_eq_some_iff.1 inserted with ⟨result, replaced, same⟩
      cases same
      exact .inr ⟨⟨accepted, compared⟩, rfl, replaced⟩

theorem insert_refused {list next : List (Entry pki)} {now : Nat} {ident : Certified pki}
    {exportkey : Bool} {status : Int}
    (inserted : insert names list now ident exportkey = some (status, next))
    (refused : ¬ Adds names list now ident) : next = list := by
  rcases insert_cases inserted with ⟨-, same⟩ | ⟨adds, -⟩
  · exact same
  · exact absurd adds refused

theorem insert_added {list next : List (Entry pki)} {now : Nat} {ident : Certified pki}
    {exportkey : Bool} {status : Int}
    (inserted : insert names list now ident exportkey = some (status, next))
    (adds : Adds names list now ident) :
    ∃ kept copy, copy.cert = ident.cert ∧
      next = kept ++ [⟨.identity copy exportkey, none, none⟩] := by
  rcases insert_cases inserted with ⟨refused, -⟩ | ⟨-, -, replaced⟩
  · exact absurd adds refused
  · rcases replace_added replaced with ⟨kept, copy, -, copied, same⟩
    refine ⟨kept, copy, ?_, same⟩
    rw [copied]
    split <;> rfl

theorem verify_alive_iff (now : Nat) (issuer : Identity pki) (subject : pki.Cert) :
    (issuer.verify now subject = 0 →
        (∃ cert, issuer.cert = some cert ∧ Signs cert subject) ∧ now < pki.notAfter subject) ↔
      (∀ cert, issuer.cert = some cert → Signs cert subject → pki.notAfter cert ≤ now) ∨
        now < pki.notAfter subject := by
  rw [Identity.verify_iff]
  constructor
  · intro valid
    by_cases fresh : now < pki.notAfter subject
    · exact .inr fresh
    · refine .inl fun cert held signs => Nat.le_of_not_lt fun alive => ?_
      exact fresh (valid ⟨cert, held, signs, alive⟩).2
  · rintro refused ⟨cert, held, signs, alive⟩
    rcases refused with expired | fresh
    · exact absurd (expired cert held signs) (Nat.not_le.2 alive)
    · exact ⟨⟨cert, held, signs⟩, fresh⟩

theorem adds_valid_iff (names : Names pki) (list : List (Entry pki)) (now : Nat)
    (ident : Certified pki) :
    (Adds names list now ident → Valid names list now ident) ↔
      (∀ issuer, issuerOf names list ident = some (some issuer) →
          Signs issuer.cert ident.cert → pki.notAfter issuer.cert ≤ now) ∨
        isLocal names list ident ≠ some false ∨ now < pki.notAfter ident.cert := by
  constructor
  · intro valid
    by_cases own : isLocal names list ident = some false
    · by_cases fresh : now < pki.notAfter ident.cert
      · exact .inr (.inr fresh)
      · refine .inl fun issuer found signs => Nat.le_of_not_lt fun alive => ?_
        have verified : issuer.identity.verify now ident.cert = 0 :=
          (Identity.verify_iff _ _ _).2 ⟨issuer.cert, rfl, signs, alive⟩
        rcases valid ⟨verify_zero.2 ⟨issuer, found, verified⟩, own⟩ with ⟨_, -, -, valid⟩
        exact fresh valid
    · exact .inr (.inl own)
  · rintro refused ⟨verified, other⟩
    rcases verify_zero.1 verified with ⟨issuer, found, verified⟩
    rcases (Identity.verify_iff _ _ _).1 verified with ⟨cert, held, signs, alive⟩
    cases held
    rcases refused with expired | own | fresh
    · exact absurd (expired issuer found signs) (Nat.not_le.2 alive)
    · exact absurd other own
    · exact ⟨issuer, found, signs, fresh⟩

/-- `Verify` looks at the validity of the issuer's certificate and never at the subject's own. -/
theorem insert_valid_iff (names : Names pki) (list next : List (Entry pki)) (now : Nat)
    (ident : Certified pki) (exportkey : Bool) (status : Int)
    (inserted : insert names list now ident exportkey = some (status, next)) :
    (∀ (issuer : Identity pki) (subject : pki.Cert),
      (issuer.verify now subject = 0 →
          (∃ cert, issuer.cert = some cert ∧ Signs cert subject) ∧ now < pki.notAfter subject) ↔
        (∀ cert, issuer.cert = some cert → Signs cert subject → pki.notAfter cert ≤ now) ∨
          now < pki.notAfter subject) ∧
    (¬ Adds names list now ident → next = list) ∧
    (Adds names list now ident → ∃ kept copy, copy.cert = ident.cert ∧
      next = kept ++ [⟨.identity copy exportkey, none, none⟩]) ∧
    ((Adds names list now ident → Valid names list now ident) ↔
      (∀ issuer, issuerOf names list ident = some (some issuer) →
          Signs issuer.cert ident.cert → pki.notAfter issuer.cert ≤ now) ∨
        isLocal names list ident ≠ some false ∨ now < pki.notAfter ident.cert) :=
  ⟨verify_alive_iff now, insert_refused inserted, insert_added inserted,
    adds_valid_iff names list now ident⟩

/-- A certificate by what it says: the subject's name and key, the issuer's name, the key that
signed it, and its end. -/
structure Paper where
  name : Byte
  key : Byte
  issuer : Byte
  signer : Byte
  notAfter : Nat
deriving DecidableEq

def paperPki : Pki where
  Cert := Paper
  PublicKey := Byte
  PrivateKey := Byte
  publicKey paper := some paper.key
  notAfter := Paper.notAfter
  verify paper key := paper.signer == key
  publicEncrypt _ plain := some plain

def paperNames : Names paperPki where
  name := fun paper : Paper => some (CString.ofBuffer [paper.name])
  issuerName := fun paper : Paper => some (CString.ofBuffer [paper.issuer])
  modulus key := ⟨List.replicate publicKeySize key, List.length_replicate⟩

def paperEntry (paper : Paper) (key : Option Byte) : Entry paperPki :=
  ⟨.identity ⟨paper, key⟩ key.isSome, none, none⟩

def authority : Paper := ⟨1, 1, 1, 1, 1000⟩
def owner : Paper := ⟨2, 2, 1, 1, 1000⟩

def brief : Paper := ⟨3, 3, 1, 1, 10⟩

def localIdent : Certified paperPki := ⟨owner, some (2 : Byte)⟩

def paperStore : List (Entry paperPki) :=
  [paperEntry authority none, paperEntry owner (some 2)]

theorem insert_valid_iff_brief : ∃ next,
    insert paperNames paperStore 5 ⟨brief, none⟩ false = some (0, next) ∧
      Valid paperNames paperStore 5 ⟨brief, none⟩ := by
  have added : ∃ next, insert paperNames paperStore 5 ⟨brief, none⟩ false = some (0, next) :=
    ⟨_, rfl⟩
  rcases added with ⟨next, inserted⟩
  have valid := (insert_valid_iff paperNames paperStore next 5 ⟨brief, none⟩ false 0 inserted).2.2.2
  exact ⟨next, inserted, valid.2 (.inr (.inr (by decide))) ⟨rfl, rfl⟩⟩

theorem insert_expired : ∃ next,
    insert paperNames paperStore 20 ⟨brief, none⟩ false = some (0, next) ∧
      next = paperStore ++ [paperEntry brief none] ∧ paperPki.notAfter brief ≤ 20 ∧
      (Certified.identity (⟨authority, none⟩ : Certified paperPki)).verify 20 brief = 0 :=
  ⟨_, rfl, rfl, by decide, rfl⟩

end Cert
