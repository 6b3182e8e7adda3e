import Mathlib.Logic.Relation
import Ptptl.Cert.Insert
import Ptptl.Ptp.StoreImport

set_option autoImplicit false

/-! # The store of a client of the file sharing application -/

namespace Sfs

open Ptp Ptp.Store

variable {pki : Pki} (names : Names pki)

/-- `Insert` before it saves the store; unlike that of the certificate tool it looks for the local
name first. -/
def insert (list : List (Entry pki)) (now : Nat) (ident : Certified pki) :
    Option (Int × List (Entry pki)) := do
  if ← Cert.isLocal names list ident then some (0, list)
  else if (← Cert.verify names list now ident) ≠ 0 then some (-1, list)
  else
    let next ← Cert.replace names list ident false
    some (0, next)

variable {names}

theorem insert_cases {list next : List (Entry pki)} {now : Nat} {ident : Certified pki}
    {status : Int} (inserted : insert names list now ident = some (status, next)) :
    (Cert.isLocal names list ident = some true ∧ status = 0 ∧ next = list) ∨
      (Cert.isLocal names list ident = some false ∧ Cert.verify names list now ident ≠ some 0 ∧
        status = -1 ∧ next = list) ∨
      (Cert.Adds names list now ident ∧ status = 0 ∧
        Cert.replace names list ident false = some next) := by
  rcases Option.bind_eq_some_iff.1 inserted with ⟨own, compared, inserted⟩
  cases own with
  | true =>
    cases inserted
    exact .inl ⟨compared, rfl, rfl⟩
  | false =>
    rcases Option.bind_eq_some_iff.1 inserted with ⟨verdict, verified, inserted⟩
    by_cases refused : verdict ≠ 0
    next =>
      rw [if_pos refused] at inserted
      cases inserted
      refine .inr (.inl ⟨compared, fun accepted => refused ?_, rfl, rfl⟩)
      exact Option.some.inj (verified.symm.trans accepted)
    next =>
      rw [if_neg refused] at inserted
      rcases Option.bind_eq_some_iff.1 inserted with ⟨result, replaced, same⟩
      cases same
      have accepted : Cert.verify names list now ident = some 0 := by
        rw [verified, not_not.1 refused]
      exact .inr (.inr ⟨⟨accepted, compared⟩, rfl, replaced⟩)

/-- A certificate that is stored, or signed by one that is. -/
def Known (list : List (Entry pki)) (cert : pki.Cert) : Prop :=
  ∃ certified ∈ idents list, certified.cert = cert ∨ Signs certified.cert cert

variable (names) in
/-- What `Insert` does not check: a certificate that is not known may neither have the local name
nor be self-signed. -/
def Vouched (list : List (Entry pki)) (now : Nat) (ident : Certified pki) : Prop :=
  Known list ident.cert ∨
    Cert.isLocal names list ident ≠ some true ∧
      (sameName (names.name ident.cert) (names.issuerName ident.cert) = some true →
        ident.identity.verify now ident.cert ≠ 0)

theorem findIdent_mem {list : List (Entry pki)} {name : Option CString} {haskey : Bool}
    {modulus : Option (Block publicKeySize)} {place : Nat} {ident : Certified pki}
    (found : findIdent names list name haskey modulus = some (some (place, ident))) :
    ident ∈ idents list := by
  rcases findFrom_found found with ⟨front, entry, back, rfl, -, certified, -⟩
  rw [idents_append, idents_cons_some certified]
  exact List.mem_append_right _ List.mem_cons_self

theorem issuerOf_cases {list : List (Entry pki)} {ident issuer : Certified pki}
    (found : Cert.issuerOf names list ident = some (some issuer)) :
    (sameName (names.name ident.cert) (names.issuerName ident.cert) = some true ∧
      issuer = ident) ∨ issuer ∈ idents list := by
  rcases Option.bind_eq_some_iff.1 found with ⟨same, compared, found⟩
  cases same with
  | true =>
    cases found
    exact .inl ⟨compared, rfl⟩
  | false =>
    rcases Option.bind_eq_some_iff.1 found with ⟨stored, finds, found⟩
    rcases Option.map_eq_some_iff.1 (Option.some.inj found) with ⟨⟨place, _⟩, rfl, rfl⟩
    exact .inr (findIdent_mem finds)

theorem Vouched.known {list : List (Entry pki)} {now : Nat} {ident : Certified pki}
    (vouched : Vouched names list now ident) (adds : Cert.Adds names list now ident) :
    Known list ident.cert := by
  rcases vouched with known | ⟨-, unsigned⟩
  · exact known
  · rcases Cert.verify_zero.1 adds.1 with ⟨issuer, found, verified⟩
    rcases issuerOf_cases found with ⟨same, rfl⟩ | stored
    · exact absurd verified (unsigned same)
    · rcases (Identity.verify_iff _ _ _).1 verified with ⟨cert, held, signs, -⟩
      cases held
      exact ⟨issuer, stored, .inr signs⟩

theorem insert_known_iff {list next : List (Entry pki)} {now : Nat} {ident : Certified pki}
    {status : Int} (inserted : insert names list now ident = some (status, next)) :
    ((status = 0 → Known list ident.cert) ∧
        ∀ stored ∈ idents list, stored ∉ idents next → Known list ident.cert) ↔
      Vouched names list now ident := by
  constructor
  · rintro ⟨accepted, -⟩
    by_cases known : Known list ident.cert
    · exact .inl known
    · have refused : status ≠ 0 := fun zero => known (accepted zero)
      rcases insert_cases inserted with ⟨-, zero, -⟩ | ⟨own, failed, -⟩ | ⟨-, zero, -⟩
      · exact absurd zero refused
      · refine .inr ⟨by rw [own]; simp, fun same verified => failed ?_⟩
        refine Cert.verify_zero.2 ⟨ident, ?_, verified⟩
        simp [Cert.issuerOf, same]
      · exact absurd zero refused
  · intro vouched
    rcases insert_cases inserted with ⟨own, -, -⟩ | ⟨-, -, failed, same⟩ | ⟨adds, -, -⟩
    · rcases vouched with known | ⟨other, -⟩
      · exact ⟨fun _ => known, fun _ _ _ => known⟩
      · exact absurd own other
    · refine ⟨fun zero => absurd (failed.symm.trans zero) (by decide), ?_⟩
      intro stored member gone
      rw [same] at gone
      exact absurd member gone
    · exact ⟨fun _ => vouched.known adds, fun _ _ _ => vouched.known adds⟩

/-! # Any number of servers -/

variable {pkcs12 : Pkcs12 pki} (names)

/-- What `Auth` does to the store with the certificate data of a server. -/
def receive (pointerSize : Nat) (list : List (Entry pki)) (now : Nat) (data : pkcs12.File) :
    Option (List (Entry pki)) := do
  match ← importData pointerSize data none none with
  | (.null, _) => some list
  | (.identity ident, _) => (insert names list now ident).map Prod.snd
  | _ => none

def receives (pointerSize : Nat) (list : List (Entry pki)) :
    List (Nat × pkcs12.File) → Option (List (Entry pki))
  | [] => some list
  | (now, data) :: rest => do
    let next ← receive names pointerSize list now data
    receives pointerSize next rest

def VouchedRun (pointerSize : Nat) (list : List (Entry pki)) : List (Nat × pkcs12.File) → Prop
  | [] => True
  | (now, data) :: rest =>
    (∀ ident released, importData pointerSize data none none = some (.identity ident, released) →
        Vouched names list now ident) ∧
      ∀ next, receive names pointerSize list now data = some next →
        VouchedRun pointerSize next rest

def Chains (installed : List (Entry pki)) (cert : pki.Cert) : Prop :=
  ∃ root ∈ idents installed, Relation.ReflTransGen Signs root.cert cert

variable {names}

theorem removeIdent_subset {list kept : List (Entry pki)} {name : Option CString} {haskey : Bool}
    {modulus : Option (Block publicKeySize)} {old : Nat × Certified pki}
    (found : findIdent names list name haskey modulus = some (some old))
    (removed : removeIdent names list old = some kept) : idents kept ⊆ idents list := by
  rcases findFrom_found found with ⟨front, entry, back, rfl, at', certified, -⟩
  rcases Option.bind_eq_some_iff.1 removed with ⟨key, -, removed⟩
  rw [at'] at removed
  rcases removeFrom_found certified removed with
    rfl | ⟨before, first, other, after, rfl, -, -, rfl⟩
  · refine (List.Sublist.filterMap _ ?_).subset
    exact (List.sublist_cons_self _ _).append_left _
  · refine (List.Sublist.filterMap _ ?_).subset
    rw [List.append_assoc, List.cons_append]
    exact (List.sublist_cons_self _ _).append_left _

theorem replace_subset {list next : List (Entry pki)} {ident : Certified pki} {exportkey : Bool}
    (replaced : Cert.replace names list ident exportkey = some next) :
    ∀ stored ∈ idents next, stored ∈ idents list ∨ stored.cert = ident.cert := by
  rcases Cert.replace_added replaced with ⟨kept, copy, cleared, copied, rfl⟩
  intro stored member
  rw [idents_append] at member
  rcases List.mem_append.1 member with old | new
  · rcases Option.bind_eq_some_iff.1 cleared with ⟨found, finds, cleared⟩
    cases found with
    | none =>
      cases cleared
      exact .inl old
    | some found => exact .inl (removeIdent_subset finds cleared old)
  · rw [List.mem_singleton.1 new, copied]
    refine .inr ?_
    split <;> rfl

theorem receive_chains {installed list next : List (Entry pki)} {pointerSize now : Nat}
    {data : pkcs12.File} (chains : ∀ stored ∈ idents list, Chains installed stored.cert)
    (vouched : ∀ ident released,
      importData pointerSize data none none = some (.identity ident, released) →
        Vouched names list now ident)
    (received : receive names pointerSize list now data = some next) :
    ∀ stored ∈ idents next, Chains installed stored.cert := by
  rcases Option.bind_eq_some_iff.1 received with ⟨⟨pointer, released⟩, imported, received⟩
  cases pointer with
  | null =>
    cases received
    exact chains
  | identity ident =>
    rcases Option.map_eq_some_iff.1 received with ⟨⟨status, _⟩, inserted, rfl⟩
    rcases insert_cases inserted with ⟨-, -, rfl⟩ | ⟨-, -, -, rfl⟩ | ⟨adds, -, replaced⟩
    · exact chains
    · exact chains
    · intro stored member
      rcases replace_subset replaced stored member with old | new
      · exact chains stored old
      · rw [new]
        rcases (vouched ident released imported).known adds with ⟨known, held, same | signs⟩
        · exact same ▸ chains known held
        · rcases chains known held with ⟨root, first, path⟩
          exact ⟨root, first, path.tail signs⟩
  | address bytes => contradiction
  | block data => contradiction

theorem receives_chains {installed list final : List (Entry pki)} {pointerSize : Nat}
    {arrivals : List (Nat × pkcs12.File)}
    (chains : ∀ stored ∈ idents list, Chains installed stored.cert)
    (vouched : VouchedRun names pointerSize list arrivals)
    (ran : receives names pointerSize list arrivals = some final) :
    ∀ stored ∈ idents final, Chains installed stored.cert := by
  induction arrivals generalizing list with
  | nil =>
    cases ran
    exact chains
  | cons arrival rest ih =>
    rcases Option.bind_eq_some_iff.1 ran with ⟨next, received, later⟩
    exact ih (receive_chains chains vouched.1 received) (vouched.2 next received) later

/-- `Insert` trusts what it has not got from the store in two cases: a certificate of the local
name, and one that signed itself. -/
theorem insert_trusted (names : Names pki) (pkcs12 : Pkcs12 pki) :
    (∀ (list next : List (Entry pki)) (now : Nat) (ident : Certified pki) (status : Int),
      insert names list now ident = some (status, next) →
        (((status = 0 → Known list ident.cert) ∧
            ∀ stored ∈ idents list, stored ∉ idents next → Known list ident.cert) ↔
          Vouched names list now ident)) ∧
    ∀ (pointerSize : Nat) (installed final : List (Entry pki))
      (arrivals : List (Nat × pkcs12.File)),
      VouchedRun names pointerSize installed arrivals →
        receives names pointerSize installed arrivals = some final →
          ∀ stored ∈ idents final, Chains installed stored.cert := by
  refine ⟨fun list next now ident status => insert_known_iff, ?_⟩
  intro pointerSize installed final arrivals vouched ran
  refine receives_chains ?_ vouched ran
  intro stored member
  exact ⟨stored, member, .refl⟩

def paperFile (paper : Cert.Paper) : (plainPkcs12 Cert.paperPki).File :=
  ([(none, [⟨.certBag (some paper), none, none⟩])], some none)

theorem insert_trusted_signed : ∃ final,
    receives Cert.paperNames 4 Cert.paperStore [(5, paperFile Cert.brief)] = some final ∧
      (∀ stored ∈ idents final, Chains Cert.paperStore stored.cert) ∧
      Known Cert.paperStore Cert.brief := by
  have ran : ∃ final,
      receives Cert.paperNames 4 Cert.paperStore [(5, paperFile Cert.brief)] = some final :=
    ⟨_, rfl⟩
  have signed : Vouched Cert.paperNames Cert.paperStore 5 ⟨Cert.brief, none⟩ := by
    refine .inl ⟨⟨Cert.authority, none⟩, List.mem_cons_self, .inr ⟨(1 : Byte), rfl, rfl⟩⟩
  have vouched : VouchedRun Cert.paperNames 4 Cert.paperStore [(5, paperFile Cert.brief)] := by
    refine ⟨?_, fun _ _ => trivial⟩
    intro ident released imported
    cases imported
    exact signed
  rcases ran with ⟨final, ran⟩
  have inserted : ∃ next,
      insert Cert.paperNames Cert.paperStore 5 ⟨Cert.brief, none⟩ = some (0, next) := ⟨_, rfl⟩
  rcases inserted with ⟨next, inserted⟩
  rcases insert_trusted Cert.paperNames (plainPkcs12 Cert.paperPki) with ⟨single, whole⟩
  refine ⟨final, ran, whole 4 Cert.paperStore final _ vouched ran, ?_⟩
  exact ((single _ next 5 ⟨Cert.brief, none⟩ 0 inserted).2 signed).1 rfl

def impostor : Cert.Paper := ⟨1, 9, 1, 9, 1000⟩

/-- It takes the place of the authority's. -/
theorem insert_impostor :
    (∃ next, insert Cert.paperNames Cert.paperStore 5 ⟨impostor, none⟩ = some (0, next) ∧
      idents next = [Cert.localIdent, ⟨impostor, none⟩]) ∧
    ¬ Known Cert.paperStore impostor := by
  refine ⟨⟨_, rfl, rfl⟩, ?_⟩
  rintro ⟨stored, member, known⟩
  have listed : stored ∈ [⟨Cert.authority, none⟩, Cert.localIdent] := member
  have unknown (paper : Cert.Paper) (differs : paper ≠ impostor) (key : paper.key ≠ 9) :
      ¬ (paper = impostor ∨ @Signs Cert.paperPki paper impostor) := by
    rintro (same | ⟨signer, own, verified⟩)
    · exact differs same
    · cases own
      exact key (beq_iff_eq.1 verified).symm
  rcases List.mem_cons.1 listed with rfl | listed
  · exact unknown Cert.authority (by decide) (by decide) known
  · rw [List.mem_singleton.1 listed] at known
    exact unknown Cert.owner (by decide) (by decide) known

end Sfs
