import Ptptl.Ptp.Store

set_option autoImplicit false

/-! # Certificates of a store, by name and by key -/

namespace Ptp

/-- Common names, where `none` is NULL, and RSA moduli. -/
structure Names (pki : Pki) where
  name : pki.Cert → Option CString
  issuerName : pki.Cert → Option CString
  modulus : pki.PublicKey → Block publicKeySize

/-- `strcmp` for equality; a NULL cannot be read. -/
def sameName (first second : Option CString) : Option Bool := do
  let first ← first
  let second ← second
  some (first == second)

def Names.getKey {pki : Pki} (names : Names pki) (cert : pki.Cert) :
    Option (Block publicKeySize) :=
  (pki.publicKey cert).map names.modulus

def Certified.identity {pki : Pki} (certified : Certified pki) : Identity pki :=
  ⟨some certified.cert, certified.key⟩

namespace Store

variable {pki : Pki}

def Payload.certified : Payload pki → Option (Certified pki)
  | .identity ident _ => some ident
  | _ => none

def idents (list : List (Entry pki)) : List (Certified pki) :=
  list.filterMap fun entry => entry.payload.certified

variable (names : Names pki)

/-- Whether `Find` stops at a certificate. -/
def matchesIdent (name : Option CString) (haskey : Bool) (modulus : Option (Block publicKeySize))
    (ident : Certified pki) : Option Bool := do
  let named ← if name.isNone then some true else sameName name (names.name ident.cert)
  if named && (!haskey || ident.key.isSome) then
    match modulus with
    | none => some true
    | some modulus => (names.getKey ident.cert).map fun mod => mod == modulus
  else some false

/-- `Find` of a certificate; `place` stands for the address of the first entry. -/
def findFrom (name : Option CString) (haskey : Bool) (modulus : Option (Block publicKeySize))
    (place : Nat) : List (Entry pki) → Option (Option (Nat × Certified pki))
  | [] => some none
  | entry :: rest =>
    match entry.payload.certified with
    | none => findFrom name haskey modulus (place + 1) rest
    | some ident => do
      if ← matchesIdent names name haskey modulus ident then some (some (place, ident))
      else findFrom name haskey modulus (place + 1) rest

def findIdent (list : List (Entry pki)) (name : Option CString) (haskey : Bool)
    (modulus : Option (Block publicKeySize)) : Option (Option (Nat × Certified pki)) :=
  findFrom names name haskey modulus 0 list

/-- The loop of `Remove`, up to the entry at `pointer` or one with its modulus. -/
def removeFrom (pointer : Nat) (modulus : Block publicKeySize) (place : Nat) :
    List (Entry pki) → Option (List (Entry pki))
  | [] => some []
  | entry :: rest =>
    match entry.payload.certified with
    | none => (removeFrom pointer modulus (place + 1) rest).map (entry :: ·)
    | some ident =>
      if place = pointer then some rest
      else do
        let mod ← names.getKey ident.cert
        if mod = modulus then some rest
        else (removeFrom pointer modulus (place + 1) rest).map (entry :: ·)

def removeIdent (list : List (Entry pki)) (found : Nat × Certified pki) :
    Option (List (Entry pki)) := do
  let modulus ← names.getKey found.2.cert
  removeFrom names found.1 modulus 0 list

variable {names}

@[simp] theorem idents_append (front back : List (Entry pki)) :
    idents (front ++ back) = idents front ++ idents back :=
  List.filterMap_append

theorem idents_cons_some {entry : Entry pki} {ident : Certified pki}
    (certified : entry.payload.certified = some ident) (rest : List (Entry pki)) :
    idents (entry :: rest) = ident :: idents rest :=
  List.filterMap_cons_some certified

theorem idents_cons_none {entry : Entry pki} (other : entry.payload.certified = none)
    (rest : List (Entry pki)) : idents (entry :: rest) = idents rest :=
  List.filterMap_cons_none other

theorem matchesIdent_name {name : CString} {ident : Certified pki} {found : Bool}
    (compared : matchesIdent names (some name) false none ident = some found) :
    found = true ↔ names.name ident.cert = some name := by
  rw [matchesIdent] at compared
  rcases Option.bind_eq_some_iff.1 compared with ⟨same, named, stops⟩
  have equal : found = same := by
    cases same <;> simpa using stops.symm
  cases other : names.name ident.cert with
  | none => simp [sameName, other] at named
  | some other' =>
    simp only [sameName, other, Option.bind_eq_bind, Option.bind_some, Option.some.injEq] at named
    rw [equal, ← named, beq_iff_eq, Option.some.injEq, eq_comm]

theorem matchesIdent_key (ident : Certified pki) :
    matchesIdent names none true none ident = some ident.key.isSome := by
  cases key : ident.key <;> simp [matchesIdent, key]

section

variable {name : Option CString} {haskey : Bool} {modulus : Option (Block publicKeySize)}

theorem findFrom_found {place pointer : Nat} {list : List (Entry pki)} {ident : Certified pki}
    (found : findFrom names name haskey modulus place list = some (some (pointer, ident))) :
    ∃ front entry back, list = front ++ entry :: back ∧ pointer = place + front.length ∧
      entry.payload.certified = some ident ∧
      matchesIdent names name haskey modulus ident = some true ∧
      ∀ other ∈ idents front, matchesIdent names name haskey modulus other = some false := by
  induction list generalizing place with
  | nil => simp [findFrom] at found
  | cons entry rest ih =>
    rw [findFrom] at found
    have later (passed : ∀ other ∈ idents [entry],
          matchesIdent names name haskey modulus other = some false)
        (found : findFrom names name haskey modulus (place + 1) rest =
          some (some (pointer, ident))) :
        ∃ front stop back, entry :: rest = front ++ stop :: back ∧
          pointer = place + front.length ∧ stop.payload.certified = some ident ∧
          matchesIdent names name haskey modulus ident = some true ∧
          ∀ other ∈ idents front, matchesIdent names name haskey modulus other = some false := by
      rcases ih found with ⟨front, stop, back, rfl, rfl, certified, matched, before⟩
      refine ⟨entry :: front, stop, back, rfl, ?_, certified, matched, ?_⟩
      · rw [List.length_cons, Nat.add_assoc, Nat.add_comm 1]
      · intro other member
        rw [← List.singleton_append, idents_append] at member
        rcases List.mem_append.1 member with first | rest
        · exact passed other first
        · exact before other rest
    cases certified : entry.payload.certified with
    | none =>
      rw [certified] at found
      exact later (by simp [idents, certified]) found
    | some first =>
      simp only [certified] at found
      rcases Option.bind_eq_some_iff.1 found with ⟨stops, matched, found⟩
      cases stops with
      | true =>
        cases found
        exact ⟨[], entry, rest, rfl, rfl, certified, matched, by simp [idents]⟩
      | false =>
        refine later ?_ found
        intro other member
        rw [idents_cons_some certified] at member
        rw [List.mem_singleton.1 member]
        exact matched

theorem findFrom_none {place : Nat} {list : List (Entry pki)}
    (found : findFrom names name haskey modulus place list = some none) :
    ∀ other ∈ idents list, matchesIdent names name haskey modulus other = some false := by
  induction list generalizing place with
  | nil => simp [idents]
  | cons entry rest ih =>
    rw [findFrom] at found
    cases certified : entry.payload.certified with
    | none =>
      rw [certified] at found
      rw [idents_cons_none certified]
      exact ih found
    | some first =>
      simp only [certified] at found
      rcases Option.bind_eq_some_iff.1 found with ⟨stops, matched, found⟩
      cases stops with
      | true => cases found
      | false =>
        intro other member
        rw [idents_cons_some certified] at member
        rcases List.mem_cons.1 member with rfl | member
        · exact matched
        · exact ih found other member

end

theorem findFrom_modulus {place : Nat} {list : List (Entry pki)} {modulus : Block publicKeySize}
    (keyed : ∀ ident ∈ idents list, (names.getKey ident.cert).isSome)
    (held : ∃ ident ∈ idents list, names.getKey ident.cert = some modulus) :
    ∃ pointer ident, findFrom names none false (some modulus) place list =
        some (some (pointer, ident)) ∧ names.getKey ident.cert = some modulus := by
  induction list generalizing place with
  | nil => simp [idents] at held
  | cons entry rest ih =>
    rw [findFrom]
    cases certified : entry.payload.certified with
    | none =>
      rw [idents_cons_none certified] at keyed held
      exact ih keyed held
    | some first =>
      rw [idents_cons_some certified] at keyed held
      obtain ⟨mod, key⟩ := Option.isSome_iff_exists.1 (keyed first List.mem_cons_self)
      have compared : matchesIdent names none false (some modulus) first =
          some (mod == modulus) := by simp [matchesIdent, key]
      by_cases same : mod = modulus
      next =>
        refine ⟨place, first, ?_, same ▸ key⟩
        simp [compared, same]
      next =>
        obtain ⟨ident, member, has⟩ := held
        rcases List.mem_cons.1 member with rfl | member
        · exact absurd (Option.some.inj (key.symm.trans has)) same
        · have differ : (mod == modulus) = false := beq_false_of_ne same
          rw [differ] at compared
          obtain ⟨pointer, found, later, has⟩ := @ih (place + 1)
            (fun ident member => keyed ident (List.mem_cons_of_mem _ member)) ⟨ident, member, has⟩
          refine ⟨pointer, found, ?_, has⟩
          simpa [compared] using later

theorem removeFrom_other {pointer place : Nat} {modulus : Block publicKeySize}
    {entry : Entry pki} {rest next : List (Entry pki)} (other : entry.payload.certified = none)
    (removed : removeFrom names pointer modulus place (entry :: rest) = some next) :
    ∃ kept, removeFrom names pointer modulus (place + 1) rest = some kept ∧
      next = entry :: kept := by
  simp only [removeFrom, other] at removed
  obtain ⟨kept, removes, rfl⟩ := Option.map_eq_some_iff.1 removed
  exact ⟨kept, removes, rfl⟩

theorem removeFrom_certified {pointer place : Nat} {modulus : Block publicKeySize}
    {entry : Entry pki} {ident : Certified pki} {rest next : List (Entry pki)}
    (certified : entry.payload.certified = some ident)
    (removed : removeFrom names pointer modulus place (entry :: rest) = some next) :
    (place = pointer ∨ names.getKey ident.cert = some modulus) ∧ next = rest ∨
      ¬ (place = pointer ∨ names.getKey ident.cert = some modulus) ∧
        ∃ kept, removeFrom names pointer modulus (place + 1) rest = some kept ∧
          next = entry :: kept := by
  simp only [removeFrom, certified] at removed
  by_cases here : place = pointer
  next =>
    rw [if_pos here] at removed
    cases removed
    exact .inl ⟨.inl here, rfl⟩
  next =>
    rw [if_neg here] at removed
    obtain ⟨mod, key, removed⟩ := Option.bind_eq_some_iff.1 removed
    by_cases equal : mod = modulus
    next =>
      rw [if_pos equal] at removed
      cases removed
      exact .inl ⟨.inr (equal ▸ key), rfl⟩
    next =>
      rw [if_neg equal] at removed
      obtain ⟨kept, removes, rfl⟩ := Option.map_eq_some_iff.1 removed
      refine .inr ⟨?_, kept, removes, rfl⟩
      rintro (same | same)
      · exact here same
      · exact equal (Option.some.inj (key.symm.trans same))

theorem removeFrom_found {place : Nat} {modulus : Block publicKeySize}
    {front back next : List (Entry pki)} {entry : Entry pki} {ident : Certified pki}
    (certified : entry.payload.certified = some ident)
    (removed : removeFrom names (place + front.length) modulus place (front ++ entry :: back) =
      some next) :
    next = front ++ back ∨ ∃ before first other after, front = before ++ first :: after ∧
      first.payload.certified = some other ∧ names.getKey other.cert = some modulus ∧
      next = before ++ (after ++ entry :: back) := by
  induction front generalizing place next with
  | nil =>
    rcases removeFrom_certified certified removed with ⟨-, rfl⟩ | ⟨passes, -⟩
    · exact .inl rfl
    · exact absurd (.inl (Nat.add_zero place).symm) passes
  | cons head front ih =>
    have later : (∃ kept, removeFrom names (place + (head :: front).length) modulus (place + 1)
          (front ++ entry :: back) = some kept ∧ next = head :: kept) →
        next = head :: front ++ back ∨ ∃ before first other after,
          head :: front = before ++ first :: after ∧ first.payload.certified = some other ∧
          names.getKey other.cert = some modulus ∧ next = before ++ (after ++ entry :: back) := by
      rintro ⟨kept, removes, rfl⟩
      rw [List.length_cons, Nat.add_comm front.length, ← Nat.add_assoc] at removes
      rcases ih removes with rfl | ⟨before, first, other, after, rfl, stop, key, rfl⟩
      · exact .inl rfl
      · exact .inr ⟨head :: before, first, other, after, rfl, stop, key, rfl⟩
    cases other : head.payload.certified with
    | none => exact later (removeFrom_other other removed)
    | some ident' =>
      have here : place ≠ place + (head :: front).length := by
        rw [List.length_cons]
        omega
      rcases removeFrom_certified other removed with ⟨stops, rfl⟩ | ⟨-, kept⟩
      · exact .inr ⟨[], head, ident', front, rfl, other, stops.resolve_left here, rfl⟩
      · exact later kept

end Store

end Ptp
